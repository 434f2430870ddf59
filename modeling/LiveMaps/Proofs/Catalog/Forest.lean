import LiveMaps.Catalog.Basic
import LiveMaps.Proofs.Keyed

namespace LiveMaps

namespace Ancestry
variable {parentOf : MapId → Option MapId} {map above top : MapId} {m n : Nat}

theorem climb_succ (parent : parentOf map = some above) :
    climb parentOf (n + 1) map = climb parentOf n above := by simp only [climb,parent]

theorem climb_add (parentOf : MapId → Option MapId) (m n : Nat) (map : MapId) :
    climb parentOf (m + n) map = (climb parentOf m map).bind (climb parentOf n) := by
  induction m generalizing map with
  | zero => simp [climb]
  | succ m ih =>
    rw [Nat.add_right_comm]
    simp only [climb]
    split
    · rfl
    · exact ih _

theorem climb_trans (first : climb parentOf m map = some above)
    (second : climb parentOf n above = some top) : climb parentOf (m + n) map = some top := by
  rw [climb_add,first]
  exact second

theorem climb_one : climb parentOf 1 map = parentOf map := by
  simp only [climb]
  split <;> simp_all

theorem climb_last : climb parentOf (n + 1) map = (climb parentOf n map).bind parentOf := by
  rw [climb_add]
  exact congrArg _ (funext fun _ => climb_one)

-- Going round a cycle, a climb never ends.
theorem climb_cycle (returned : climb parentOf (n + 1) map = some map) (rounds : Nat) :
    climb parentOf (rounds * (n + 1)) map = some map := by
  induction rounds with
  | zero => simp [climb]
  | succ rounds ih =>
    rw [Nat.succ_mul]
    exact climb_trans ih returned

theorem climb_shorter (long : (climb parentOf n map).isSome) (short : m ≤ n) :
    (climb parentOf m map).isSome := by
  obtain ⟨rest,rfl⟩ := Nat.le.dest short
  rw [climb_add] at long
  exact Option.isSome_of_isSome_bind long

end Ancestry

namespace Catalog
open Ancestry Ordered
variable {c : Catalog} {data : CatalogData} {d : MapDefinition} {map parent top : MapId}

-- What the checks of `build` leave: one definition for an id, every parent
-- defined, and no chain of parents as long as there are definitions.
structure Forest (c : Catalog) : Prop where
  ascending : Ascending MapDefinition.order c.definitions
  defined : ∀ d ∈ c.definitions, ∀ parent, d.terrainParent = some parent →
    (c.definition? parent).isSome
  ends : ∀ d ∈ c.definitions, climb c.terrainParent? c.definitions.length d.id = none

theorem foldl_definitions (add : Catalog → α → Catalog)
    (kept : ∀ c entry, (add c entry).definitions = c.definitions) (entries : List α) (c : Catalog) :
    (entries.foldl add c).definitions = c.definitions := by
  induction entries generalizing c with
  | nil => rfl
  | cons entry rest ih => exact (ih _).trans (kept c entry)

theorem build_parts (built : build data = .ok c) : ∃ bare : Catalog,
    bare.definitions = ofList MapDefinition.order data.maps ∧ c.definitions = bare.definitions ∧
      (∀ d ∈ bare.definitions, bare.undefinedParent? d = none) ∧
      ∀ d ∈ bare.definitions, bare.loops d.id = false := by
  unfold build at built
  split at built
  · cases built
  · dsimp only at built
    split at built
    · cases built
    · rename_i parents
      split at built
      · cases built
      · rename_i cycles
        cases built
        refine ⟨{empty with definitions := ofList MapDefinition.order data.maps},rfl,?_,
          fun d member => ?_,fun d member => ?_⟩
        · rw [foldl_definitions addRequirement fun _ _ => rfl,
            foldl_definitions addDifficulties fun _ _ => rfl,
            foldl_definitions addTemplate fun _ _ => rfl]
        · simpa using List.findSome?_eq_none_iff.mp parents d member
        · simpa using List.find?_eq_none.mp cycles d member

theorem definition?_congr {c other : Catalog} (same : c.definitions = other.definitions) :
    c.definition? = other.definition? := by
  unfold definition?
  rw [same]

theorem build_forest (built : build data = .ok c) : c.Forest := by
  obtain ⟨bare,listed,same,parents,cycles⟩ := build_parts built
  have lookup := definition?_congr same
  have up : c.terrainParent? = bare.terrainParent? := by
    unfold terrainParent?
    rw [lookup]
  refine ⟨?_,?_,?_⟩
  · rw [same,listed]
    exact insertAll_ascending .nil data.maps
  · rw [same]
    intro d member parent above
    have checked := parents d member
    simp only [undefinedParent?,above] at checked
    rw [lookup]
    cases found : bare.definition? parent with
    | none => simp [found] at checked
    | some _ => rfl
  · rw [same]
    intro d member
    rw [up]
    simpa [loops] using cycles d member

theorem definition?_id (found : c.definition? map = some d) : d.id = map := by
  simpa using List.find?_some found

theorem definition?_mem (found : c.definition? map = some d) : d ∈ c.definitions :=
  List.mem_of_find?_eq_some found

theorem definition?_iff (ascending : Ascending MapDefinition.order c.definitions) :
    c.definition? map = some d ↔ d ∈ c.definitions ∧ d.id = map := by
  unfold definition?
  rw [ascending.find?_iff fun one two first second => by simp_all [MapDefinition.order]]
  simp

theorem terrainParent?_iff : c.terrainParent? map = some parent ↔
    ∃ d, c.definition? map = some d ∧ d.terrainParent = some parent := by
  unfold terrainParent?
  rw [Option.bind_eq_some_iff]

namespace Forest
variable (forest : c.Forest)

include forest

theorem definition?_iff : c.definition? map = some d ↔ d ∈ c.definitions ∧ d.id = map :=
  Catalog.definition?_iff forest.ascending

theorem mem_childrenOf : map ∈ c.childrenOf parent ↔ c.terrainParent? map = some parent := by
  simp only [childrenOf,List.mem_map,List.mem_filter,beq_iff_eq,terrainParent?_iff,
    forest.definition?_iff]
  constructor
  · rintro ⟨d,⟨member,above⟩,same⟩
    exact ⟨d,⟨member,same⟩,above⟩
  · rintro ⟨d,⟨member,same⟩,above⟩
    exact ⟨d,⟨member,above⟩,same⟩

theorem childrenOf_ascending (map : MapId) : Ascending MapId.order (c.childrenOf map) := by
  unfold Ascending childrenOf
  rw [List.pairwise_map]
  exact forest.ascending.filter _

theorem childrenOf_nodup (map : MapId) : (c.childrenOf map).Nodup :=
  (forest.childrenOf_ascending map).nodup

theorem parent_defined (above : c.terrainParent? map = some parent) :
    (c.definition? map).isSome ∧ (c.definition? parent).isSome := by
  obtain ⟨d,found,up⟩ := terrainParent?_iff.mp above
  exact ⟨by rw [found]; rfl,forest.defined d (definition?_mem found) parent up⟩

theorem climb_none (defined : (c.definition? map).isSome) :
    climb c.terrainParent? c.definitions.length map = none := by
  obtain ⟨d,found⟩ := Option.isSome_iff_exists.mp defined
  have ends := forest.ends d (definition?_mem found)
  rwa [definition?_id found] at ends

theorem climb_bounded (defined : (c.definition? map).isSome)
    (reached : climb c.terrainParent? n map = some top) : n < c.definitions.length := by
  refine Nat.lt_of_not_le fun long => ?_
  have shorter := climb_shorter (by rw [reached]; rfl) long
  rw [forest.climb_none defined] at shorter
  cases shorter

theorem no_return : climb c.terrainParent? (n + 1) map ≠ some map := by
  intro returned
  have long := climb_cycle returned c.definitions.length
  have defined : (c.definition? map).isSome := by
    have first : (climb c.terrainParent? 1 map).isSome :=
      climb_shorter (by rw [returned]; rfl) (Nat.succ_le_succ (Nat.zero_le n))
    rw [climb_one] at first
    obtain ⟨parent,above⟩ := Option.isSome_iff_exists.mp first
    exact (forest.parent_defined above).1
  have bounded := forest.climb_bounded defined long
  have : c.definitions.length ≤ c.definitions.length * (n + 1) :=
    Nat.le_mul_of_pos_right _ (Nat.succ_pos n)
  omega

end Forest
end Catalog
end LiveMaps
