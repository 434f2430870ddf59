import LiveMaps.Proofs.Catalog.Forest
import Mathlib.Data.List.Nodup
import Mathlib.Data.List.Perm.Subperm
import Mathlib.Data.Nat.Find
import Mathlib.Logic.Relation

namespace LiveMaps

namespace Ancestry
variable {parentOf : MapId → Option MapId} {known : List MapId} {start top : MapId} {n : Nat}

-- The way up without any bound on its length. It may go round a cycle.
def Leads (parentOf : MapId → Option MapId) : MapId → MapId → Prop :=
  Relation.ReflTransGen (fun lower upper => parentOf lower = some upper)

theorem leads_iff_climb : Leads parentOf start top ↔ ∃ n, climb parentOf n start = some top := by
  constructor
  · intro leads
    induction leads with
    | refl => exact ⟨0,rfl⟩
    | tail _ parent ih =>
      obtain ⟨n,climbed⟩ := ih
      refine ⟨n + 1,?_⟩
      rw [climb_last,climbed]
      exact parent
  · rintro ⟨n,climbed⟩
    induction n generalizing top with
    | zero =>
      cases climbed
      exact .refl
    | succ n ih =>
      rw [climb_last] at climbed
      obtain ⟨middle,first,parent⟩ := Option.bind_eq_some_iff.mp climbed
      exact (ih first).tail parent

theorem mem_chain : top ∈ chain parentOf n start ↔ ∃ k ≤ n, climb parentOf k start = some top := by
  induction n generalizing start with
  | zero =>
    simp [chain,climb,eq_comm]
  | succ n ih =>
    have first : top ∈ chain parentOf (n + 1) start ↔
        top = start ∨ ∃ parent, parentOf start = some parent ∧ top ∈ chain parentOf n parent := by
      rw [chain]
      cases parentOf start with
      | none => simp
      | some parent => simp
    rw [first]
    constructor
    · rintro (rfl | ⟨parent,above,later⟩)
      · exact ⟨0,Nat.zero_le _,rfl⟩
      · obtain ⟨k,short,climbed⟩ := ih.mp later
        exact ⟨k + 1,Nat.succ_le_succ short,(climb_succ above).trans climbed⟩
    · rintro ⟨k,short,climbed⟩
      cases k with
      | zero =>
        cases climbed
        exact .inl rfl
      | succ k =>
        cases above : parentOf start with
        | none => simp [climb,above] at climbed
        | some parent =>
          rw [climb_succ above] at climbed
          exact .inr ⟨parent,rfl,ih.mpr ⟨k,Nat.le_of_succ_le_succ short,climbed⟩⟩

-- A shortest way up comes by no map twice, and each map it goes on from has a
-- parent; so it is no longer than there are maps with a parent.
theorem shortest_climb (listed : ∀ map parent, parentOf map = some parent → map ∈ known)
    (climbed : climb parentOf n start = some top)
    (shortest : ∀ k < n, climb parentOf k start ≠ some top) : n ≤ known.length := by
  have reached (k : Nat) (short : k ≤ n) : (climb parentOf k start).isSome :=
    climb_shorter (by rw [climbed]; rfl) short
  have apart : ∀ i j, i < j → j ≤ n → climb parentOf i start ≠ climb parentOf j start := by
    intro i j below short same
    obtain ⟨rest,rfl⟩ := Nat.le.dest short
    rw [climb_add,←same,←climb_add] at climbed
    exact shortest (i + rest) (by omega) climbed
  have distinct : ((List.range n).map (climb parentOf · start)).Nodup := by
    rw [List.nodup_map_iff_inj_on List.nodup_range]
    intro i inside j inside' same
    rw [List.mem_range] at inside inside'
    rcases Nat.lt_trichotomy i j with below | equal | above
    · exact absurd same (apart i j below (by omega))
    · exact equal
    · exact absurd same.symm (apart j i above (by omega))
  have within : (List.range n).map (climb parentOf · start) ⊆ known.map some := by
    intro place member
    obtain ⟨k,inside,rfl⟩ := List.mem_map.mp member
    rw [List.mem_range] at inside
    obtain ⟨map,here⟩ := Option.isSome_iff_exists.mp (reached k (by omega))
    have next := reached (k + 1) inside
    rw [climb_last,here] at next
    obtain ⟨parent,above⟩ := Option.isSome_iff_exists.mp next
    rw [here]
    exact List.mem_map_of_mem (listed map parent above)
  have counted := (List.subperm_of_subset distinct within).length_le
  simpa using counted

theorem mem_chain_iff_leads (listed : ∀ map parent, parentOf map = some parent → map ∈ known) :
    top ∈ chain parentOf known.length start ↔ Leads parentOf start top := by
  rw [mem_chain,leads_iff_climb]
  constructor
  · rintro ⟨k,_,climbed⟩
    exact ⟨k,climbed⟩
  · intro reached
    classical
    refine ⟨Nat.find reached,?_,Nat.find_spec reached⟩
    exact shortest_climb listed (Nat.find_spec reached) fun k below => Nat.find_min reached below

end Ancestry

namespace Difficulty

theorem fallback_rank {d lower : Difficulty} (next : d.fallback = some lower) : lower.rank < d.rank := by
  cases d <;> cases next <;> decide

theorem descent_eq (d : Difficulty) :
    d.descent = d :: (match d.fallback with | Option.none => [] | some lower => lower.descent) := by
  cases d <;> rfl

end Difficulty

namespace Catalog
open Ancestry
variable {c : Catalog} {map start top : MapId} {offered : List Difficulty} {d requested effective : Difficulty}

-- What becomes of a requested difficulty: it steps down until it is offered, and
-- where even the lowest step is not, the map's default takes its place.
inductive Downscaled (offered : List Difficulty) : Difficulty → Difficulty → Prop where
  | meets {asked} : asked ∈ offered → Downscaled offered asked asked
  | lower {asked next given} : asked ∉ offered → asked.fallback = some next →
      Downscaled offered next given → Downscaled offered asked given
  | default {asked first rest} : asked ∉ offered → asked.fallback = none → offered = first :: rest →
      Downscaled offered asked first

theorem downscaled_iff (d : Difficulty) : Downscaled offered d effective ↔
    (d.descent.find? offered.contains).or offered.head? = some effective := by
  rw [Difficulty.descent_eq]
  by_cases present : d ∈ offered
  · have found : offered.contains d = true := List.contains_iff_mem.mpr present
    rw [List.find?_cons_of_pos found,Option.some_or,Option.some.injEq]
    constructor
    · intro scaled
      cases scaled with
      | meets _ => rfl
      | lower absent _ _ => exact absurd present absent
      | default absent _ _ => exact absurd present absent
    · rintro rfl
      exact .meets present
  · have missed : ¬ offered.contains d = true := fun found => present (List.contains_iff_mem.mp found)
    rw [List.find?_cons_of_neg missed]
    cases next : d.fallback with
    | none =>
      rw [List.find?_nil,Option.none_or,List.head?_eq_some_iff]
      constructor
      · intro scaled
        cases scaled with
        | meets here => exact absurd here present
        | lower _ further _ => simp [next] at further
        | default _ _ first => exact ⟨_,first⟩
      · rintro ⟨rest,first⟩
        exact .default present next first
    | some further =>
      rw [←downscaled_iff further]
      constructor
      · intro scaled
        cases scaled with
        | meets here => exact absurd here present
        | lower _ step below =>
          rw [next] at step
          cases step
          exact below
        | default _ lowest _ => simp [next] at lowest
      · exact .lower present next
termination_by d.rank
decreasing_by exact Difficulty.fallback_rank next

theorem downscale_iff : c.downscale map requested = some effective ↔
    ∃ offered, c.offered? map = some offered ∧ Downscaled offered requested effective := by
  unfold downscale
  cases c.offered? map with
  | none => simp
  | some offered =>
    simp only [Option.some.injEq,exists_eq_left',downscaled_iff]
    cases requested.descent.find? offered.contains <;> simp

theorem downscale_none : c.downscale map requested = none ↔
    ∀ offered, c.offered? map = some offered → offered = [] := by
  unfold downscale
  cases c.offered? map with
  | none => simp
  | some offered =>
    simp only [Option.some.injEq,forall_eq']
    cases found : requested.descent.find? offered.contains with
    | none => simp
    | some d =>
      have member : d ∈ offered := by simpa using List.find?_some found
      simp [List.ne_nil_of_mem member]

theorem templateParent?_listed (c : Catalog) (map parent : MapId)
    (above : c.templateParent? map = some parent) : map ∈ c.templates.map InstanceTemplate.map := by
  obtain ⟨t,found,_⟩ := Option.bind_eq_some_iff.mp above
  have named : t.map = map := by simpa using List.find?_some found
  exact List.mem_map.mpr ⟨t,List.mem_of_find?_eq_some found,named⟩

def FirstOf {α : Type} (chosen : α → Prop) (entries : List α) (entry : α) : Prop :=
  ∃ before after, entries = before ++ entry :: after ∧ chosen entry ∧ ∀ other ∈ before, ¬ chosen other

theorem firstOf_iff {α : Type} {chosen : α → Prop} {test : α → Bool} (same : ∀ entry, test entry = true ↔ chosen entry)
    {entries : List α} {entry : α} : FirstOf chosen entries entry ↔ entries.find? test = some entry := by
  rw [List.find?_eq_some_iff_append,same]
  simp only [FirstOf,Bool.not_eq_eq_eq_not,Bool.not_true,Bool.eq_false_iff,ne_eq,same]
  constructor
  · rintro ⟨before,after,split,here,skipped⟩
    exact ⟨here,before,after,split,skipped⟩
  · rintro ⟨here,before,after,split,skipped⟩
    exact ⟨before,after,split,here,skipped⟩

def Requires (c : Catalog) (map : MapId) (level : Difficulty) : AccessRequirement → Prop :=
  FirstOf (fun r => r.map = map ∧ r.difficulty = level) c.requirements

theorem requires_iff {level : Difficulty} {r : AccessRequirement} :
    c.Requires map level r ↔ c.requirement? map level = some r := firstOf_iff fun _ => by simp

def Encloses (c : Catalog) (inner outer : MapId) : Prop :=
  ∃ t, FirstOf (fun t => t.map = inner) c.templates t ∧ t.parent = some outer

def Inside (c : Catalog) : MapId → MapId → Prop := Relation.ReflTransGen c.Encloses

theorem inside_iff : c.Inside start top ↔ Leads c.templateParent? start top := by
  have same : c.Encloses = fun inner outer => c.templateParent? inner = some outer := by
    funext inner outer
    simp only [Encloses,firstOf_iff fun _ => beq_iff_eq,templateParent?,template?,Option.bind_eq_some_iff]
  rw [Inside,same]
  rfl

theorem mem_enclosing : top ∈ chain c.templateParent? c.templates.length start ↔
    c.Inside start top := by
  rw [inside_iff]
  have bound : c.templates.length = (c.templates.map InstanceTemplate.map).length := (List.length_map _).symm
  rw [bound]
  exact mem_chain_iff_leads c.templateParent?_listed

end Catalog
end LiveMaps
