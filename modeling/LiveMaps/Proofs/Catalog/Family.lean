import LiveMaps.Proofs.Catalog.Forest
import LiveMaps.World.Create
import Mathlib.Data.List.Nodup

namespace LiveMaps.Catalog
open Ancestry Ordered
inductive RootOf (c : Catalog) : MapId → MapId → Prop where
  | root {map d} : c.definition? map = some d → d.terrainParent = none → RootOf c map map
  | up {map d parent root} : c.definition? map = some d → d.terrainParent = some parent →
      RootOf c parent root → RootOf c map root

variable {c : Catalog} {d : MapDefinition} {map parent root other : MapId} {n : Nat}

def SameFamily (c : Catalog) (one two : MapId) : Prop := ∃ root, c.RootOf one root ∧ c.RootOf two root

theorem RootOf.unique (first : c.RootOf map root) (second : c.RootOf map other) : root = other := by
  induction first with
  | root found top =>
    cases second with
    | root => rfl
    | up found' above => simp_all
  | up found above _ ih =>
    cases second with
    | root found' top => simp_all
    | up found' above' rest =>
      rw [found] at found'
      cases found'
      rw [above] at above'
      cases above'
      exact ih rest

theorem RootOf.defined (path : c.RootOf map root) : (c.definition? map).isSome := by
  cases path with
  | root found => rw [found]; rfl
  | up found => rw [found]; rfl

theorem RootOf.top (path : c.RootOf map root) : c.RootOf root root := by
  induction path with
  | root found top => exact .root found top
  | up _ _ _ ih => exact ih

theorem RootOf.of_parent (above : c.terrainParent? map = some parent) (path : c.RootOf parent root) :
    c.RootOf map root := by
  obtain ⟨d,found,up⟩ := terrainParent?_iff.mp above
  exact .up found up path

theorem RootOf.reached (path : c.RootOf map root) : ∃ n, climb c.terrainParent? n map = some root := by
  induction path with
  | root => exact ⟨0,rfl⟩
  | up found above _ ih =>
    obtain ⟨n,reached⟩ := ih
    exact ⟨n + 1,(climb_succ (terrainParent?_iff.mpr ⟨_,found,above⟩)).trans reached⟩

theorem RootOf.of_climb (top : c.RootOf root root) (reached : climb c.terrainParent? n map = some root) :
    c.RootOf map root := by
  induction n generalizing map with
  | zero =>
    cases reached
    exact top
  | succ n ih =>
    simp only [climb] at reached
    split at reached
    · cases reached
    · rename_i above
      exact .of_parent above (ih reached)

theorem SameFamily.symm (same : c.SameFamily map other) : c.SameFamily other map :=
  same.imp fun _ both => both.symm

namespace Forest
variable (forest : c.Forest)

include forest

-- A climb of `n` steps that fails has passed a root on its way.
theorem rootOf_of_climb_none (defined : (c.definition? map).isSome)
    (ended : climb c.terrainParent? n map = none) : ∃ root, c.RootOf map root := by
  induction n generalizing map with
  | zero => cases ended
  | succ n ih =>
    obtain ⟨d,found⟩ := Option.isSome_iff_exists.mp defined
    cases above : d.terrainParent with
    | none => exact ⟨map,.root found above⟩
    | some parent =>
      have up : c.terrainParent? map = some parent := terrainParent?_iff.mpr ⟨d,found,above⟩
      rw [climb_succ up] at ended
      obtain ⟨root,path⟩ := ih (forest.parent_defined up).2 ended
      exact ⟨root,.of_parent up path⟩

theorem rootOf_exists (defined : (c.definition? map).isSome) : ∃ root, c.RootOf map root :=
  forest.rootOf_of_climb_none defined (forest.climb_none defined)

theorem mem_familyWithin :
    map ∈ c.familyWithin n root ↔ ∃ steps ≤ n, climb c.terrainParent? steps map = some root := by
  induction n generalizing root with
  | zero =>
    simp only [familyWithin,List.mem_singleton,Nat.le_zero,exists_eq_left,climb,Option.some.injEq]
  | succ n ih =>
    simp only [familyWithin,List.mem_cons,List.mem_flatMap,ih,forest.mem_childrenOf]
    constructor
    · rintro (rfl | ⟨child,above,steps,short,reached⟩)
      · exact ⟨0,Nat.zero_le _,rfl⟩
      · refine ⟨steps + 1,Nat.succ_le_succ short,?_⟩
        rw [climb_last,reached]
        exact above
    · rintro ⟨steps,short,reached⟩
      cases steps with
      | zero => exact .inl (Option.some.inj reached)
      | succ steps =>
        rw [climb_last,Option.bind_eq_some_iff] at reached
        obtain ⟨child,below,above⟩ := reached
        exact .inr ⟨child,above,steps,Nat.le_of_succ_le_succ short,below⟩

theorem mem_family (top : c.RootOf root root) : map ∈ c.family root ↔ c.RootOf map root := by
  unfold family
  rw [forest.mem_familyWithin]
  constructor
  · rintro ⟨_,_,reached⟩
    exact .of_climb top reached
  · intro path
    obtain ⟨steps,reached⟩ := path.reached
    exact ⟨steps,Nat.le_of_lt (forest.climb_bounded path.defined reached),reached⟩

-- Below two children of one map there is no map in common: the longer of its two
-- ways up would lead from one child through the other back to the parent.
theorem children_apart (one : c.terrainParent? map = some parent)
    (two : c.terrainParent? other = some parent) {below : MapId} {m : Nat}
    (first : climb c.terrainParent? m below = some map)
    (second : climb c.terrainParent? n below = some other) (shorter : m ≤ n) : map = other := by
  obtain ⟨rest,rfl⟩ := Nat.le.dest shorter
  rw [climb_add,first] at second
  cases rest with
  | zero => exact Option.some.inj second
  | succ rest =>
    change climb c.terrainParent? (rest + 1) map = some other at second
    rw [climb_succ one] at second
    exact absurd (climb_trans second (climb_one.trans two)) forest.no_return

theorem familyWithin_nodup (n : Nat) (root : MapId) : (c.familyWithin n root).Nodup := by
  induction n generalizing root with
  | zero => exact List.nodup_singleton root
  | succ n ih =>
    simp only [familyWithin]
    refine List.nodup_cons.mpr ⟨?_,List.nodup_flatMap.mpr ⟨fun child _ => ih child,?_⟩⟩
    · rw [List.mem_flatMap]
      rintro ⟨child,member,below⟩
      obtain ⟨steps,_,reached⟩ := forest.mem_familyWithin.mp below
      have returned : climb c.terrainParent? (steps + 1) root = some root := by
        rw [climb_last,reached]
        exact forest.mem_childrenOf.mp member
      exact forest.no_return returned
    · refine (forest.childrenOf_nodup root).imp_of_mem ?_
      intro one two first second apart
      refine List.disjoint_left.mpr fun below under under' => ?_
      obtain ⟨m,_,reached⟩ := forest.mem_familyWithin.mp under
      obtain ⟨n,_,reached'⟩ := forest.mem_familyWithin.mp under'
      rw [forest.mem_childrenOf] at first second
      rcases Nat.le_total m n with shorter | shorter
      · exact apart (forest.children_apart first second reached reached' shorter)
      · exact apart (forest.children_apart second first reached' reached shorter).symm

theorem family_nodup (root : MapId) : (c.family root).Nodup := forest.familyWithin_nodup _ root

theorem climb_within (reached : climb c.terrainParent? n map = some root) : n ≤ c.definitions.length := by
  cases n with
  | zero => exact Nat.zero_le _
  | succ n =>
    have first : (climb c.terrainParent? 1 map).isSome :=
      climb_shorter (by rw [reached]; rfl) (Nat.succ_le_succ (Nat.zero_le n))
    rw [climb_one] at first
    obtain ⟨parent,above⟩ := Option.isSome_iff_exists.mp first
    exact Nat.le_of_lt (forest.climb_bounded (forest.parent_defined above).1 reached)

theorem childless_of_shallow
    (shallow : ∀ steps below, climb c.terrainParent? steps below = some map → steps ≤ 0) :
    c.childrenOf map = [] := by
  refine List.eq_nil_iff_forall_not_mem.mpr fun child member => ?_
  have up := forest.mem_childrenOf.mp member
  exact absurd (shallow 1 child (climb_one.trans up)) (by omega)

omit forest in
theorem shallow_child (above : c.terrainParent? other = some map)
    (shallow : ∀ steps below, climb c.terrainParent? steps below = some map → steps ≤ n + 1)
    (steps : Nat) (below : MapId) (reached : climb c.terrainParent? steps below = some other) :
    steps ≤ n := by
  refine Nat.le_of_succ_le_succ (shallow (steps + 1) below ?_)
  rw [climb_last,reached]
  exact above

theorem familyWithin_deeper (more : Nat)
    (shallow : ∀ steps below, climb c.terrainParent? steps below = some map → steps ≤ n) :
    c.familyWithin (n + more) map = c.familyWithin n map := by
  induction n generalizing map with
  | zero =>
    cases more with
    | zero => rfl
    | succ more => simp [familyWithin,forest.childless_of_shallow shallow]
  | succ n ih =>
    rw [Nat.add_right_comm]
    simp only [familyWithin]
    congr 1
    refine List.flatMap_congr fun child member => ih ?_
    exact shallow_child (forest.mem_childrenOf.mp member) shallow

end Forest
end LiveMaps.Catalog
