import LiveMaps.Proofs.Catalog.Walks

namespace LiveMaps.Ancestry

structure Search where
  visited : List MapId
  current : Option MapId
  deriving DecidableEq, Repr

-- It goes on from a map that is neither its target nor one it has gone on from
-- before. Without a target it goes on until it comes round or is past the end.
def Search.step? (parentOf : MapId → Option MapId) (target : Option MapId) (s : Search) : Option Search :=
  match s.current with
  | none => none
  | some map => if target = some map ∨ map ∈ s.visited then none else some ⟨map :: s.visited,parentOf map⟩

-- Where a search is after so many steps. Nothing here bounds their number.
inductive Searched (parentOf : MapId → Option MapId) (target : Option MapId) (start : MapId) :
    Nat → Search → Prop where
  | start : Searched parentOf target start 0 ⟨[],some start⟩
  | step {n s next} : Searched parentOf target start n s → s.step? parentOf target = some next →
      Searched parentOf target start (n + 1) next

def Rested (parentOf : MapId → Option MapId) (target : Option MapId) (start : MapId) (n : Nat)
    (s : Search) : Prop :=
  Searched parentOf target start n s ∧ s.step? parentOf target = none

def RunsIntoCycle (upward : MapId → MapId → Prop) (start : MapId) : Prop :=
  ∃ map, Relation.ReflTransGen upward start map ∧ Relation.TransGen upward map map

variable {parentOf : MapId → Option MapId} {target : Option MapId} {start map top : MapId}
  {known : List MapId} {s next other : Search} {m n k : Nat}

theorem step?_parts (moved : s.step? parentOf target = some next) : ∃ map, s.current = some map ∧
    target ≠ some map ∧ map ∉ s.visited ∧ next = ⟨map :: s.visited,parentOf map⟩ := by
  unfold Search.step? at moved
  split at moved
  · cases moved
  · rename_i map stands
    split at moved
    · cases moved
    · rename_i free
      rw [not_or] at free
      cases moved
      exact ⟨map,stands,free.1,free.2,rfl⟩

theorem rests_cases (rests : s.step? parentOf target = none) : s.current = none ∨
    ∃ map, s.current = some map ∧ (target = some map ∨ map ∈ s.visited) := by
  unfold Search.step? at rests
  split at rests
  · rename_i past
    exact .inl past
  · rename_i map stands
    split at rests
    · rename_i stopped
      exact .inr ⟨map,stands,stopped⟩
    · cases rests

-- What a search knows of its way: it stands where the climb of as many steps ends,
-- and has in mind each map below, once.
structure Trail (parentOf : MapId → Option MapId) (target : Option MapId) (start : MapId) (n : Nat)
    (s : Search) : Prop where
  current : s.current = climb parentOf n start
  visited : ∀ map, map ∈ s.visited ↔ ∃ k < n, climb parentOf k start = some map
  length : s.visited.length = n
  distinct : s.visited.Nodup
  missed : ∀ map ∈ s.visited, target ≠ some map

theorem start_trail : Trail parentOf target start 0 ⟨[],some start⟩ where
  current := rfl
  visited := by simp
  length := rfl
  distinct := .nil
  missed := by simp

theorem Trail.step (trail : Trail parentOf target start n s) (moved : s.step? parentOf target = some next) :
    Trail parentOf target start (n + 1) next := by
  obtain ⟨map,stands,apart,fresh,rfl⟩ := step?_parts moved
  have here : climb parentOf n start = some map := trail.current.symm.trans stands
  refine ⟨?_,fun other => ?_,congrArg Nat.succ trail.length,List.nodup_cons.mpr ⟨fresh,trail.distinct⟩,?_⟩
  · rw [climb_last,here]
    rfl
  · rw [List.mem_cons,trail.visited]
    constructor
    · rintro (rfl | ⟨k,below,reached⟩)
      · exact ⟨n,Nat.lt_succ_self n,here⟩
      · exact ⟨k,Nat.lt_succ_of_lt below,reached⟩
    · rintro ⟨k,below,reached⟩
      rcases Nat.lt_succ_iff_lt_or_eq.mp below with earlier | rfl
      · exact .inr ⟨k,earlier,reached⟩
      · exact .inl (Option.some.inj (reached.symm.trans here))
  · intro other member
    rcases List.mem_cons.mp member with rfl | earlier
    · exact apart
    · exact trail.missed other earlier

theorem Searched.trail (search : Searched parentOf target start n s) : Trail parentOf target start n s := by
  induction search with
  | start => exact start_trail
  | step _ moved ih => exact ih.step moved

theorem Searched.unique (one : Searched parentOf target start n s)
    (two : Searched parentOf target start n other) : s = other := by
  induction one generalizing other with
  | start =>
    cases two
    rfl
  | step _ moved ih =>
    cases two with
    | step earlier moved' =>
      rw [ih earlier,moved'] at moved
      exact (Option.some.inj moved).symm

-- Each map it has gone on from has a parent, but for the last one, which may be the
-- end of the chain.
theorem Searched.bounded (listed : ∀ map parent, parentOf map = some parent → map ∈ known)
    (search : Searched parentOf target start n s) : n ≤ known.length + 1 := by
  cases search with
  | start => exact Nat.zero_le _
  | @step n before _ earlier moved =>
    obtain ⟨map,stands,_,_,_⟩ := step?_parts moved
    have trail := earlier.trail
    have within : before.visited ⊆ known := by
      intro below member
      obtain ⟨k,short,reached⟩ := (trail.visited below).mp member
      have further : (climb parentOf (k + 1) start).isSome :=
        climb_shorter (by rw [←trail.current,stands]; rfl) short
      rw [climb_last,reached] at further
      obtain ⟨parent,above⟩ := Option.isSome_iff_exists.mp further
      exact listed below parent above
    have counted := (List.subperm_of_subset trail.distinct within).length_le
    rw [trail.length] at counted
    exact Nat.succ_le_succ counted

theorem search_rests (listed : ∀ map parent, parentOf map = some parent → map ∈ known)
    (target : Option MapId) (start : MapId) : ∃ n s, Rested parentOf target start n s := by
  by_contra restless
  have onward (n : Nat) : ∃ s, Searched parentOf target start n s := by
    induction n with
    | zero => exact ⟨_,.start⟩
    | succ n ih =>
      obtain ⟨s,search⟩ := ih
      cases moved : s.step? parentOf target with
      | none => exact absurd ⟨n,s,search,moved⟩ restless
      | some next => exact ⟨next,search.step moved⟩
  obtain ⟨s,search⟩ := onward (known.length + 2)
  have := search.bounded listed
  omega

theorem Rested.longest (rested : Rested parentOf target start n s)
    (search : Searched parentOf target start m other) : m ≤ n := by
  induction search with
  | start => exact Nat.zero_le n
  | step earlier moved ih =>
    refine Nat.lt_of_le_of_ne ih ?_
    rintro rfl
    rw [earlier.unique rested.1,rested.2] at moved
    cases moved

theorem search_ends (listed : ∀ map parent, parentOf map = some parent → map ∈ known)
    (target : Option MapId) (start : MapId) : ∃ n ≤ known.length + 1, ∃ s,
      Rested parentOf target start n s ∧ ∀ m other, Searched parentOf target start m other → m ≤ n := by
  obtain ⟨n,s,rested⟩ := search_rests listed target start
  exact ⟨n,rested.1.bounded listed,s,rested,fun _ _ search => rested.longest search⟩

theorem climb_round (before : m < n) (round : climb parentOf m start = climb parentOf n start)
    (reached : climb parentOf k start = some top) : ∃ j < n, climb parentOf j start = some top := by
  induction k using Nat.strong_induction_on with
  | _ k ih =>
    rcases Nat.lt_or_ge k n with short | long
    · exact ⟨k,short,reached⟩
    · obtain ⟨rest,rfl⟩ := Nat.le.dest long
      rw [climb_add,←round,←climb_add] at reached
      exact ih (m + rest) (by omega) reached

theorem Rested.found_iff (rested : Rested parentOf (some top) start n s) :
    s.current = some top ↔ Leads parentOf start top := by
  obtain ⟨search,rests⟩ := rested
  have trail := search.trail
  constructor
  · intro found
    exact leads_iff_climb.mpr ⟨n,trail.current.symm.trans found⟩
  · intro leads
    obtain ⟨k,reached⟩ := leads_iff_climb.mp leads
    have unmet : ¬ ∃ j < n, climb parentOf j start = some top := fun met =>
      trail.missed top ((trail.visited top).mpr met) rfl
    rcases rests_cases rests with past | ⟨map,stands,found | visited⟩
    · -- the chain is shorter than the way to the target
      refine absurd ⟨k,Nat.lt_of_not_le fun long => ?_,reached⟩ unmet
      have further := climb_shorter (by rw [reached]; rfl) long
      rw [←trail.current,past] at further
      cases further
    · exact stands.trans found.symm
    · obtain ⟨j,below,earlier⟩ := (trail.visited map).mp visited
      have round := earlier.trans (stands.symm.trans trail.current)
      exact absurd (climb_round below round reached) unmet

theorem returns_iff_climb : Relation.TransGen (fun lower upper => parentOf lower = some upper) map top ↔
    ∃ n, climb parentOf (n + 1) map = some top := by
  rw [Relation.TransGen.head'_iff]
  constructor
  · rintro ⟨parent,above,leads⟩
    obtain ⟨n,reached⟩ := leads_iff_climb.mp leads
    exact ⟨n,(climb_succ above).trans reached⟩
  · rintro ⟨n,reached⟩
    cases above : parentOf map with
    | none => simp [climb,above] at reached
    | some parent =>
      rw [climb_succ above] at reached
      exact ⟨parent,rfl,leads_iff_climb.mpr ⟨n,reached⟩⟩

theorem climb_endless (cyclic : RunsIntoCycle (fun lower upper => parentOf lower = some upper) start)
    (n : Nat) : (climb parentOf n start).isSome := by
  obtain ⟨map,leads,back⟩ := cyclic
  obtain ⟨k,reached⟩ := leads_iff_climb.mp leads
  obtain ⟨around,returned⟩ := returns_iff_climb.mp back
  have long := climb_trans reached (climb_cycle returned n)
  refine climb_shorter (by rw [long]; rfl) ?_
  have : n ≤ n * (around + 1) := Nat.le_mul_of_pos_right n (Nat.succ_pos around)
  omega

theorem Rested.cyclic_iff (rested : Rested parentOf none start n s) : s.current.isSome ↔
    RunsIntoCycle (fun lower upper => parentOf lower = some upper) start := by
  obtain ⟨search,rests⟩ := rested
  have trail := search.trail
  constructor
  · intro onIt
    rcases rests_cases rests with past | ⟨map,stands,found | visited⟩
    · rw [past] at onIt
      cases onIt
    · cases found
    · obtain ⟨j,below,earlier⟩ := (trail.visited map).mp visited
      obtain ⟨rest,rfl⟩ := Nat.exists_eq_add_of_lt below
      have around : climb parentOf (rest + 1) map = some map := by
        have climbed := trail.current.symm.trans stands
        rw [Nat.add_assoc,climb_add,earlier] at climbed
        exact climbed
      exact ⟨map,leads_iff_climb.mpr ⟨j,earlier⟩,returns_iff_climb.mpr ⟨rest,around⟩⟩
  · intro cyclic
    rw [trail.current]
    exact climb_endless cyclic n

-- Where every map on the way is known, a climb of as many steps as there are known
-- maps tells how the search without a target ends.
theorem Rested.climb_iff (rested : Rested parentOf none start n s)
    (within : ∀ k map, climb parentOf k start = some map → map ∈ known) :
    (climb parentOf known.length start).isSome ↔ s.current.isSome := by
  constructor
  · intro long
    have trail := rested.1.trail
    have counted : n ≤ known.length := by
      rw [←trail.length]
      refine (List.subperm_of_subset trail.distinct fun map member => ?_).length_le
      obtain ⟨k,_,reached⟩ := (trail.visited map).mp member
      exact within k map reached
    rw [trail.current]
    exact climb_shorter long counted
  · intro onIt
    exact climb_endless (rested.cyclic_iff.mp onIt) known.length

end LiveMaps.Ancestry
