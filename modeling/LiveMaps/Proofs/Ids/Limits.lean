import LiveMaps.Proofs.Ids.Handouts
import Mathlib.Data.Finset.Basic

namespace LiveMaps

theorem InstanceId.number_lt {id : InstanceId} {limit : UInt32} : id.number < limit ↔ id.order < limit.toNat :=
  UInt32.lt_iff_toNat_lt

namespace IdCall

def Below (limit : UInt32) : IdCall → Prop
  | .reserve id | .claim id | .release id => id.number < limit
  | .allocate => True

instance Below.decidable (limit : UInt32) (call : IdCall) : Decidable (call.Below limit) :=
  match call with
  | .reserve id => inferInstanceAs (Decidable (id.number < limit))
  | .claim id => inferInstanceAs (Decidable (id.number < limit))
  | .release id => inferInstanceAs (Decidable (id.number < limit))
  | .allocate => inferInstanceAs (Decidable True)

def countdown : Nat → List IdCall
  | 0 => []
  | n+1 => .reserve (.ofNat (n + 1)) :: countdown n

theorem mem_countdown {n : Nat} {call : IdCall} (member : call ∈ countdown n) :
    ∃ slot, 0 < slot ∧ slot ≤ n ∧ call = .reserve (.ofNat slot) := by
  induction n with
  | zero => cases member
  | succ n ih =>
    rcases List.mem_cons.mp member with rfl | lower
    · exact ⟨n + 1,by omega,Nat.le_refl _,rfl⟩
    · obtain ⟨slot,positive,near,same⟩ := ih lower
      exact ⟨slot,positive,by omega,same⟩

end IdCall

namespace IdTable
variable {t after : IdTable} {id : InstanceId} {calls : List IdCall} {limit : UInt32} {n : Nat}

def UsedUp (t : IdTable) : Prop := ∀ slot < t.limit, 0 < slot → slot ∈ t.space.used

instance UsedUp.decidable (t : IdTable) : Decidable t.UsedUp :=
  inferInstanceAs (Decidable (∀ slot < t.limit, 0 < slot → slot ∈ t.space.used))

-- What holds until an identifier at the limit or beyond it is handed out.
structure Within (t : IdTable) (limit : UInt32) : Prop where
  valid : t.Valid
  bound : t.limit = limit.toNat
  positive : 0 < t.next
  below : ∀ slot ∈ t.space.used, slot < limit.toNat

theorem limited_within (limit : UInt32) {highest : Nat} (small : highest < word) :
    (limited limit.toNat highest).Within limit where
  valid := limited_valid limit.toNat small
  bound := rfl
  positive := Nat.one_pos
  below := by simp [limited_space,IdSpace.ofHighest]

theorem Within.unused (within : t.Within limit) (past : limit.toNat ≤ n) : n ∉ t.space.used :=
  fun used => Nat.not_lt_of_le past (within.below n used)

theorem Within.next_le (within : t.Within limit) : t.next ≤ max limit.toNat 1 :=
  within.valid.next_le (by omega) (within.unused (by omega))

theorem Within.unspent (within : t.Within limit) : ¬ t.Spent := fun spent => by
  have width := limit.toNat_lt
  have long := spent.1
  exact within.unused (Nat.le_max_left limit.toNat 1)
    (mem_used.mpr ⟨by unfold word at long; omega,by omega,spent.2 _ (by unfold word; omega)⟩)

theorem Within.allocate_below (within : t.Within limit) (left : ¬ t.UsedUp) :
    ∃ id after, t.allocate = .ok (id,after) ∧ id.number < limit ∧
      IsLeast {n | 0 < n ∧ n ∉ t.space.used} id.order ∧ 0 < after.next ∧ after.next ≤ limit.toNat := by
  obtain ⟨other,small,positive,unused⟩ : ∃ slot < t.limit, 0 < slot ∧ slot ∉ t.space.used := by
    simpa only [UsedUp,not_forall,exists_prop] using left
  have cursor := within.valid.next_le positive unused
  have bound := within.bound
  have width := limit.toNat_lt
  obtain ⟨slot,spare,after,done,parts⟩ := allocate_parts within.valid (by omega) within.unspent
  have least := IdSpace.firstUnused_isLeast t.space.used 1
  have next := (IdSpace.firstUnused_isLeast t.space.used (slot + 1)).2
  rw [parts.first] at least
  rw [parts.next] at next
  have near : slot ≤ other := least.2 ⟨positive,unused⟩
  have number : (InstanceId.ofNat slot).order = slot := InstanceId.order_ofNat parts.small
  have far : spare ≤ limit.toNat := next ⟨by omega,within.unused (Nat.le_refl _)⟩
  have whole : after.next = spare := parts.cursor.trans (Nat.mod_eq_of_lt (by unfold word; omega))
  have beyond := parts.beyond
  refine ⟨.ofNat slot,after,done,?_,?_,by omega,by omega⟩
  · rw [InstanceId.number_lt,number]
    omega
  · rwa [number]

-- Where none is left and the cursor does not stand on the limit, an identifier past all of them is handed
-- out, and the cursor goes on from there.
theorem Within.allocate_beyond (within : t.Within limit) (up : t.UsedUp) (astray : t.next ≠ limit.toNat) :
    ∃ spare after, t.allocate = .ok (.ofNat (max limit.toNat 1),after) ∧
      Allocated t (max limit.toNat 1) spare after ∧ spare = max limit.toNat 1 + 1 := by
  have bound := within.bound
  obtain ⟨slot,spare,after,done,parts⟩ := allocate_parts within.valid (by omega) within.unspent
  have first : slot = max limit.toNat 1 := by
    rw [←parts.first]
    refine IdSpace.firstUnused_eq (by omega) (within.unused (by omega)) fun other positive below => ?_
    exact up other (by omega) positive
  subst first
  refine ⟨spare,after,done,parts,?_⟩
  rw [←parts.next]
  refine IdSpace.firstUnused_eq (Nat.le_refl _) (within.unused (by omega)) fun other past below => ?_
  omega

theorem call_given {call : IdCall} (fresh : (t.call call).2 = .ok (some id)) :
    call = .allocate ∧ ∃ after, t.allocate = .ok (id,after) := by
  have allocation : call = .allocate := by
    by_contra elsewhere
    exact (call_silent elsewhere).1 id fresh
  subst allocation
  simp only [IdTable.call] at fresh
  cases done : t.allocate with
  | error e =>
    rw [done] at fresh
    cases fresh
  | ok found =>
    rw [done] at fresh
    cases fresh
    exact ⟨rfl,found.2,rfl⟩

theorem mem_given_cons {call : IdCall} :
    id ∈ IdCall.given (IdCall.run IdTable.call t (call :: calls)).2 ↔
      (t.call call).2 = .ok (some id) ∨ id ∈ IdCall.given (IdCall.run IdTable.call (t.call call).1 calls).2 := by
  simp only [IdCall.run,IdCall.mem_given,List.mem_cons,eq_comm]

-- An identifier at the limit or beyond it is handed out only where none is left and the cursor does
-- not stand on the limit.
theorem Within.call_beyond {call : IdCall} (within : t.Within limit) (fresh : (t.call call).2 = .ok (some id))
    (beyond : limit ≤ id.number) : call = .allocate ∧ t.UsedUp ∧ t.next ≠ limit.toNat := by
  obtain ⟨rfl,after,done⟩ := call_given fresh
  refine ⟨rfl,?_,fun full => allocate_room done (full.trans within.bound.symm)⟩
  by_contra left
  obtain ⟨other,_,chosen,small,_⟩ := within.allocate_below left
  rw [done] at chosen
  cases chosen
  exact absurd small (UInt32.not_lt.mpr beyond)

theorem Within.beyond_call (within : t.Within limit) (up : t.UsedUp) (astray : t.next ≠ limit.toNat) :
    ∃ id, (t.call .allocate).2 = .ok (some id) ∧ limit ≤ id.number := by
  obtain ⟨_,_,done,parts,_⟩ := within.allocate_beyond up astray
  refine ⟨.ofNat (max limit.toNat 1),by simp only [IdTable.call,done],?_⟩
  rw [←UInt32.not_lt,InstanceId.number_lt,InstanceId.order_ofNat parts.small]
  omega

theorem release_shrinks (t : IdTable) (id : InstanceId) : (t.call (.release id)).1.space.used ⊆ t.space.used := by
  simp only [IdTable.call]
  cases done : t.release id with
  | error e => exact Finset.Subset.refl _
  | ok after =>
    simp only [answer,release_space done]
    exact Finset.erase_subset _ _

theorem Within.took (within : t.Within limit) (small : id.order < limit.toNat)
    (cursor : after.next = if t.next = id.order then (t.next + 1) % word else t.next) : 0 < after.next := by
  have width := limit.toNat_lt
  have positive := within.positive
  rw [cursor]
  split
  · rw [Nat.mod_eq_of_lt (by unfold word; omega)]
    omega
  · exact positive

theorem Within.call_positive {call : IdCall} (within : t.Within limit) (below : call.Below limit)
    (kept : ∀ id, (t.call call).2 = .ok (some id) → id.number < limit) : 0 < (t.call call).1.next := by
  have positive := within.positive
  cases call with
  | reserve id =>
    simp only [IdTable.call]
    cases done : t.reserve id with
    | error e => exact positive
    | ok after =>
      obtain ⟨_,_,_,_,_,cursor,_⟩ := reserve_parts done
      exact within.took (InstanceId.number_lt.mp below) cursor
  | claim id =>
    simp only [IdTable.call]
    cases done : t.claim id with
    | error e => exact positive
    | ok after =>
      obtain ⟨_,_,_,_,_,cursor,_⟩ := claim_parts done
      exact within.took (InstanceId.number_lt.mp below) cursor
  | release id =>
    simp only [IdTable.call]
    cases done : t.release id with
    | error e => exact positive
    | ok after =>
      obtain ⟨proper,_,_,_,_,cursor,_⟩ := release_parts done
      have above := InstanceId.order_pos.mpr proper
      simp only [answer]
      omega
  | allocate =>
    simp only [IdTable.call] at kept ⊢
    cases done : t.allocate with
    | error e => exact positive
    | ok fresh =>
      obtain ⟨id,after⟩ := fresh
      rw [done] at kept
      have small := kept id rfl
      by_cases up : t.UsedUp
      · have room := allocate_room done
        obtain ⟨_,_,beyond,parts,_⟩ := within.allocate_beyond up (within.bound ▸ room)
        rw [done] at beyond
        cases beyond
        rw [InstanceId.number_lt,InstanceId.order_ofNat parts.small] at small
        omega
      · obtain ⟨_,_,chosen,_,_,first,_⟩ := within.allocate_below up
        rw [done] at chosen
        cases chosen
        exact first

theorem Within.call {call : IdCall} (within : t.Within limit) (below : call.Below limit)
    (kept : ∀ id, (t.call call).2 = .ok (some id) → id.number < limit) : (t.call call).1.Within limit := by
  refine ⟨call_valid within.valid call,(call_frame within.valid call).1.trans within.bound,
    within.call_positive below kept,?_⟩
  intro slot used
  cases call with
  | reserve named =>
    rcases reserve_used used with rfl | old
    · exact InstanceId.number_lt.mp below
    · exact within.below slot old
  | claim named =>
    rcases claim_used within.valid used with rfl | old
    · exact InstanceId.number_lt.mp below
    · exact within.below slot old
  | release named => exact within.below slot (release_shrinks t named used)
  | allocate =>
    simp only [IdTable.call] at used kept
    cases done : t.allocate with
    | error e =>
      rw [done] at used
      exact within.below slot used
    | ok fresh =>
      obtain ⟨id,after⟩ := fresh
      rw [done] at used kept
      rcases allocate_cases within.valid done with ⟨_,_,more,_⟩ | ⟨_,_,_,same,_⟩
      · rw [more] at used
        rcases Finset.mem_insert.mp used with rfl | old
        · exact InstanceId.number_lt.mp (kept _ rfl)
        · exact within.below slot old
      · rw [same] at used
        exact within.below slot used

theorem Within.perform? {call : IdCall} (within : t.Within limit) (below : call.Below limit) :
    t.perform? call = some (t.call call) := by
  have width := limit.toNat_lt
  cases call with
  | reserve id =>
    have small := InstanceId.number_lt.mp below
    exact reserveInPlace?_eq t id fun here => by unfold word; omega
  | claim id =>
    have small := InstanceId.number_lt.mp below
    exact claimInPlace?_eq t id fun here => by unfold word; omega
  | release id => exact releaseInPlace?_eq t id
  | allocate => exact allocateInPlace?_eq within.valid

theorem Within.run (within : t.Within limit) (below : ∀ call ∈ calls, call.Below limit)
    (kept : ∀ id ∈ IdCall.given (IdCall.run IdTable.call t calls).2, id.number < limit) :
    (IdCall.run IdTable.call t calls).1.Within limit := by
  induction calls generalizing t with
  | nil => exact within
  | cons call rest ih =>
    refine ih (within.call (below call List.mem_cons_self) fun id fresh => ?_)
      (fun call member => below call (List.mem_cons_of_mem _ member)) fun id member => ?_
    · exact kept id (mem_given_cons.mpr (.inl fresh))
    · exact kept id (mem_given_cons.mpr (.inr member))

-- A run gets past the limit exactly if some allocation of it finds no identifier left below the limit
-- and the cursor elsewhere than on it. By induction on the calls up to that allocation.
theorem Within.run_beyond (within : t.Within limit) (below : ∀ call ∈ calls, call.Below limit) :
    (∃ id ∈ IdCall.given (IdCall.run IdTable.call t calls).2, limit ≤ id.number) ↔
      ∃ before rest, calls = before ++ .allocate :: rest ∧
        (∀ id ∈ IdCall.given (IdCall.run IdTable.call t before).2, id.number < limit) ∧
        (IdCall.run IdTable.call t before).1.UsedUp ∧ (IdCall.run IdTable.call t before).1.next ≠ limit.toNat := by
  induction calls generalizing t with
  | nil =>
    constructor
    · rintro ⟨id,member,_⟩
      cases member
    · rintro ⟨before,rest,split,_⟩
      cases before <;> cases split
  | cons call rest ih =>
    have later (kept : ∀ id, (t.call call).2 = .ok (some id) → id.number < limit) :=
      ih (within.call (below call List.mem_cons_self) kept) fun other member => below other (List.mem_cons_of_mem _ member)
    by_cases kept : ∀ id, (t.call call).2 = .ok (some id) → id.number < limit
    · constructor
      · rintro ⟨id,member,beyond⟩
        rcases mem_given_cons.mp member with here | there
        · exact absurd (kept id here) (UInt32.not_lt.mpr beyond)
        · obtain ⟨before,after,rfl,small,up,astray⟩ := (later kept).mp ⟨id,there,beyond⟩
          refine ⟨call :: before,after,rfl,fun other member => ?_,up,astray⟩
          exact (mem_given_cons.mp member).elim (kept other) (small other)
      · rintro ⟨before,after,split,small,up,astray⟩
        cases before with
        | nil =>
          cases split
          obtain ⟨id,fresh,beyond⟩ := within.beyond_call up astray
          exact absurd (kept id fresh) (UInt32.not_lt.mpr beyond)
        | cons first before =>
          cases split
          obtain ⟨id,there,beyond⟩ := (later kept).mpr
            ⟨before,after,rfl,fun other member => small other (mem_given_cons.mpr (.inr member)),up,astray⟩
          exact ⟨id,mem_given_cons.mpr (.inr there),beyond⟩
    · obtain ⟨id,fresh,beyond⟩ : ∃ id, (t.call call).2 = .ok (some id) ∧ limit ≤ id.number := by
        simpa only [not_forall,exists_prop,UInt32.not_lt] using kept
      obtain ⟨rfl,up,astray⟩ := within.call_beyond fresh beyond
      refine iff_of_true ⟨id,mem_given_cons.mpr (.inl fresh),beyond⟩ ⟨[],rest,rfl,fun other member => ?_,up,astray⟩
      cases member

-- Whether a call takes the identifier under the cursor while the next one is in use. The cursor
-- then comes to stand on a used slot.
def Strands (t : IdTable) : IdCall → Prop
  | .reserve id | .claim id => id.order = t.next ∧ t.next + 1 ∈ t.space.used
  | .release _ | .allocate => False

instance Strands.decidable (t : IdTable) (call : IdCall) : Decidable (t.Strands call) :=
  match call with
  | .reserve id => inferInstanceAs (Decidable (id.order = t.next ∧ t.next + 1 ∈ t.space.used))
  | .claim id => inferInstanceAs (Decidable (id.order = t.next ∧ t.next + 1 ∈ t.space.used))
  | .release _ => inferInstanceAs (Decidable False)
  | .allocate => inferInstanceAs (Decidable False)

def Orderly (t : IdTable) : List IdCall → Prop
  | [] => True
  | call :: rest => ¬ t.Strands call ∧ (t.call call).1.Orderly rest

instance Orderly.decidable (t : IdTable) (calls : List IdCall) : Decidable (t.Orderly calls) :=
  match calls with
  | [] => inferInstanceAs (Decidable True)
  | call :: rest =>
    have := Orderly.decidable (t.call call).1 rest
    inferInstanceAs (Decidable (¬ t.Strands call ∧ (t.call call).1.Orderly rest))

theorem zero_unused : 0 ∉ t.space.used := fun used => Nat.lt_irrefl 0 (mem_used.mp used).2.1

theorem taken_settled (settled : t.next ∉ t.space.used) (orderly : ¬ (id.order = t.next ∧ t.next + 1 ∈ t.space.used))
    (cursor : after.next = if t.next = id.order then (t.next + 1) % word else t.next)
    (used : after.space.used = insert id.order t.space.used) (zero : 0 ∉ after.space.used) :
    after.next ∉ after.space.used := by
  rw [used,Finset.mem_insert] at zero ⊢
  rw [cursor]
  split
  · rename_i here
    by_cases small : t.next + 1 < word
    · rw [Nat.mod_eq_of_lt small]
      rintro (same | old)
      · omega
      · exact orderly ⟨here.symm,old⟩
    · have named := id.order_lt
      rwa [show t.next + 1 = word by omega,Nat.mod_self]
  · rename_i elsewhere
    exact fun either => either.elim elsewhere settled

theorem call_settled {call : IdCall} (valid : t.Valid) (settled : t.next ∉ t.space.used) (orderly : ¬ t.Strands call) :
    (t.call call).1.next ∉ (t.call call).1.space.used := by
  cases call with
  | reserve id =>
    simp only [IdTable.call]
    cases done : t.reserve id with
    | error e => exact settled
    | ok after =>
      obtain ⟨_,_,_,_,_,cursor,_⟩ := reserve_parts done
      have used : after.space.used = insert id.order t.space.used := by rw [reserve_space done]
      exact taken_settled settled orderly cursor used zero_unused
  | claim id =>
    simp only [IdTable.call]
    cases done : t.claim id with
    | error e => exact settled
    | ok after =>
      obtain ⟨_,_,_,_,_,cursor,_⟩ := claim_parts done
      have used : after.space.used = insert id.order t.space.used := by rw [claim_space valid done]
      exact taken_settled settled orderly cursor used zero_unused
  | release id =>
    simp only [IdTable.call]
    cases done : t.release id with
    | error e => exact settled
    | ok after =>
      obtain ⟨_,_,_,_,_,cursor,_⟩ := release_parts done
      simp only [answer,release_space done,Finset.mem_erase,cursor]
      rintro ⟨apart,used⟩
      rcases Nat.le_total t.next id.order with near | far
      · rw [Nat.min_eq_left near] at used
        exact settled used
      · exact apart (Nat.min_eq_right far)
  | allocate =>
    simp only [IdTable.call]
    cases done : t.allocate with
    | error e => exact settled
    | ok fresh =>
      obtain ⟨id,after⟩ := fresh
      rcases allocated valid done with ⟨_,slot,spare,rfl,parts⟩ | ⟨_,_,rfl⟩
      · by_cases small : spare < word
        · have next := (IdSpace.firstUnused_isLeast t.space.used (slot + 1)).1
          have beyond := parts.beyond
          rw [parts.next] at next
          simp only [parts.cursor,Nat.mod_eq_of_lt small,parts.space,Finset.mem_insert]
          exact fun either => either.elim (by omega) next.2
        · have bound := parts.bound
          dsimp only
          rw [parts.cursor,show spare = word by omega,Nat.mod_self]
          exact zero_unused
      · exact zero_unused

theorem Within.usedUp_iff (within : t.Within limit) (positive : 0 < limit) (settled : t.next ∉ t.space.used) :
    t.UsedUp ↔ t.next = limit.toNat := by
  have above : 0 < limit.toNat := UInt32.lt_iff_toNat_lt.mp positive
  have bound := within.bound
  constructor
  · intro up
    have near := within.next_le
    by_contra astray
    exact settled (up t.next (by omega) within.positive)
  · intro here slot below positive
    have inside := within.valid.within
    exact mem_used.mpr ⟨by omega,positive,within.valid.lowest slot (by omega)⟩

-- By induction on the calls: in an orderly run the cursor never stands on a used slot.
theorem Within.run_orderly (within : t.Within limit) (positive : 0 < limit) (settled : t.next ∉ t.space.used)
    (below : ∀ call ∈ calls, call.Below limit) (orderly : t.Orderly calls) :
    (∀ id ∈ IdCall.given (IdCall.run IdTable.call t calls).2, id.number < limit) ∧
      (IdCall.run IdTable.call t calls).1.next ∉ (IdCall.run IdTable.call t calls).1.space.used := by
  induction calls generalizing t with
  | nil => exact ⟨nofun,settled⟩
  | cons call rest ih =>
    obtain ⟨clear,later⟩ := orderly
    have kept : ∀ id, (t.call call).2 = .ok (some id) → id.number < limit := by
      intro id fresh
      by_contra beyond
      obtain ⟨rfl,up,astray⟩ := within.call_beyond fresh (UInt32.not_lt.mp beyond)
      exact astray ((within.usedUp_iff positive settled).mp up)
    have first := within.call (below call List.mem_cons_self) kept
    obtain ⟨small,still⟩ := ih first (call_settled within.valid settled clear)
      (fun call member => below call (List.mem_cons_of_mem _ member)) later
    refine ⟨?_,still⟩
    intro id member
    exact (mem_given_cons.mp member).elim (kept id) (small id)

theorem Within.stuck (within : t.Within 0xffffffff) (up : t.UsedUp) (astray : t.next ≠ largestId) :
    ∃ after, t.allocate = .ok (⟨0xffffffff⟩,after) ∧ after.next = 0 ∧ after.allocate = .ok (.base,after) := by
  obtain ⟨spare,after,done,parts,wide⟩ := within.allocate_beyond up astray
  have width : max (0xffffffff : UInt32).toNat 1 = largestId := rfl
  rw [width] at parts wide done
  have past : spare = word := wide
  have cursor : after.next = 0 := by rw [parts.cursor,past,Nat.mod_self]
  have valid := parts.valid within.valid
  have bound : after.limit = largestId := parts.limit.trans within.bound
  have long : after.capacity = word + 1 := by
    have := parts.size
    have := valid.reach
    omega
  have spent : after.Spent := by
    refine ⟨by omega,fun slot small => ?_⟩
    rw [Bool.eq_false_iff,ne_eq,parts.slots]
    rintro ⟨apart,same | free⟩
    · omega
    · by_cases zero : slot = 0
      · rw [zero,within.valid.sentinel] at free
        cases free
      · have below : slot < largestId := by unfold word at small; unfold largestId at *; omega
        have used := up slot (within.bound.symm ▸ below) (Nat.pos_of_ne_zero zero)
        rw [(mem_used.mp used).2.2] at free
        cases free
  have ran := allocate_wrapped valid (by rw [cursor,bound]; decide) spent
  have same : after.wrapped = after := by
    unfold wrapped
    rw [if_neg (by omega),←cursor]
  rw [same] at ran
  exact ⟨after,done,cursor,ran⟩

-- Reserving from one identifier down uses up all of them, and the cursor comes to stand on the second.
theorem countdown_run (valid : t.Valid) (cursor : t.next = 1) (inside : n < t.capacity) (small : n < word) :
    ∃ after answers, IdCall.run IdTable.call t (IdCall.countdown n) = (after,answers) ∧
      after.limit = t.limit ∧ IdCall.given answers = [] ∧ (0 < n → after.next = 2) ∧
      ∀ slot, slot ∈ t.space.used ∨ 0 < slot ∧ slot ≤ n → slot ∈ after.space.used := by
  induction n generalizing t with
  | zero => exact ⟨t,[],rfl,rfl,rfl,nofun,fun slot either => either.elim id (by omega)⟩
  | succ n ih =>
    have number : (InstanceId.ofNat (n + 1)).order = n + 1 := InstanceId.order_ofNat small
    have proper : InstanceId.ofNat (n + 1) ≠ .base := InstanceId.order_pos.mp (by omega)
    obtain ⟨first,done⟩ : ∃ first, t.reserve (.ofNat (n + 1)) = .ok first := ⟨_,reserve_ok proper (by omega)⟩
    obtain ⟨_,_,size,_,limit,next,_⟩ := reserve_parts done
    have used : first.space.used = insert (n + 1) t.space.used := by rw [reserve_space done,number]
    rw [number,cursor] at next
    simp only [IdCall.countdown,IdCall.run,IdTable.call,done,answer]
    by_cases last : n = 0
    · subst last
      refine ⟨first,_,rfl,limit,rfl,fun _ => next.trans (if_pos rfl),fun slot either => ?_⟩
      rw [used,Finset.mem_insert]
      rcases either with old | ⟨positive,near⟩
      · exact .inr old
      · exact .inl (by omega)
    · have still : first.next = 1 := next.trans (if_neg (by omega))
      obtain ⟨after,answers,ran,same,silent,second,all⟩ :=
        ih (reserve_valid valid done) still (by omega) (by omega)
      rw [ran]
      refine ⟨after,_,rfl,same.trans limit,silent,fun _ => second (by omega),fun slot either => all slot ?_⟩
      rw [used,Finset.mem_insert]
      rcases either with old | ⟨positive,near⟩
      · exact .inl (.inr old)
      · by_cases top : slot = n + 1
        · exact .inl (.inl top)
        · exact .inr ⟨positive,by omega⟩

theorem countdown_passes (limit : UInt32) (room : 3 ≤ limit.toNat) :
    (∀ call ∈ IdCall.countdown (limit.toNat - 1), call.Below limit) ∧
      ∃ t answers, IdCall.run IdTable.call (limited limit.toNat (limit.toNat - 1))
          (IdCall.countdown (limit.toNat - 1)) = (t,answers) ∧
        IdCall.given answers = [] ∧ t.Within limit ∧ t.UsedUp ∧ t.next < limit.toNat := by
  have width := limit.toNat_lt
  have below : ∀ call ∈ IdCall.countdown (limit.toNat - 1), call.Below limit := by
    intro call member
    obtain ⟨slot,positive,near,rfl⟩ := IdCall.mem_countdown member
    refine InstanceId.number_lt.mpr ?_
    rw [InstanceId.order_ofNat (by omega)]
    omega
  refine ⟨below,?_⟩
  have fits : limit.toNat - 1 < word := by unfold word; omega
  have start := limited_within limit fits
  have size := limited_capacity limit.toNat (limit.toNat - 1)
  obtain ⟨t,answers,ran,same,silent,second,all⟩ :=
    countdown_run (n := limit.toNat - 1) start.valid rfl (by omega) (by unfold word; omega)
  have within : t.Within limit := by
    have kept := start.run below (by rw [ran,silent]; nofun)
    rwa [ran] at kept
  have next := second (by omega)
  have up : t.UsedUp := fun slot below positive => all slot (.inr ⟨positive,by rw [within.bound] at below; omega⟩)
  exact ⟨t,answers,ran,silent,within,up,by omega⟩

-- A cursor left on a used slot carries an allocation past the limit. A table for the largest limit shows no
-- free slot either after the same calls, and hands out three as well.
theorem limit_passed :
    let calls := [.reserve ⟨2⟩,.reserve ⟨1⟩]
    let small := (IdCall.run IdTable.call (limited 3 1) calls).1
    let wide := (IdCall.run IdTable.call (sized 1) calls).1
    ((∀ call ∈ calls, IdCall.Below 3 call) ∧ small.limit = 3 ∧ small.UsedUp ∧ small.next = 2 ∧
      (small.call .allocate).2 = .ok (some ⟨3⟩) ∧ (small.call .allocate).1.next = 4) ∧
    ((∀ slot < wide.capacity, wide.slotFree slot = false) ∧ (wide.call .allocate).2 = .ok (some ⟨3⟩)) ∧
    ∃ calls t answers after, (∀ call ∈ calls, IdCall.Below 0xffffffff call) ∧
      IdCall.run IdTable.call (sized 0xfffffffe) calls = (t,answers) ∧ t.UsedUp ∧ t.next < largestId ∧
      t.allocate = .ok (⟨0xffffffff⟩,after) ∧ after.next = 0 ∧ after.allocate = .ok (.base,after) := by
  refine ⟨by decide,by decide,?_⟩
  obtain ⟨below,t,answers,ran,_,within,up,astray⟩ := countdown_passes 0xffffffff (by decide)
  obtain ⟨after,done,cursor,again⟩ := within.stuck up (Nat.ne_of_lt astray)
  exact ⟨_,t,answers,after,below,ran,up,astray,done,cursor,again⟩

-- Until an identifier at the limit or beyond it is handed out, an allocation hands out the least one below
-- it that is not in use. Where none is left, an allocation fails if the cursor stands on the limit and goes
-- past it if not. After an orderly run the cursor stands on the limit exactly if none is left.
theorem limited_runs (limit highest : UInt32) (calls : List IdCall) (below : ∀ call ∈ calls, call.Below limit) :
    ∃ t answers, IdCall.run IdTable.call (limited limit.toNat highest.toNat) calls = (t,answers) ∧
      ((∀ id ∈ IdCall.given answers, id.number < limit) →
        t.next ≤ max limit.toNat 1 ∧
        (∀ call, call.Below limit → t.perform? call = some (t.call call)) ∧
        (¬ t.UsedUp → ∃ id after, t.allocate = .ok (id,after) ∧ id.number < limit ∧
          IsLeast {n | 0 < n ∧ n ∉ t.space.used} id.order ∧ after.next ≤ limit.toNat) ∧
        (t.UsedUp → t.next = limit.toNat → t.call .allocate = (t,.error .exhausted)) ∧
        (t.UsedUp → t.next ≠ limit.toNat → ∃ after,
          t.allocate = .ok (.ofNat (max limit.toNat 1),after) ∧ after.next = (max limit.toNat 1 + 1) % word)) ∧
      ((∃ id ∈ IdCall.given answers, limit ≤ id.number) ↔ ∃ before rest, calls = before ++ .allocate :: rest ∧
        let earlier := IdCall.run IdTable.call (limited limit.toNat highest.toNat) before
        (∀ id ∈ IdCall.given earlier.2, id.number < limit) ∧ earlier.1.UsedUp ∧ earlier.1.next ≠ limit.toNat) ∧
      (0 < limit → (limited limit.toNat highest.toNat).Orderly calls →
        (∀ id ∈ IdCall.given answers, id.number < limit) ∧ t.next ≤ limit.toNat ∧
        (t.UsedUp ↔ t.next = limit.toNat)) := by
  have start := limited_within limit highest.toNat_lt
  obtain ⟨t,answers,ran⟩ : ∃ t answers,
      IdCall.run IdTable.call (limited limit.toNat highest.toNat) calls = (t,answers) := ⟨_,_,rfl⟩
  have reached (kept : ∀ id ∈ IdCall.given answers, id.number < limit) : t.Within limit := by
    have within := start.run below (by rwa [ran])
    rwa [ran] at within
  have beyond := start.run_beyond below
  rw [ran] at beyond
  refine ⟨t,answers,ran,fun kept => ?_,beyond,fun positive orderly => ?_⟩
  · have within := reached kept
    refine ⟨within.next_le,fun call => within.perform?,fun left => ?_,fun _ full => ?_,fun up astray => ?_⟩
    · obtain ⟨id,after,done,small,least,_,near⟩ := within.allocate_below left
      exact ⟨id,after,done,small,least,near⟩
    · simp only [IdTable.call,allocate_exhausted (full.trans within.bound.symm)]
    · obtain ⟨spare,after,done,parts,wide⟩ := within.allocate_beyond up astray
      exact ⟨after,done,wide ▸ parts.cursor⟩
  · have unused : (limited limit.toNat highest.toNat).next ∉ (limited limit.toNat highest.toNat).space.used := by
      rw [limited_space]
      exact Finset.notMem_empty _
    have ordered := start.run_orderly positive unused below orderly
    rw [ran] at ordered
    obtain ⟨kept,settled⟩ := ordered
    have within := reached kept
    have near := within.next_le
    have above : 0 < limit.toNat := UInt32.lt_iff_toNat_lt.mp positive
    exact ⟨kept,by omega,within.usedUp_iff positive settled⟩

theorem limited_runs_exhausted :
    let calls := [.reserve ⟨1⟩,.claim ⟨2⟩,.allocate]
    let t := (IdCall.run IdTable.call (limited 4 0) calls).1
    (∀ call ∈ calls, IdCall.Below 4 call) ∧ (0 : UInt32) < 4 ∧ (limited 4 0).Orderly calls ∧
      IdCall.given (IdCall.run IdTable.call (limited 4 0) calls).2 = [⟨3⟩] ∧ t.UsedUp ∧ t.next = 4 ∧
      t.call .allocate = (t,.error .exhausted) := by
  intro calls t
  have below : ∀ call ∈ calls, IdCall.Below 4 call := by decide
  have orderly : (limited 4 0).Orderly calls := by decide
  obtain ⟨final,answers,ran,reached,_,ordered⟩ := limited_runs 4 0 calls below
  obtain ⟨kept,_,full⟩ := ordered (by decide) orderly
  obtain ⟨_,_,_,failed,_⟩ := reached kept
  have same : t = final := congrArg Prod.fst ran
  have up : t.UsedUp := by decide
  rw [←same] at full failed
  exact ⟨below,by decide,orderly,by decide,up,full.mp up,failed up (full.mp up)⟩

end IdTable
end LiveMaps
