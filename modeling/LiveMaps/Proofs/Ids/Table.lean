import LiveMaps.IdTable
import LiveMaps.Proofs.Keyed

namespace LiveMaps

namespace InstanceId

@[simp] theorem isBase_iff {id : InstanceId} : id.isBase = true ↔ id = .base := by simp [isBase]

theorem isBase_eq_false {id : InstanceId} : id.isBase = false ↔ id ≠ .base := by
  rw [←Bool.not_eq_true,isBase_iff]

theorem order_pos {id : InstanceId} : 0 < id.order ↔ id ≠ .base := by
  rw [Nat.pos_iff_ne_zero]
  exact not_congr (order_inj (y := .base))

theorem order_lt (id : InstanceId) : id.order < IdTable.word := id.number.toNat_lt

theorem order_ofNat (small : n < 0x100000000) : (InstanceId.ofNat n).order = n := by
  simp [order,ofNat,UInt32.toNat_ofNat_of_lt' small]

end InstanceId

namespace IdTable
open Ordered
variable {t after : IdTable} {id : InstanceId} {bits : Array Bool} {slot start count : Nat}

-- No identifier names the last slot that a cursor can run into, so once it is there it stays free.
structure Bounded (t : IdTable) : Prop where
  reach : t.capacity ≤ word + 1
  last : word < t.capacity → t.slotFree word = true

-- What holds of a table through every call. As nothing free lies below the cursor, the slot under a
-- corrected cursor is the least free one.
structure Valid (t : IdTable) : Prop extends Bounded t where
  nonempty : 0 < t.capacity
  sentinel : t.slotFree 0 = false
  small : t.next < word
  within : t.next ≤ t.capacity
  lowest : ∀ slot < t.next, t.slotFree slot = false
  ascending : Ascending InstanceId.order t.claimed
  held : ∀ id ∈ t.claimed, id ≠ .base ∧ id.order < t.capacity ∧ t.slotFree id.order = false

theorem slot_within (free : t.slotFree slot = true) : slot < t.capacity := by
  unfold slotFree capacity at *
  rw [Array.getD_eq_getD_getElem?] at free
  by_cases inside : slot < t.free.size
  · exact inside
  · simp [inside] at free

theorem slotFree_set (t : IdTable) (slot other : Nat) (value : Bool) :
    slotFree {t with free := t.free.setIfInBounds slot value} other = true ↔
      (if other = slot then value = true ∧ slot < t.capacity else t.slotFree other = true) := by
  simp only [slotFree,capacity,Array.getD_eq_getD_getElem?,Array.getElem?_setIfInBounds,eq_comm (a := slot)]
  split
  · subst slot
    by_cases inside : other < t.free.size <;> simp [inside]
  · rfl

theorem capacity_set (t : IdTable) (slot : Nat) (value : Bool) :
    capacity {t with free := t.free.setIfInBounds slot value} = t.capacity := by simp [capacity]

theorem isClaimed_iff : t.isClaimed id = true ↔ id ∈ t.claimed := by simp [isClaimed]

theorem limited_capacity (limit highest : Nat) : (limited limit highest).capacity = highest + 2 := by
  simp [limited,capacity]

theorem limited_slots (limit highest slot : Nat) :
    (limited limit highest).slotFree slot = true ↔ 0 < slot ∧ slot < highest + 2 := by
  simp only [slotFree,limited,Array.getD_eq_getD_getElem?,Array.getElem?_setIfInBounds,Array.getElem?_replicate]
  split
  · subst slot
    simp
  · split <;> simp <;> omega

theorem limited_valid (limit : Nat) {highest : Nat} (small : highest < word) : (limited limit highest).Valid := by
  have size := limited_capacity limit highest
  have first : (limited limit highest).slotFree 0 = false := by
    rw [Bool.eq_false_iff,ne_eq,limited_slots]
    exact fun positive => Nat.lt_irrefl 0 positive.1
  exact {
    reach := by omega
    last := fun past => (limited_slots _ _ _).mpr ⟨by decide,by omega⟩
    nonempty := by omega
    sentinel := first
    small := show 1 < word by decide
    within := show 1 ≤ _ by omega
    lowest := fun slot below => Nat.lt_one_iff.mp below ▸ first
    ascending := .nil
    held := nofun }

theorem sized_valid {highest : Nat} (small : highest < word) : (sized highest).Valid := limited_valid largestId small

theorem reserve_parts (done : t.reserve id = .ok after) :
    id ≠ .base ∧ id.order < t.capacity ∧ after.capacity = t.capacity ∧ after.claimed = t.claimed ∧
      after.limit = t.limit ∧ after.next = (if t.next = id.order then (t.next + 1) % word else t.next) ∧
      ∀ slot, after.slotFree slot = true ↔ slot ≠ id.order ∧ t.slotFree slot = true := by
  unfold reserve at done
  split at done
  · cases done
  · rename_i nonzero
    split at done
    · cases done
    · rename_i inside
      cases done
      refine ⟨by simpa using nonzero,Nat.lt_of_not_le inside,capacity_set t _ _,rfl,rfl,rfl,?_⟩
      intro slot
      refine (slotFree_set t id.order slot false).trans ?_
      split <;> simp_all

theorem release_parts (done : t.release id = .ok after) :
    id ≠ .base ∧ id.order < t.capacity ∧ after.capacity = t.capacity ∧
      after.claimed = t.claimed.filter (· != id) ∧ after.limit = t.limit ∧ after.next = min t.next id.order ∧
      ∀ slot, after.slotFree slot = true ↔ slot = id.order ∨ t.slotFree slot = true := by
  unfold release at done
  split at done
  · cases done
  · rename_i nonzero
    split at done
    · cases done
    · rename_i inside
      cases done
      have inside : id.order < t.capacity := Nat.lt_of_not_le inside
      refine ⟨by simpa using nonzero,inside,capacity_set t _ _,rfl,rfl,rfl,?_⟩
      intro slot
      refine (slotFree_set t id.order slot true).trans ?_
      split <;> simp_all

theorem grow_parts (t : IdTable) (size : Nat) :
    (t.grow size).capacity = max t.capacity size ∧ (t.grow size).claimed = t.claimed ∧
      (t.grow size).limit = t.limit ∧ (t.grow size).next = t.next ∧
      ∀ slot, (t.grow size).slotFree slot = true ↔
        t.slotFree slot = true ∨ t.capacity ≤ slot ∧ slot < size := by
  refine ⟨by simp [grow,capacity]; omega,rfl,rfl,rfl,?_⟩
  intro slot
  simp only [slotFree,grow,capacity,Array.getD_eq_getD_getElem?,Array.getElem?_append,
    Array.getElem?_replicate]
  by_cases inside : slot < t.free.size
  · rw [if_pos inside]
    exact ⟨.inl,fun either => either.elim id fun past => by omega⟩
  · rw [if_neg inside,Array.getElem?_eq_none (Nat.le_of_not_lt inside)]
    split
    · exact ⟨fun _ => .inr (by omega),fun _ => rfl⟩
    · refine ⟨nofun,?_⟩
      rintro (free | past)
      · cases free
      · omega

theorem claim_parts (done : t.claim id = .ok after) :
    id ∉ t.claimed ∧ id ≠ .base ∧ after.capacity = max t.capacity (id.order + 2) ∧
      after.claimed = Ordered.insert InstanceId.order id t.claimed ∧ after.limit = t.limit ∧
      after.next = (if t.next = id.order then (t.next + 1) % word else t.next) ∧
      ∀ slot, after.slotFree slot = true ↔ slot ≠ id.order ∧
        (t.slotFree slot = true ∨ t.capacity ≤ slot ∧ slot < id.order + 2) := by
  unfold claim at done
  split at done
  · cases done
  · rename_i unclaimed
    dsimp only at done
    split at done
    · cases done
    · rename_i reserved took
      cases done
      obtain ⟨nonzero,inside,size,claimed,limit,cursor,slots⟩ := reserve_parts took
      have proper : ¬ id.isBase = true := by simpa using nonzero
      rw [if_neg proper] at size claimed limit cursor slots
      obtain ⟨grownSize,grownClaimed,grownLimit,grownNext,grownSlots⟩ := grow_parts t (id.order + 2)
      refine ⟨by rwa [isClaimed_iff] at unclaimed,nonzero,size.trans grownSize,?_,
        limit.trans grownLimit,by simpa only [grownNext] using cursor,?_⟩
      · exact congrArg _ (claimed.trans grownClaimed)
      · intro slot
        exact (slots slot).trans (and_congr_right fun _ => grownSlots slot)

theorem reserve_base (t : IdTable) : t.reserve .base = .error .sentinel := if_pos rfl

theorem reserve_past (nonzero : id ≠ .base) (past : t.capacity ≤ id.order) :
    t.reserve id = .error (.outOfRange id) := by
  unfold reserve
  rw [if_neg (by simpa using nonzero)]
  exact if_pos past

theorem reserve_ok (nonzero : id ≠ .base) (inside : id.order < t.capacity) :
    t.reserve id = .ok {t with
      free := t.free.setIfInBounds id.order false
      next := if t.next = id.order then (t.next + 1) % word else t.next } := by
  unfold reserve
  rw [if_neg (by simpa using nonzero)]
  exact if_neg (Nat.not_le_of_lt inside)

theorem release_base (t : IdTable) : t.release .base = .error .sentinel := if_pos rfl

theorem release_past (nonzero : id ≠ .base) (past : t.capacity ≤ id.order) :
    t.release id = .error (.outOfRange id) := by
  unfold release
  rw [if_neg (by simpa using nonzero)]
  exact if_pos past

theorem release_ok (nonzero : id ≠ .base) (inside : id.order < t.capacity) :
    t.release id = .ok {t with
      free := t.free.setIfInBounds id.order true
      claimed := t.claimed.filter (· != id)
      next := min t.next id.order } := by
  unfold release
  rw [if_neg (by simpa using nonzero)]
  exact if_neg (Nat.not_le_of_lt inside)

theorem claim_taken (taken : id ∈ t.claimed) : t.claim id = .error (.inUse id) :=
  if_pos (isClaimed_iff.mpr taken)

theorem claim_base (untaken : .base ∉ t.claimed) : t.claim .base = .error .sentinel := by
  unfold claim
  rw [if_neg (by rwa [isClaimed_iff])]
  rfl

theorem claim_ok (untaken : id ∉ t.claimed) (nonzero : id ≠ .base) : ∃ after, t.claim id = .ok after := by
  have size := (grow_parts t (id.order + 2)).1
  have done := reserve_ok (t := t.grow (id.order + 2)) nonzero (by omega)
  unfold claim
  rw [if_neg (by rwa [isClaimed_iff]),if_neg (by simpa using nonzero)]
  dsimp only
  rw [done]
  exact ⟨_,rfl⟩

theorem scan_found (found : scan bits count start = some slot) :
    start ≤ slot ∧ slot < start + count ∧ bits.getD slot false = true ∧
      ∀ other, start ≤ other → other < slot → bits.getD other false = false := by
  induction count generalizing start with
  | zero => cases found
  | succ count ih =>
    unfold scan at found
    split at found
    · rename_i here
      cases found
      exact ⟨Nat.le_refl _,by omega,here,fun other least below => absurd below (by omega)⟩
    · rename_i used
      obtain ⟨past,bound,free,between⟩ := ih found
      refine ⟨by omega,by omega,free,fun other least below => ?_⟩
      by_cases first : other = start
      · subst first; simpa using used
      · exact between other (by omega) below

theorem scan_missed (missed : scan bits count start = none) :
    ∀ other, start ≤ other → other < start + count → bits.getD other false = false := by
  induction count generalizing start with
  | zero => intro other least below; omega
  | succ count ih =>
    unfold scan at missed
    split at missed
    · cases missed
    · rename_i used
      intro other least below
      by_cases first : other = start
      · subst first; simpa using used
      · exact ih missed other (by omega) (by omega)

theorem slotFree_push (t : IdTable) (slot : Nat) :
    slotFree {t with free := t.free.push true} slot = true ↔
      slot = t.capacity ∨ t.slotFree slot = true := by
  simp only [slotFree,capacity,Array.getD_eq_getD_getElem?,Array.getElem?_push]
  split <;> simp_all

structure Scanned (t : IdTable) (start found : Nat) (after : IdTable) : Prop where
  reached : start ≤ found
  within : found ≤ t.capacity
  small : found ≤ word
  unused : t.slotFree found = true ∨ found = t.capacity
  passed : ∀ other, start ≤ other → other < found → t.slotFree other = false
  size : after.capacity = max t.capacity (found + 1)
  claimed : after.claimed = t.claimed
  limit : after.limit = t.limit
  slots : ∀ other, after.slotFree other = true ↔ other = found ∨ t.slotFree other = true

theorem Scanned.bounded (scanned : Scanned t start slot after) (bounded : t.Bounded) : after.Bounded := by
  have reach := bounded.reach
  have small := scanned.small
  have size := scanned.size
  refine ⟨by omega,fun past => (scanned.slots word).mpr ?_⟩
  by_cases here : word = slot
  · exact .inl here
  · exact .inr (bounded.last (by omega))

theorem scanFrom_scanned (bounded : t.Bounded) (inside : start ≤ t.capacity) (small : start ≤ word) :
    ∃ slot after, t.scanFrom start = (after,slot % word) ∧ Scanned t start slot after := by
  unfold scanFrom
  cases found : scan t.free (t.free.size - start) start with
  | some slot =>
    obtain ⟨past,below,free,between⟩ := scan_found found
    have below : slot < t.capacity := by unfold capacity at *; omega
    have reach := bounded.reach
    refine ⟨slot,t,rfl,past,by omega,by omega,.inl free,between,by omega,rfl,rfl,fun other => ?_⟩
    exact ⟨.inr,fun either => either.elim (fun same => same ▸ free) id⟩
  | none =>
    have between (other : Nat) (least : start ≤ other) (below : other < t.capacity) : t.slotFree other = false :=
      scan_missed found other least (by unfold capacity at *; omega)
    have near : t.capacity ≤ word := Nat.le_of_not_lt fun past => by
      have taken := between word small past
      rw [bounded.last past] at taken
      cases taken
    exact ⟨t.capacity,_,rfl,inside,Nat.le_refl _,near,.inr rfl,between,by simp [capacity],rfl,rfl,slotFree_push t⟩

theorem scanFrom_first (reached : start ≤ slot) (free : t.slotFree slot = true)
    (used : ∀ other, start ≤ other → other < slot → t.slotFree other = false) :
    t.scanFrom start = (t,slot % word) := by
  have inside := slot_within free
  unfold scanFrom
  cases sought : scan t.free (t.free.size - start) start with
  | none =>
    have taken : t.slotFree slot = false := scan_missed sought slot reached (by unfold capacity at inside; omega)
    rw [free] at taken
    cases taken
  | some found =>
    obtain ⟨past,_,here,between⟩ := scan_found sought
    have least : slot ≤ found := Nat.le_of_not_lt fun below => by
      have taken := used found past below
      rw [slotFree,here] at taken
      cases taken
    have most : found ≤ slot := Nat.le_of_not_lt fun below => by
      have taken : t.slotFree slot = false := between slot reached below
      rw [free] at taken
      cases taken
    rw [Nat.le_antisymm most least]

theorem scanFrom_none (used : ∀ other, start ≤ other → t.slotFree other = false) :
    t.scanFrom start = ({t with free := t.free.push true},t.capacity % word) := by
  unfold scanFrom
  cases sought : scan t.free (t.free.size - start) start with
  | none => rfl
  | some found =>
    obtain ⟨past,_,here,_⟩ := scan_found sought
    have taken := used found past
    rw [slotFree,here] at taken
    cases taken

theorem scanFrom_cursor (small : t.next < word) :
    (if t.slotFree t.next then (t,t.next) else t.scanFrom t.next) = t.scanFrom t.next := by
  split
  · rename_i free
    rw [scanFrom_first (Nat.le_refl _) free fun _ least below => absurd below (Nat.not_lt_of_le least),
      Nat.mod_eq_of_lt small]
  · rfl

-- What an allocation makes of a table. `slot` is handed out, and the cursor moves on to `spare`.
structure Allocated (t : IdTable) (slot spare : Nat) (after : IdTable) : Prop where
  positive : 0 < slot
  small : slot < word
  within : slot ≤ t.capacity
  least : ∀ other < slot, t.slotFree other = false
  unused : t.slotFree slot = true ∨ slot = t.capacity
  beyond : slot < spare
  bound : spare ≤ word
  near : spare ≤ max t.capacity (slot + 1)
  between : ∀ other, slot < other → other < spare → t.slotFree other = false
  spare_unused : t.slotFree spare = true ∨ t.capacity ≤ spare
  size : after.capacity = max t.capacity (spare + 1)
  cursor : after.next = spare % word
  claimed : after.claimed = t.claimed
  limit : after.limit = t.limit
  slots : ∀ other, after.slotFree other = true ↔
    other ≠ slot ∧ (other = spare ∨ t.slotFree other = true)

def Spent (t : IdTable) : Prop := word ≤ t.capacity ∧ ∀ slot < word, t.slotFree slot = false

-- What is left then is the slot that no identifier names, and the cursor on it counts as zero.
def wrapped (t : IdTable) : IdTable :=
  {t with free := if t.capacity = word then t.free.push true else t.free, next := 0}

theorem allocate_exhausted (full : t.next = t.limit) : t.allocate = .error .exhausted := if_pos full

theorem allocate_room (done : t.allocate = .ok (id,after)) : t.next ≠ t.limit := by
  intro full
  rw [allocate_exhausted full] at done
  cases done

theorem allocate_parts (valid : t.Valid) (room : t.next ≠ t.limit) (left : ¬ t.Spent) :
    ∃ slot spare after, t.allocate = .ok (.ofNat slot,after) ∧ Allocated t slot spare after := by
  obtain ⟨slot,grown,sought,scanned⟩ := scanFrom_scanned valid.toBounded valid.within (Nat.le_of_lt valid.small)
  have least (other : Nat) (below : other < slot) : t.slotFree other = false := by
    by_cases cursor : other < t.next
    · exact valid.lowest other cursor
    · exact scanned.passed other (by omega) below
  have small : slot < word := Nat.lt_of_not_le fun past => by
    have within := scanned.within
    exact left ⟨by omega,fun other below => least other (by omega)⟩
  have positive : 0 < slot := Nat.pos_of_ne_zero fun zero => by
    have nonempty := valid.nonempty
    rcases scanned.unused with free | end_
    · rw [zero,valid.sentinel] at free
      cases free
    · omega
  rw [Nat.mod_eq_of_lt small] at sought
  -- The slot is taken before the cursor looks for the next one.
  let taken : IdTable := {grown with free := grown.free.setIfInBounds slot false}
  have size := scanned.size
  have takenSize : taken.capacity = max t.capacity (slot + 1) := (capacity_set grown slot false).trans size
  have takenSlots : ∀ other, taken.slotFree other = true ↔ other ≠ slot ∧ t.slotFree other = true := by
    intro other
    refine (slotFree_set grown slot other false).trans ?_
    rw [scanned.slots]
    split <;> simp_all
  have bounded : taken.Bounded := by
    have grownBounded := scanned.bounded valid.toBounded
    refine ⟨takenSize.trans size.symm ▸ grownBounded.reach,fun past => ?_⟩
    have free := grownBounded.last (size.trans takenSize.symm ▸ past)
    exact (takenSlots word).mpr ⟨by omega,((scanned.slots word).mp free).resolve_left (by omega)⟩
  obtain ⟨spare,ended,sought',scanned'⟩ :=
    scanFrom_scanned bounded (show slot + 1 ≤ _ by omega) (by omega)
  have within := scanned.within
  have within' := scanned'.within
  have reached' := scanned'.reached
  refine ⟨slot,spare,{ended with next := spare % word},?_,?_⟩
  · unfold allocate
    rw [if_neg room,scanFrom_cursor valid.small,sought]
    dsimp only
    rw [show IdTable.scanFrom _ (slot + 1) = (ended,spare % word) from sought']
  · exact {
      positive := positive
      small := small
      within := within
      least := least
      unused := scanned.unused
      beyond := reached'
      bound := scanned'.small
      near := by omega
      between := fun other above below => by
        have used := scanned'.passed other above below
        rw [Bool.eq_false_iff,ne_eq,takenSlots] at used
        simpa [show other ≠ slot by omega] using used
      spare_unused := scanned'.unused.imp (fun free => ((takenSlots spare).mp free).2) (by omega)
      size := scanned'.size.trans (by omega)
      cursor := rfl
      claimed := scanned'.claimed.trans scanned.claimed
      limit := scanned'.limit.trans scanned.limit
      slots := fun other => by
        refine (scanned'.slots other).trans ?_
        rw [takenSlots]
        constructor
        · rintro (rfl | ⟨apart,free⟩)
          · exact ⟨by omega,.inl rfl⟩
          · exact ⟨apart,.inr free⟩
        · rintro ⟨apart,rfl | free⟩
          · exact .inl rfl
          · exact .inr ⟨apart,free⟩ }

theorem Spent.capacity (spent : t.Spent) (valid : t.Valid) : t.wrapped.capacity = word + 1 := by
  have long := spent.1
  have reach := valid.reach
  by_cases short : t.capacity = word
  · have pushed : t.wrapped.capacity = t.capacity + 1 := by simp only [wrapped,if_pos short]; exact Array.size_push true
    rw [pushed,short]
  · have same : t.wrapped.capacity = t.capacity := by simp only [wrapped,if_neg short]; rfl
    omega

theorem Spent.slots (spent : t.Spent) (valid : t.Valid) (slot : Nat) : t.wrapped.slotFree slot = true ↔ slot = word := by
  have long := spent.1
  have reach := valid.reach
  have only (free : t.slotFree slot = true) : word ≤ slot := Nat.le_of_not_lt fun below => by
    rw [spent.2 slot below] at free
    cases free
  by_cases short : t.capacity = word
  · have pushed : t.wrapped.slotFree slot = slotFree {t with free := t.free.push true} slot := by
      simp only [wrapped,if_pos short,slotFree]
    rw [pushed,slotFree_push,short]
    refine ⟨fun either => either.elim id fun free => ?_,.inl⟩
    have := only free
    have := slot_within free
    omega
  · have same : t.wrapped.slotFree slot = t.slotFree slot := by simp only [wrapped,if_neg short,slotFree]
    rw [same]
    refine ⟨fun free => ?_,fun here => here ▸ valid.last (by omega)⟩
    have := only free
    have := slot_within free
    omega

theorem set_same (t : IdTable) (used : t.slotFree slot = false) : t.free.setIfInBounds slot false = t.free := by
  refine Array.ext (by simp) fun i inside also => ?_
  rw [Array.getElem_setIfInBounds]
  split
  · subst i
    simpa [slotFree,also] using used.symm
  · rfl

theorem Spent.scanFrom (spent : t.Spent) (valid : t.Valid) (small : start ≤ word) :
    t.scanFrom start = ({t with free := t.wrapped.free},0) := by
  have reach := valid.reach
  have long := spent.1
  by_cases short : t.capacity = word
  · rw [scanFrom_none fun other _ => ?_,short,Nat.mod_self]
    · simp only [wrapped,if_pos short]
    · rw [Bool.eq_false_iff]
      intro free
      have inside := slot_within free
      rw [spent.2 other (by omega)] at free
      cases free
  · rw [scanFrom_first small (valid.last (by omega)) fun other _ below => spent.2 other below,Nat.mod_self]
    simp only [wrapped,if_neg short]

theorem allocate_wrapped (valid : t.Valid) (room : t.next ≠ t.limit) (spent : t.Spent) :
    t.allocate = .ok (.base,t.wrapped) := by
  have slots := spent.slots valid
  have used (slot : Nat) (below : slot < word) : t.wrapped.slotFree slot = false := by
    rw [Bool.eq_false_iff,ne_eq,slots]
    omega
  have same : t.wrapped.free.setIfInBounds 0 false = t.wrapped.free := set_same t.wrapped (used 0 (by decide))
  have next : IdTable.scanFrom {t with free := t.wrapped.free} 1 = ({t with free := t.wrapped.free},word % word) :=
    scanFrom_first (by decide) ((slots word).mpr rfl) fun other _ below => used other below
  unfold allocate
  rw [if_neg room,scanFrom_cursor valid.small,spent.scanFrom valid (Nat.le_of_lt valid.small)]
  dsimp only
  rw [same,next,Nat.mod_self]
  rfl

theorem allocate_ok (valid : t.Valid) (room : t.next ≠ t.limit) : ∃ id after, t.allocate = .ok (id,after) := by
  by_cases spent : t.Spent
  · exact ⟨_,_,allocate_wrapped valid room spent⟩
  · obtain ⟨slot,_,after,done,_⟩ := allocate_parts valid room spent
    exact ⟨_,after,done⟩

theorem allocated (valid : t.Valid) (done : t.allocate = .ok (id,after)) :
    (¬ t.Spent ∧ ∃ slot spare, id = .ofNat slot ∧ Allocated t slot spare after) ∨
      t.Spent ∧ id = .base ∧ after = t.wrapped := by
  by_cases spent : t.Spent
  · rw [allocate_wrapped valid (allocate_room done) spent] at done
    cases done
    exact .inr ⟨spent,rfl,rfl⟩
  · obtain ⟨slot,spare,next,ran,parts⟩ := allocate_parts valid (allocate_room done) spent
    rw [ran] at done
    cases done
    exact .inl ⟨spent,slot,spare,rfl,parts⟩

-- No call leaves a free slot below the cursor: reserving only steps past a slot
-- that it has just marked, new slots lie at the end, and releasing brings the
-- cursor down to the slot that it frees.

theorem cursor_moved (valid : t.Valid) (cursor : after.next = if t.next = id.order then (t.next + 1) % word else t.next) :
    after.next ≤ t.next + 1 ∧ (after.next = t.next + 1 → t.next = id.order) ∧ after.next < word := by
  have small := valid.small
  rw [cursor]
  split
  · rename_i here
    exact ⟨Nat.mod_le _ _,fun _ => here,Nat.mod_lt _ (by decide)⟩
  · omega

theorem reserve_valid (valid : t.Valid) (done : t.reserve id = .ok after) : after.Valid := by
  obtain ⟨nonzero,inside,size,claimed,_,cursor,slots⟩ := reserve_parts done
  have within := valid.within
  have named := id.order_lt
  obtain ⟨near,onto,small⟩ := cursor_moved valid cursor
  exact {
    reach := size ▸ valid.reach
    last := fun past => (slots word).mpr ⟨by omega,valid.last (size ▸ past)⟩
    nonempty := size ▸ valid.nonempty
    sentinel := by
      rw [Bool.eq_false_iff,ne_eq,slots,valid.sentinel]
      simp
    small := small
    within := by omega
    lowest := fun slot below => by
      rw [Bool.eq_false_iff,ne_eq,slots]
      rintro ⟨apart,free⟩
      rw [valid.lowest slot (by omega)] at free
      cases free
    ascending := claimed ▸ valid.ascending
    held := fun other member => by
      rw [claimed] at member
      obtain ⟨proper,bound,used⟩ := valid.held other member
      refine ⟨proper,by omega,?_⟩
      rw [Bool.eq_false_iff,ne_eq,slots,used]
      simp }

theorem release_valid (valid : t.Valid) (done : t.release id = .ok after) : after.Valid := by
  obtain ⟨nonzero,inside,size,claimed,_,cursor,slots⟩ := release_parts done
  have within := valid.within
  have small := valid.small
  have above := InstanceId.order_pos.mpr nonzero
  exact {
    reach := size ▸ valid.reach
    last := fun past => (slots word).mpr (.inr (valid.last (size ▸ past)))
    nonempty := size ▸ valid.nonempty
    sentinel := by
      rw [Bool.eq_false_iff,ne_eq,slots,valid.sentinel]
      simp
      omega
    small := by omega
    within := by omega
    lowest := fun slot below => by
      rw [Bool.eq_false_iff,ne_eq,slots]
      rintro (rfl | free)
      · omega
      · rw [valid.lowest slot (by omega)] at free
        cases free
    ascending := claimed ▸ valid.ascending.filter _
    held := fun other member => by
      rw [claimed,List.mem_filter] at member
      obtain ⟨proper,bound,used⟩ := valid.held other member.1
      refine ⟨proper,by omega,?_⟩
      rw [Bool.eq_false_iff,ne_eq,slots,used,InstanceId.order_inj]
      simpa using member.2 }

theorem claim_valid (valid : t.Valid) (done : t.claim id = .ok after) : after.Valid := by
  obtain ⟨_,nonzero,size,claimed,_,cursor,slots⟩ := claim_parts done
  have reach := valid.reach
  have within := valid.within
  have named := id.order_lt
  obtain ⟨near,onto,small⟩ := cursor_moved valid cursor
  exact {
    reach := by omega
    last := fun past => (slots word).mpr ⟨by omega,by
      by_cases old : word < t.capacity
      · exact .inl (valid.last old)
      · exact .inr (by omega)⟩
    nonempty := by omega
    sentinel := by
      have nonempty := valid.nonempty
      rw [Bool.eq_false_iff,ne_eq,slots,valid.sentinel]
      rintro ⟨_,free | new⟩
      · cases free
      · omega
    small := small
    within := by omega
    lowest := fun slot below => by
      rw [Bool.eq_false_iff,ne_eq,slots]
      rintro ⟨apart,free | ⟨new,_⟩⟩
      · rw [valid.lowest slot (by omega)] at free
        cases free
      · omega
    ascending := claimed ▸ insert_ascending valid.ascending
    held := fun other member => by
      rw [claimed] at member
      rcases (mem_insert valid.ascending).mp member with rfl | ⟨old,_⟩
      · refine ⟨nonzero,by omega,?_⟩
        rw [Bool.eq_false_iff,ne_eq,slots]
        simp
      · obtain ⟨proper,bound,used⟩ := valid.held other old
        refine ⟨proper,by omega,?_⟩
        rw [Bool.eq_false_iff,ne_eq,slots,used]
        rintro ⟨_,free | ⟨new,_⟩⟩
        · cases free
        · omega }

theorem Allocated.valid (parts : Allocated t slot spare after) (valid : t.Valid) : after.Valid := by
  have size := parts.size
  have reach := valid.reach
  have bound := parts.bound
  have beyond := parts.beyond
  have cut := Nat.mod_le spare word
  have used (other : Nat) (below : other < spare) : after.slotFree other = false := by
    rw [Bool.eq_false_iff,ne_eq,parts.slots]
    rintro ⟨apart,rfl | free⟩
    · omega
    · by_cases low : other < slot
      · rw [parts.least other low] at free
        cases free
      · rw [parts.between other (by omega) below] at free
        cases free
  exact {
    reach := by omega
    last := fun past => by
      have small := parts.small
      refine (parts.slots word).mpr ⟨by omega,?_⟩
      by_cases here : word = spare
      · exact .inl here
      · exact .inr (valid.last (by omega))
    nonempty := by omega
    sentinel := used 0 (by omega)
    small := parts.cursor ▸ Nat.mod_lt _ (by decide)
    within := by rw [parts.cursor]; omega
    lowest := fun other below => used other (by rw [parts.cursor] at below; omega)
    ascending := parts.claimed ▸ valid.ascending
    held := fun other member => by
      rw [parts.claimed] at member
      obtain ⟨proper,inside,taken⟩ := valid.held other member
      have present : other.order ≠ spare := by
        rintro rfl
        rcases parts.spare_unused with free | past
        · rw [taken] at free
          cases free
        · omega
      refine ⟨proper,by omega,?_⟩
      rw [Bool.eq_false_iff,ne_eq,parts.slots,taken]
      simp [present] }

theorem Spent.valid (spent : t.Spent) (valid : t.Valid) : t.wrapped.Valid := by
  have size := spent.capacity valid
  have slots := spent.slots valid
  exact {
    reach := Nat.le_of_eq size
    last := fun _ => (slots word).mpr rfl
    nonempty := by omega
    sentinel := by
      rw [Bool.eq_false_iff,ne_eq,slots]
      decide
    small := show 0 < word by decide
    within := Nat.zero_le _
    lowest := nofun
    ascending := valid.ascending
    held := fun other member => by
      obtain ⟨proper,_,_⟩ := valid.held other member
      have named := other.order_lt
      refine ⟨proper,by omega,?_⟩
      rw [Bool.eq_false_iff,ne_eq,slots]
      omega }

theorem allocate_valid (valid : t.Valid) (done : t.allocate = .ok (id,after)) : after.Valid := by
  rcases allocated valid done with ⟨_,slot,spare,_,parts⟩ | ⟨spent,_,rfl⟩
  · exact parts.valid valid
  · exact spent.valid valid

theorem claim_claimed (done : t.claim id = .ok after) {other : InstanceId} :
    other ∈ after.claimed ↔ other = id ∨ other ∈ t.claimed := by
  obtain ⟨unclaimed,_,_,claimed,_⟩ := claim_parts done
  rw [claimed]
  constructor
  · exact mem_of_insert
  · rintro (rfl | old)
    · exact mem_insert_self
    · refine mem_insert_of_ne old fun same => ?_
      rw [InstanceId.order_inj] at same
      exact unclaimed (same ▸ old)

theorem allocate_claimed (valid : t.Valid) (done : t.allocate = .ok (id,after)) :
    after.claimed = t.claimed := by
  rcases allocated valid done with ⟨_,_,_,_,parts⟩ | ⟨_,_,rfl⟩
  · exact parts.claimed
  · rfl

inductive Step (t : IdTable) : IdTable → Prop where
  | reserve {used later} : t.reserve used = .ok later → Step t later
  | claim {taken later} : t.claim taken = .ok later → Step t later
  | release {given later} : t.release given = .ok later → Step t later
  | allocate {fresh later} : t.allocate = .ok (fresh,later) → Step t later

theorem Step.valid (valid : t.Valid) (step : Step t after) : after.Valid := by
  cases step with
  | reserve done => exact reserve_valid valid done
  | claim done => exact claim_valid valid done
  | release done => exact release_valid valid done
  | allocate done => exact allocate_valid valid done

theorem Step.frame (valid : t.Valid) (step : Step t after) :
    after.limit = t.limit ∧ t.capacity ≤ after.capacity := by
  cases step with
  | reserve done =>
    obtain ⟨_,_,size,_,limit,_⟩ := reserve_parts done
    exact ⟨limit,by omega⟩
  | claim done =>
    obtain ⟨_,_,size,_,limit,_⟩ := claim_parts done
    exact ⟨limit,by omega⟩
  | release done =>
    obtain ⟨_,_,size,_,limit,_⟩ := release_parts done
    exact ⟨limit,by omega⟩
  | allocate done =>
    rcases allocated valid done with ⟨_,slot,spare,_,parts⟩ | ⟨spent,_,rfl⟩
    · have size := parts.size
      exact ⟨parts.limit,by omega⟩
    · have size := spent.capacity valid
      have reach := valid.reach
      exact ⟨rfl,by omega⟩

end IdTable
end LiveMaps
