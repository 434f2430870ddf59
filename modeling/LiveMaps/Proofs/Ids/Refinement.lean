import LiveMaps.Proofs.Ids.Space

namespace LiveMaps.IdTable
variable {t after : IdTable} {id : InstanceId} {slot start count : Nat}

def space (t : IdTable) : IdSpace where
  used := {slot ∈ Finset.range t.capacity | 0 < slot ∧ t.slotFree slot = false}
  claimed := (t.claimed.map InstanceId.order).toFinset
  length := t.capacity

theorem mem_used : slot ∈ t.space.used ↔ slot < t.capacity ∧ 0 < slot ∧ t.slotFree slot = false := by
  simp [space]

theorem mem_claimed : id.order ∈ t.space.claimed ↔ id ∈ t.claimed := by
  simp [space,InstanceId.order_inj]

theorem limited_space (limit highest : Nat) : (limited limit highest).space = .ofHighest highest := by
  have used : (limited limit highest).space.used = ∅ := by
    refine Finset.eq_empty_of_forall_notMem fun slot member => ?_
    obtain ⟨inside,positive,used⟩ := mem_used.mp member
    rw [limited_capacity] at inside
    rw [(limited_slots limit highest slot).mpr ⟨positive,inside⟩] at used
    cases used
  have length : (limited limit highest).space.length = highest + 2 := limited_capacity limit highest
  have claimed : (limited limit highest).space.claimed = ∅ := rfl
  exact IdSpace.ext used claimed length

theorem sized_space (highest : Nat) : (sized highest).space = .ofHighest highest := limited_space largestId highest

-- Nothing free lies below the cursor, so what is handed out is the least positive
-- identifier that is not in use, and the cursor comes to stand on the next one.
theorem Allocated.first (parts : Allocated t slot spare after) :
    IdSpace.firstUnused t.space.used 1 = slot := by
  refine IdSpace.firstUnused_eq parts.positive ?_ ?_
  · rw [mem_used]
    rintro ⟨inside,_,used⟩
    rcases parts.unused with free | past
    · rw [used] at free; cases free
    · omega
  · intro other positive below
    have := parts.within
    exact mem_used.mpr ⟨by omega,positive,parts.least other below⟩

theorem Allocated.next (parts : Allocated t slot spare after) :
    IdSpace.firstUnused t.space.used (slot + 1) = spare := by
  refine IdSpace.firstUnused_eq parts.beyond ?_ ?_
  · rw [mem_used]
    rintro ⟨inside,_,used⟩
    rcases parts.spare_unused with free | past
    · rw [used] at free; cases free
    · omega
  · intro other above below
    have := parts.near
    exact mem_used.mpr ⟨by omega,by omega,parts.between other above below⟩

theorem Allocated.space (parts : Allocated t slot spare after) :
    after.space = ⟨insert slot t.space.used,t.space.claimed,max t.space.length (spare + 1)⟩ := by
  have used : after.space.used = insert slot t.space.used := by
    ext other
    have within := parts.within
    have near := parts.near
    have positive := parts.positive
    have beyond := parts.beyond
    rw [Finset.mem_insert,mem_used,mem_used,parts.size,Bool.eq_false_iff,ne_eq,parts.slots]
    constructor
    · rintro ⟨inside,above,used⟩
      by_cases same : other = slot
      · exact .inl same
      · have unused : t.slotFree other = false := by
          rw [Bool.eq_false_iff]
          exact fun free => used ⟨same,.inr free⟩
        have apart : other ≠ spare := fun same' => used ⟨same,.inl same'⟩
        exact .inr ⟨by omega,above,unused⟩
    · rintro (rfl | ⟨inside,above,used⟩)
      · exact ⟨by omega,positive,fun taken => taken.1 rfl⟩
      · refine ⟨by omega,above,?_⟩
        rintro ⟨apart,rfl | free⟩
        · rcases parts.spare_unused with free | past
          · rw [used] at free; cases free
          · omega
        · rw [used] at free; cases free
  have claimed : after.space.claimed = t.space.claimed := by simp only [IdTable.space,parts.claimed]
  have length : after.space.length = max t.space.length (spare + 1) := parts.size
  rw [←used,←claimed,←length]

theorem reserve_space (done : t.reserve id = .ok after) :
    after.space = {t.space with used := insert id.order t.space.used} := by
  obtain ⟨nonzero,inside,size,claimed,_,_,slots⟩ := reserve_parts done
  have positive := InstanceId.order_pos.mpr nonzero
  have used : after.space.used = insert id.order t.space.used := by
    ext slot
    rw [Finset.mem_insert,mem_used,mem_used,size,Bool.eq_false_iff,ne_eq,slots]
    by_cases same : slot = id.order
    · subst same; simp [inside,positive]
    · simp [same]
  have members : after.space.claimed = t.space.claimed := by simp only [space,claimed]
  have length : after.space.length = t.space.length := size
  rw [←used]
  dsimp only
  rw [←members,←length]

theorem claim_space (valid : t.Valid) (done : t.claim id = .ok after) :
    after.space = ⟨insert id.order t.space.used,insert id.order t.space.claimed,
      max t.space.length (id.order + 2)⟩ := by
  obtain ⟨_,nonzero,size,claimed,_,_,slots⟩ := claim_parts done
  have positive := InstanceId.order_pos.mpr nonzero
  have used : after.space.used = insert id.order t.space.used := by
    ext slot
    rw [Finset.mem_insert,mem_used,mem_used,size,Bool.eq_false_iff,ne_eq,slots]
    by_cases same : slot = id.order
    · subst same; simp [positive]
    · constructor
      · rintro ⟨inside,above,used⟩
        have unused : t.slotFree slot = false := by
          rw [Bool.eq_false_iff]
          exact fun free => used ⟨same,.inl free⟩
        by_cases old : slot < t.capacity
        · exact .inr ⟨old,above,unused⟩
        · exact absurd ⟨same,.inr ⟨by omega,by omega⟩⟩ used
      · rintro (equal | ⟨inside,above,used⟩)
        · exact absurd equal same
        · refine ⟨by omega,above,?_⟩
          rintro ⟨_,free | ⟨new,_⟩⟩
          · rw [used] at free; cases free
          · omega
  have members : after.space.claimed = insert id.order t.space.claimed := by
    ext n
    simp only [space,claimed,List.mem_toFinset,List.mem_map,Finset.mem_insert]
    constructor
    · rintro ⟨other,member,rfl⟩
      rcases (Ordered.mem_insert valid.ascending).mp member with rfl | ⟨old,_⟩
      · exact .inl rfl
      · exact .inr ⟨other,old,rfl⟩
    · rintro (rfl | ⟨other,old,rfl⟩)
      · exact ⟨id,Ordered.mem_insert_self,rfl⟩
      · by_cases same : other.order = id.order
        · exact ⟨id,Ordered.mem_insert_self,same.symm⟩
        · exact ⟨other,(Ordered.mem_insert valid.ascending).mpr (.inr ⟨old,same⟩),rfl⟩
  have length : after.space.length = max t.space.length (id.order + 2) := size
  rw [←used,←members,←length]

theorem release_space (done : t.release id = .ok after) :
    after.space = ⟨t.space.used.erase id.order,t.space.claimed.erase id.order,t.space.length⟩ := by
  obtain ⟨_,_,size,claimed,_,_,slots⟩ := release_parts done
  have used : after.space.used = t.space.used.erase id.order := by
    ext slot
    rw [Finset.mem_erase,mem_used,mem_used,size,Bool.eq_false_iff,ne_eq,slots]
    simp only [not_or,Bool.not_eq_true,ne_eq]
    tauto
  have members : after.space.claimed = t.space.claimed.erase id.order := by
    ext n
    simp only [space,claimed,List.mem_toFinset,List.mem_map,List.mem_filter,Finset.mem_erase,bne_iff_ne]
    constructor
    · rintro ⟨other,⟨member,apart⟩,rfl⟩
      exact ⟨fun same => apart (InstanceId.order_inj.mp same),other,member,rfl⟩
    · rintro ⟨apart,other,member,rfl⟩
      exact ⟨other,⟨member,fun same => apart (congrArg InstanceId.order same)⟩,rfl⟩
  have length : after.space.length = t.space.length := size
  rw [←used,←members,←length]

theorem short_unspent (short : t.capacity < largestId) : ¬ t.Spent := fun spent => by
  have long := spent.1
  unfold word at long
  unfold largestId at short
  omega

-- One call on the table is one call on its space, as long as the cursor cannot
-- stand on the limit.
theorem call_space (valid : t.Valid) (largest : t.limit = largestId) (short : t.capacity < largestId) (call : IdCall) :
    t.space.call call = ((t.call call).1.space,(t.call call).2) := by
  have length : t.space.length = t.capacity := rfl
  cases call with
  | reserve id =>
    simp only [IdSpace.call,IdTable.call,length]
    by_cases zero : id = .base
    · subst zero
      rw [reserve_base,if_pos rfl]
      rfl
    · rw [if_neg zero]
      by_cases past : t.capacity ≤ id.order
      · rw [reserve_past zero past,if_pos past]
        rfl
      · have done := reserve_ok zero (Nat.lt_of_not_le past)
        rw [done,if_neg past]
        exact congrArg (·,_) (reserve_space done).symm
  | claim id =>
    simp only [IdSpace.call,IdTable.call,length,mem_claimed]
    by_cases taken : id ∈ t.claimed
    · rw [claim_taken taken,if_pos taken]
      rfl
    · rw [if_neg taken]
      by_cases zero : id = .base
      · subst zero
        rw [claim_base taken,if_pos rfl]
        rfl
      · obtain ⟨after,done⟩ := claim_ok taken zero
        rw [done,if_neg zero]
        exact congrArg (·,_) (claim_space valid done).symm
  | release id =>
    simp only [IdSpace.call,IdTable.call,length]
    by_cases zero : id = .base
    · subst zero
      rw [release_base,if_pos rfl]
      rfl
    · rw [if_neg zero]
      by_cases past : t.capacity ≤ id.order
      · rw [release_past zero past,if_pos past]
        rfl
      · have done := release_ok zero (Nat.lt_of_not_le past)
        rw [done,if_neg past]
        exact congrArg (·,_) (release_space done).symm
  | allocate =>
    have within := valid.within
    obtain ⟨slot,spare,after,done,parts⟩ := allocate_parts valid (by omega) (short_unspent short)
    simp only [IdSpace.call,IdTable.call,done,parts.first,parts.next]
    exact congrArg (·,_) parts.space.symm

theorem call_step (t : IdTable) (call : IdCall) :
    (∃ e, t.call call = (t,.error e)) ∨
      (∃ answer, (t.call call).2 = .ok answer) ∧ Step t (t.call call).1 := by
  have answered (result : Except IdError IdTable) (step : ∀ after, result = .ok after → Step t after) :
      (∃ e, t.answer result = (t,.error e)) ∨
        (∃ answer, (t.answer result).2 = .ok answer) ∧ Step t (t.answer result).1 := by
    cases result with
    | ok after => exact .inr ⟨⟨_,rfl⟩,step after rfl⟩
    | error e => exact .inl ⟨e,rfl⟩
  cases call with
  | reserve id => exact answered _ fun _ => .reserve
  | claim id => exact answered _ fun _ => .claim
  | release id => exact answered _ fun _ => .release
  | allocate =>
    simp only [IdTable.call]
    split
    · rename_i done
      exact .inr ⟨⟨_,rfl⟩,.allocate done⟩
    · exact .inl ⟨_,rfl⟩

theorem call_valid (valid : t.Valid) (call : IdCall) : (t.call call).1.Valid := by
  rcases call_step t call with ⟨e,failed⟩ | ⟨_,step⟩
  · rwa [failed]
  · exact step.valid valid

theorem call_frame (valid : t.Valid) (call : IdCall) :
    (t.call call).1.limit = t.limit ∧ t.capacity ≤ (t.call call).1.capacity := by
  rcases call_step t call with ⟨e,failed⟩ | ⟨_,step⟩
  · rw [failed]
    exact ⟨rfl,Nat.le_refl _⟩
  · exact step.frame valid

theorem call_failed {call : IdCall} (failed : (t.call call).2 = .error e) : (t.call call).1 = t := by
  rcases call_step t call with ⟨_,unchanged⟩ | ⟨⟨answer,done⟩,_⟩
  · rw [unchanged]
  · rw [done] at failed
    cases failed

-- In place, the slots that a call touches are all there, and nothing wraps.

theorem write?_eq (t : IdTable) (inside : slot < t.capacity) (value : Bool) :
    t.write? slot value = some {t with free := t.free.setIfInBounds slot value} := if_pos inside

theorem seek?_eq (bits : Array Bool) (inside : start + count ≤ bits.size) :
    seek? bits count start = some (scan bits count start) := by
  induction count generalizing start with
  | zero => rfl
  | succ count ih =>
    have here : bits[start]? = some (bits.getD start false) := by
      rw [Array.getD_eq_getD_getElem?,Array.getElem?_eq_getElem (by omega)]
      rfl
    simp only [seek?,scan,here,Option.bind_eq_bind,Option.bind_some]
    split
    · rfl
    · exact ih (by omega)

theorem seekFrom?_eq (t : IdTable) (inside : start ≤ t.capacity) : t.seekFrom? start = some (t.scanFrom start) := by
  unfold seekFrom?
  rw [seek?_eq t.free (by unfold capacity at *; omega)]
  unfold scanFrom
  unfold capacity at *
  simp only [Option.bind_eq_bind,Option.bind_some]
  cases found : scan t.free (t.free.size - start) start with
  | none => rfl
  | some slot => rfl

theorem reserveInPlace?_eq (t : IdTable) (id : InstanceId) (short : t.next = id.order → t.next + 1 < word) :
    t.reserveInPlace? id = some (t.call (.reserve id)) := by
  simp only [reserveInPlace?,IdTable.call,InstanceId.isBase_iff]
  by_cases zero : id = .base
  · subst zero
    rw [if_pos rfl,reserve_base]
    rfl
  · rw [if_neg zero]
    by_cases past : t.capacity ≤ id.order
    · rw [if_pos past,reserve_past zero past]
      rfl
    · have inside := Nat.lt_of_not_le past
      rw [if_neg past,reserve_ok zero inside,write?_eq t inside]
      simp only [Option.bind_eq_bind,Option.bind_some]
      split
      · rename_i here
        rw [if_pos (short here),Nat.mod_eq_of_lt (short here)]
        rfl
      · rfl

theorem claimInPlace?_eq (t : IdTable) (id : InstanceId) (short : t.next = id.order → t.next + 1 < word) :
    t.claimInPlace? id = some (t.call (.claim id)) := by
  simp only [claimInPlace?,IdTable.call,InstanceId.isBase_iff]
  by_cases taken : id ∈ t.claimed
  · rw [if_pos (isClaimed_iff.mpr taken),claim_taken taken]
    rfl
  · rw [if_neg (by rwa [isClaimed_iff])]
    by_cases zero : id = .base
    · subst zero
      rw [if_pos rfl,reserveInPlace?_eq t .base short,claim_base taken]
      simp only [IdTable.call,reserve_base]
      rfl
    · have size := (grow_parts t (id.order + 2)).1
      have took := reserve_ok (t := t.grow (id.order + 2)) zero (by omega)
      rw [if_neg zero,reserveInPlace?_eq (t.grow (id.order + 2)) id short]
      unfold claim
      rw [if_neg (by rwa [isClaimed_iff]),if_neg (by simpa using zero)]
      simp only [IdTable.call,took]
      rfl

theorem releaseInPlace?_eq (t : IdTable) (id : InstanceId) :
    t.releaseInPlace? id = some (t.call (.release id)) := by
  simp only [releaseInPlace?,IdTable.call,InstanceId.isBase_iff]
  by_cases zero : id = .base
  · subst zero
    rw [if_pos rfl,release_base]
    rfl
  · rw [if_neg zero]
    by_cases past : t.capacity ≤ id.order
    · rw [if_pos past,release_past zero past]
      rfl
    · have inside := Nat.lt_of_not_le past
      rw [if_neg past,release_ok zero inside,
        write?_eq {t with next := min t.next id.order} inside]
      rfl

theorem firstSlot?_eq (valid : t.Valid) : t.firstSlot? = some (t.scanFrom t.next) := by
  unfold firstSlot?
  rw [seekFrom?_eq t valid.within,←apply_ite some,scanFrom_cursor valid.small]

theorem scanFrom_moved (t : IdTable) (cursor start : Nat) :
    scanFrom {t with next := cursor} start =
      ({(t.scanFrom start).1 with next := cursor},(t.scanFrom start).2) := by
  unfold scanFrom
  dsimp only
  split <;> rfl

theorem allocateInPlace?_eq (valid : t.Valid) : t.allocateInPlace? = some (t.call .allocate) := by
  unfold allocateInPlace?
  simp only [IdTable.call]
  by_cases full : t.next = t.limit
  · rw [if_pos full,allocate_exhausted full]
  · obtain ⟨found,grown,sought,scanned⟩ := scanFrom_scanned valid.toBounded valid.within (Nat.le_of_lt valid.small)
    have size := scanned.size
    have cut := Nat.mod_le found word
    let slot := found % word
    have inside : slot < grown.capacity := by omega
    let taken : IdTable := {grown with free := grown.free.setIfInBounds slot false}
    have takenSize : taken.capacity = grown.capacity := capacity_set grown slot false
    have written : write? {grown with next := slot} slot false = some {taken with next := slot} :=
      write?_eq {grown with next := slot} inside false
    have sought' : seekFrom? {taken with next := slot} (slot + 1) =
        some ({(taken.scanFrom (slot + 1)).1 with next := slot},(taken.scanFrom (slot + 1)).2) := by
      rw [seekFrom?_eq {taken with next := slot} (takenSize.symm ▸ inside),scanFrom_moved]
    unfold allocate
    rw [if_neg full,if_neg full,scanFrom_cursor valid.small,firstSlot?_eq valid,sought]
    simp only [Option.bind_eq_bind,Option.bind_some]
    rw [written]
    simp only [Option.bind_some]
    rw [sought']
    rfl

theorem perform?_eq (valid : t.Valid) (short : t.capacity < largestId) (call : IdCall) :
    t.perform? call = some (t.call call) := by
  have within := valid.within
  have room : t.capacity + 1 < word := by unfold largestId at short; unfold word; omega
  cases call with
  | reserve id => exact reserveInPlace?_eq t id fun _ => by omega
  | claim id => exact claimInPlace?_eq t id fun _ => by omega
  | release id => exact releaseInPlace?_eq t id
  | allocate => exact allocateInPlace?_eq valid

-- A run in which no state, the last one included, has as many slots as the limit.
def StaysShort (t : IdTable) : List IdCall → Prop
  | [] => t.capacity < largestId
  | call :: rest => t.capacity < largestId ∧ (t.call call).1.StaysShort rest

instance StaysShort.decidable (t : IdTable) (calls : List IdCall) : Decidable (t.StaysShort calls) :=
  match calls with
  | [] => inferInstanceAs (Decidable (t.capacity < largestId))
  | call :: rest =>
    have := StaysShort.decidable (t.call call).1 rest
    inferInstanceAs (Decidable (t.capacity < largestId ∧ (t.call call).1.StaysShort rest))

theorem run_space (valid : t.Valid) (largest : t.limit = largestId) (short : t.StaysShort calls)
    (ran : IdCall.run IdTable.call t calls = (after,answers)) :
    IdCall.run IdSpace.call t.space calls = (after.space,answers) ∧ after.Valid ∧
      after.limit = largestId ∧ after.capacity < largestId := by
  induction calls generalizing t answers with
  | nil =>
    cases ran
    exact ⟨rfl,valid,largest,short⟩
  | cons call rest ih =>
    obtain ⟨here,later⟩ := short
    simp only [IdCall.run] at ran ⊢
    cases ran
    rw [call_space valid largest here call]
    obtain ⟨same,facts⟩ :=
      ih (call_valid valid call) ((call_frame valid call).1.trans largest) later rfl
    simp only [same]
    exact ⟨trivial,facts⟩

theorem space_claimed_subset (valid : t.Valid) : t.space.claimed ⊆ t.space.used := by
  intro n member
  simp only [space,List.mem_toFinset,List.mem_map] at member
  obtain ⟨id,claimed,rfl⟩ := member
  obtain ⟨nonzero,inside,used⟩ := valid.held id claimed
  exact mem_used.mpr ⟨inside,InstanceId.order_pos.mpr nonzero,used⟩

theorem slotFree_space (valid : t.Valid) : t.slotFree slot = true ↔
    0 < slot ∧ slot < t.space.length ∧ slot ∉ t.space.used := by
  rw [mem_used]
  constructor
  · intro free
    refine ⟨Nat.pos_of_ne_zero fun zero => ?_,slot_within free,fun ⟨_,_,used⟩ => ?_⟩
    · rw [zero,valid.sentinel] at free
      cases free
    · rw [used] at free
      cases free
  · rintro ⟨above,inside,unused⟩
    exact Bool.eq_true_of_not_eq_false fun used => unused ⟨inside,above,used⟩

theorem isFree_space (valid : t.Valid) : t.isFree id = true ↔
    0 < id.order ∧ id.order < t.space.length ∧ id.order ∉ t.space.used := slotFree_space valid

def Spare (t : IdTable) : Prop := ∃ id : InstanceId, id ≠ .base ∧ id.order ∉ t.space.used

theorem Valid.next_le (valid : t.Valid) (positive : 0 < slot) (unused : slot ∉ t.space.used) :
    t.next ≤ slot := by
  have within := valid.within
  by_contra passed
  exact unused (mem_used.mpr ⟨by omega,positive,valid.lowest slot (by omega)⟩)

theorem Valid.unclaimed (valid : t.Valid) (unused : id.order ∉ t.space.used) : id ∉ t.claimed :=
  fun claimed => unused (space_claimed_subset valid (mem_claimed.mpr claimed))

theorem spent_iff (valid : t.Valid) : t.Spent ↔ ¬ t.Spare := by
  constructor
  · rintro spent ⟨id,proper,unused⟩
    have long := spent.1
    have named := id.order_lt
    exact unused (mem_used.mpr ⟨by omega,InstanceId.order_pos.mpr proper,spent.2 _ named⟩)
  · intro none
    have all (slot : Nat) (positive : 0 < slot) (small : slot < word) : slot ∈ t.space.used := by
      have number : (InstanceId.ofNat slot).order = slot := InstanceId.order_ofNat small
      by_contra unused
      exact none ⟨.ofNat slot,InstanceId.order_pos.mp (number.symm ▸ positive),number.symm ▸ unused⟩
    refine ⟨?_,fun slot small => ?_⟩
    · have last := (mem_used.mp (all (word - 1) (by decide) (by decide))).1
      omega
    · by_cases zero : slot = 0
      · rw [zero,valid.sentinel]
      · exact (mem_used.mp (all slot (Nat.pos_of_ne_zero zero) small)).2.2

-- Only with none spare is the identifier of the base maps handed out.
theorem allocate_base (valid : t.Valid) (done : t.allocate = .ok (id,after)) : id = .base ↔ ¬ t.Spare := by
  rw [←spent_iff valid]
  rcases allocated valid done with ⟨left,slot,_,rfl,parts⟩ | ⟨spent,rfl,_⟩
  · have number : (InstanceId.ofNat slot).order = slot := InstanceId.order_ofNat parts.small
    exact iff_of_false (InstanceId.order_pos.mp (number.symm ▸ parts.positive)) left
  · exact iff_of_true rfl spent

-- As long as one is spare, the identifier handed out is the least unused one, and
-- nothing keeps it from being claimed.
theorem allocate_spare (valid : t.Valid) (left : t.Spare) (done : t.allocate = .ok (id,after)) :
    id ≠ .base ∧ IsLeast {n | 0 < n ∧ n ∉ t.space.used} id.order ∧
      after.space.used = insert id.order t.space.used ∧ after.space.claimed = t.space.claimed ∧
      ∃ ids, after.claim id = .ok ids := by
  rcases allocated valid done with ⟨_,slot,spare,rfl,parts⟩ | ⟨spent,_⟩
  · have least := IdSpace.firstUnused_isLeast t.space.used 1
    rw [parts.first] at least
    have number : (InstanceId.ofNat slot).order = slot := InstanceId.order_ofNat parts.small
    have fresh : InstanceId.ofNat slot ≠ .base := InstanceId.order_pos.mp (number.symm ▸ parts.positive)
    have unclaimed : InstanceId.ofNat slot ∉ after.claimed := by
      rw [parts.claimed]
      exact valid.unclaimed (number.symm ▸ least.1.2)
    rw [number,parts.space]
    exact ⟨fresh,least,rfl,rfl,claim_ok unclaimed fresh⟩
  · exact absurd left ((spent_iff valid).mp spent)

theorem allocate_spent (valid : t.Valid) (none : ¬ t.Spare) (room : t.next ≠ t.limit) :
    t.allocate = .ok (.base,t.wrapped) ∧ t.wrapped.Valid ∧ t.wrapped.limit = t.limit ∧
      t.wrapped.space = {t.space with length := word + 1} ∧ t.wrapped.claim .base = .error .sentinel := by
  have spent := (spent_iff valid).mpr none
  have next := spent.valid valid
  have size := spent.capacity valid
  have used : t.wrapped.space.used = t.space.used := by
    ext slot
    have long := spent.1
    have reach := valid.reach
    rw [mem_used,mem_used,Bool.eq_false_iff,ne_eq,spent.slots valid,size]
    constructor
    · rintro ⟨inside,positive,small⟩
      exact ⟨by omega,positive,spent.2 slot (by omega)⟩
    · rintro ⟨inside,positive,taken⟩
      refine ⟨by omega,positive,fun here => ?_⟩
      rw [here,valid.last (by omega)] at taken
      cases taken
  refine ⟨allocate_wrapped valid room spent,next,rfl,?_,claim_base fun base => (valid.held _ base).1 rfl⟩
  exact IdSpace.ext used rfl size

theorem allocate_cases (valid : t.Valid) (done : t.allocate = .ok (id,after)) :
    (id ≠ .base ∧ IsLeast {n | 0 < n ∧ n ∉ t.space.used} id.order ∧
      after.space.used = insert id.order t.space.used ∧ after.space.claimed = t.space.claimed ∧
      ∃ ids, after.claim id = .ok ids) ∨
    (id = .base ∧ ¬ t.Spare ∧ after = t.wrapped ∧ after.space = {t.space with length := word + 1} ∧
      after.claim id = .error .sentinel) := by
  by_cases left : t.Spare
  · exact .inl (allocate_spare valid left done)
  · obtain ⟨ran,_,_,space,stuck⟩ := allocate_spent valid left (allocate_room done)
    rw [ran] at done
    cases done
    exact .inr ⟨rfl,left,rfl,space,stuck⟩

theorem allocate_space (valid : t.Valid) (largest : t.limit = largestId)
    (short : t.capacity < largestId) :
    ∃ id after, t.allocate = .ok (id,after) ∧ id ≠ .base ∧
      IsLeast {n | 0 < n ∧ n ∉ t.space.used} id.order ∧
      after.space.used = insert id.order t.space.used ∧ after.space.claimed = t.space.claimed := by
  have within := valid.within
  obtain ⟨id,after,done⟩ := allocate_ok valid (by omega)
  have left : t.Spare := not_not.mp ((spent_iff valid).not.mp (short_unspent short))
  obtain ⟨fresh,least,used,claimed,_⟩ := allocate_spare valid left done
  exact ⟨id,after,done,fresh,least,used,claimed⟩

theorem allocate_after_release (valid : t.Valid) (largest : t.limit = largestId)
    (short : t.capacity < largestId) (done : t.release given = .ok after) :
    ∃ id later, after.allocate = .ok (id,later) ∧ id.order ≤ given.order := by
  obtain ⟨nonzero,_,size,_,limit,_⟩ := release_parts done
  obtain ⟨id,later,next,_,least,_⟩ :=
    allocate_space (release_valid valid done) (limit.trans largest) (by omega)
  refine ⟨id,later,next,least.2 ⟨InstanceId.order_pos.mpr nonzero,?_⟩⟩
  rw [release_space done]
  exact Finset.notMem_erase _ _

-- The table against the space, over every run that stays short: the same answers all along, computed
-- without an access past the end of the table.
theorem sized_run_refines (highest : UInt32) (calls : List IdCall)
    (short : (sized highest.toNat).StaysShort calls) :
    ∃ t answers, IdCall.run IdTable.call (sized highest.toNat) calls = (t,answers) ∧
      IdCall.run IdSpace.call (.ofHighest highest.toNat) calls = (t.space,answers) ∧
      t.space.claimed ⊆ t.space.used ∧
      (∀ slot ∈ t.space.used, 0 < slot ∧ slot < t.space.length) ∧
      (∀ id, t.isFree id = true ↔
        0 < id.order ∧ id.order < t.space.length ∧ id.order ∉ t.space.used) ∧
      (∀ call, t.space.call call = ((t.call call).1.space,(t.call call).2) ∧
        t.perform? call = some (t.call call) ∧
        t.space.length ≤ (t.call call).1.space.length ∧
        ∀ e, (t.call call).2 = .error e → (t.call call).1 = t) ∧
      (∃ id after, t.allocate = .ok (id,after) ∧ id ≠ .base ∧
        IsLeast {n | 0 < n ∧ n ∉ t.space.used} id.order ∧
        after.space.used = insert id.order t.space.used ∧ after.space.claimed = t.space.claimed) ∧
      ∀ given after, t.release given = .ok after →
        ∃ id later, after.allocate = .ok (id,later) ∧ id.order ≤ given.order := by
  obtain ⟨t,answers,ran⟩ : ∃ t answers,
      IdCall.run IdTable.call (sized highest.toNat) calls = (t,answers) := ⟨_,_,rfl⟩
  obtain ⟨same,valid,largest,small⟩ := run_space (sized_valid highest.toNat_lt) rfl short ran
  rw [sized_space] at same
  refine ⟨t,answers,ran,same,space_claimed_subset valid,?_,fun id => isFree_space valid,?_,
    allocate_space valid largest small,fun given after done => ?_⟩
  · intro slot used
    obtain ⟨inside,above,_⟩ := mem_used.mp used
    exact ⟨above,inside⟩
  · intro call
    exact ⟨call_space valid largest small call,perform?_eq valid small call,
      (call_frame valid call).2,fun e failed => call_failed failed⟩
  · exact allocate_after_release valid largest small done

theorem sized_run_refines_mixed :
    let calls := [.allocate,.claim ⟨9⟩,.reserve ⟨2⟩,.claim ⟨9⟩,.release ⟨1⟩,.release ⟨40⟩,.allocate]
    (sized 2).StaysShort calls ∧ IdCall.run IdSpace.call (.ofHighest 2) calls =
      ((IdCall.run IdTable.call (sized 2) calls).1.space,(IdCall.run IdTable.call (sized 2) calls).2) := by
  intro calls
  have short : (sized 2).StaysShort calls := by decide
  obtain ⟨t,answers,ran,same,_⟩ := sized_run_refines 2 calls short
  rw [show sized 2 = sized (2 : UInt32).toNat from rfl,ran]
  exact ⟨short,same⟩

end LiveMaps.IdTable
