import LiveMaps.Proofs.Ids.Handouts
import LiveMaps.Proofs.Saved.Numbering
import LiveMaps.World.Resolve

namespace LiveMaps

theorem SavedState.highestId_lt (s : SavedState) : s.highestId < IdTable.word := by
  rcases s.highestId_attained with none | ⟨r,_,same⟩
  · rw [none]
    decide
  · rw [←same]
    exact r.id.order_lt

namespace World
open IdTable
variable {w : World} {s : SavedState}

theorem registerAll_marks {ids : List InstanceId} (w : World) (valid : w.ids.Valid)
    (known : ∀ id ∈ ids, id ≠ .base ∧ id.order < w.ids.capacity) :
    ∃ t, w.registerAll ids = ({w with ids := t},.ok ()) ∧ t.Valid ∧ t.limit = w.ids.limit ∧
      t.space = {w.ids.space with used := (ids.map InstanceId.order).toFinset ∪ w.ids.space.used} := by
  induction ids generalizing w with
  | nil => exact ⟨w.ids,rfl,valid,rfl,by simp⟩
  | cons id rest ih =>
    obtain ⟨proper,inside⟩ := known id List.mem_cons_self
    obtain ⟨first,done⟩ : ∃ first, w.ids.reserve id = .ok first := ⟨_,reserve_ok proper inside⟩
    obtain ⟨_,_,size,_,limit,_⟩ := reserve_parts done
    obtain ⟨t,ran,kept,same,space⟩ := ih {w with ids := first} (reserve_valid valid done) fun other member => by
      obtain ⟨proper,inside⟩ := known other (List.mem_cons_of_mem _ member)
      exact ⟨proper,size.symm ▸ inside⟩
    refine ⟨t,?_,kept,same.trans limit,?_⟩
    · unfold registerAll registerId
      rw [done]
      exact ran
    · rw [space,reserve_space done]
      simp

theorem replaySaved_marks (numbered : w.saved.Numbered) : ∃ t, w.replaySaved =
      ({w with
        ids := t
        journal := w.journal ++ [.idsReplayed w.saved.instances.length w.saved.highestId] },
      .ok w.saved.instances.length) ∧ t.Valid ∧ t.limit = largestId ∧
      t.space = ⟨(w.saved.instances.map InstanceRecord.order).toFinset,∅,w.saved.highestId + 2⟩ := by
  have size : (sized w.saved.highestId).capacity = w.saved.highestId + 2 := limited_capacity _ _
  have known (id : InstanceId) (member : id ∈ w.saved.instances.map InstanceRecord.id) :
      id ≠ .base ∧ id.order < (sized w.saved.highestId).capacity := by
    obtain ⟨r,among,rfl⟩ := List.mem_map.mp member
    have bound : r.id.order ≤ w.saved.highestId := SavedState.order_le_highestId among
    exact ⟨InstanceId.isBase_eq_false.mp (numbered.proper r among),by omega⟩
  obtain ⟨t,ran,valid,limit,space⟩ :=
    registerAll_marks (w.initIds w.saved.highestId) (sized_valid w.saved.highestId_lt) known
  refine ⟨t,?_,valid,limit,?_⟩
  · unfold replaySaved replay
    rw [ran,List.length_map]
    rfl
  · rw [space]
    simp only [initIds,sized_space,IdSpace.ofHighest,Finset.union_empty,List.map_map]
    rfl

def CoversUnsaved (s : SavedState) (calls : List IdCall) (answers : List IdAnswer) (kind : InstanceId → Prop) : Prop :=
  ∀ id, id ≠ .base → kind id → (∀ r ∈ s.instances, r.id ≠ id) → IdCall.Took calls answers id

-- Whatever a store can hold: its copies are numbered again without an error, and from then on identifiers
-- without a record are handed out from the least one upwards, but for those that were reserved or claimed
-- meanwhile. An allocation fails only once all below the largest are taken.
theorem replaySaved_numbers (w : World) (stored : w.saved.Stored) : ∃ after,
    w.replaySaved = (after,.ok w.saved.instances.length) ∧
    after = {w with ids := after.ids, journal := after.journal} ∧ after.ids.claimed = [] ∧
    (∀ slot, after.ids.slotFree slot = true ↔
      0 < slot ∧ slot ≤ w.saved.highestId + 1 ∧ ∀ r ∈ w.saved.instances, r.order ≠ slot) ∧
    ∀ calls : List IdCall, (∀ id, .release id ∉ calls) →
      let answers := (IdCall.run IdTable.call after.ids calls).2
      (IdCall.given answers).length + answers.count (.error .exhausted) = calls.count .allocate ∧
      (IdCall.fresh answers).Pairwise (fun one two => one.order < two.order) ∧
      (∀ id ∈ IdCall.fresh answers, id ≠ .base ∧ ∀ r ∈ w.saved.instances, r.id ≠ id) ∧
      (∀ last ∈ IdCall.fresh answers, CoversUnsaved w.saved calls answers (fun id => id.order ≤ last.order)) ∧
      (.ok (some .base) ∈ answers → CoversUnsaved w.saved calls answers (fun _ => True)) ∧
      (.error .exhausted ∈ answers → CoversUnsaved w.saved calls answers (fun id => id.order < largestId)) := by
  obtain ⟨t,ran,valid,limit,space⟩ := replaySaved_marks stored.numbered
  have recorded (slot : Nat) : slot ∉ t.space.used ↔ ∀ r ∈ w.saved.instances, r.order ≠ slot := by
    simp [space]
  have unrecorded (id : InstanceId) : id.order ∉ t.space.used ↔ ∀ r ∈ w.saved.instances, r.id ≠ id := by
    rw [recorded]
    exact forall₂_congr fun r _ => not_congr InstanceId.order_inj
  refine ⟨_,ran,rfl,?_,fun slot => ?_,fun calls kept => ?_⟩
  · have claimed := congrArg IdSpace.claimed space
    simpa [IdTable.space] using claimed
  · rw [slotFree_space valid,recorded,space]
    exact and_congr_right fun _ => and_congr_left fun _ => Nat.lt_succ_iff
  · intro answers
    have handed := run_handouts valid limit kept
    have covers {kind : InstanceId → Prop} (covered : t.Covers calls answers kind) :
        CoversUnsaved w.saved calls answers kind :=
      fun id proper within fresh => covered id proper within ((unrecorded id).mpr fresh)
    refine ⟨handed.answered,handed.rising,fun id member => ?_,fun last member => covers (handed.reached last member),
      fun member => covers (handed.spent member),fun member => covers (handed.exhausted member)⟩
    exact ⟨(IdCall.mem_fresh.mp member).2,(unrecorded id).mp (handed.unused id member)⟩

-- Records with gaps between them: the gaps are filled first, and a saved copy that is
-- gone back to takes nothing from them.
theorem replaySaved_numbers_gaps :
    let saved := ((SavedState.empty.call (.saveInstance ⟨⟨5⟩,⟨36⟩,.normal,0⟩)).1.call
      (.saveInstance ⟨⟨2⟩,⟨36⟩,.heroic,0⟩)).1
    let w := start .empty {} .none saved
    let calls := [.allocate,.claim ⟨2⟩,.allocate,.reserve ⟨5⟩,.allocate,.allocate]
    w.saved.Stored ∧ (∀ id, .release id ∉ calls) ∧ ∃ after, w.replaySaved = (after,.ok 2) ∧ after.ids.claimed = [] ∧
      IdCall.fresh (IdCall.run IdTable.call after.ids calls).2 = [⟨1⟩,⟨3⟩,⟨4⟩,⟨6⟩] ∧
      (∀ id ∈ IdCall.fresh (IdCall.run IdTable.call after.ids calls).2, ∀ r ∈ saved.instances, r.id ≠ id) := by
  intro saved w calls
  have stored : w.saved.Stored := .call _ (.call _ .empty)
  have kept (id : InstanceId) : .release id ∉ calls := by simp [calls]
  obtain ⟨after,ran,_,claimed,_,handed⟩ := replaySaved_numbers w stored
  obtain ⟨_,_,fresh,_⟩ := handed calls kept
  have same : after = w.replaySaved.1 := by rw [ran]
  subst same
  exact ⟨stored,kept,_,ran,claimed,by decide,fun id member => (fresh id member).2⟩

-- With the largest identifier in use from the start, the others are handed out one after another and
-- then that of the base maps: past the last of them the cursor is counted over a word.
theorem allocate_run_out {t : IdTable} {start left : Nat} (valid : t.Valid) (largest : t.limit = largestId)
    (astray : t.next ≠ largestId) (positive : 0 < start) (all : start + left = largestId)
    (used : ∀ slot, slot ∈ t.space.used ↔ 0 < slot ∧ slot < start ∨ slot = largestId) :
    IdCall.given (IdCall.run IdTable.call t (List.replicate (left + 1) .allocate)).2 =
      (List.range' start left).map .ofNat ++ [.base] := by
  induction left generalizing t start with
  | zero =>
    have none : ¬ t.Spare := by
      rintro ⟨id,proper,unused⟩
      have named := id.order_lt
      have above := InstanceId.order_pos.mpr proper
      have below : id.order ≤ largestId := Nat.le_of_lt_succ named
      exact unused ((used _).mpr (by omega))
    obtain ⟨done,_⟩ := allocate_spent valid none (largest ▸ astray)
    simp [IdCall.run,IdTable.call,done,IdCall.given]
  | succ left ih =>
    have fresh : start ∉ t.space.used := by
      rw [used]
      omega
    have small : start < word := by unfold word; unfold largestId at all; omega
    have number : (InstanceId.ofNat start).order = start := InstanceId.order_ofNat small
    have spare : t.Spare := ⟨.ofNat start,InstanceId.order_pos.mp (number.symm ▸ positive),number.symm ▸ fresh⟩
    obtain ⟨slot,next,after,done,parts⟩ :=
      allocate_parts valid (largest ▸ astray) fun spent => (spent_iff valid).mp spent spare
    have first : slot = start := by
      rw [←parts.first]
      exact IdSpace.firstUnused_eq positive fresh fun other above below => (used other).mpr (.inl ⟨above,below⟩)
    subst first
    have unused := (IdSpace.firstUnused_isLeast t.space.used (slot + 1)).1
    rw [parts.next] at unused
    have elsewhere : next ≠ largestId := fun here => unused.2 ((used next).mpr (.inr here))
    have moved : after.next ≠ largestId := by
      rw [parts.cursor]
      have bound := parts.bound
      by_cases last : next = word
      · rw [last,Nat.mod_self]
        decide
      · rwa [Nat.mod_eq_of_lt (by omega)]
    have later := ih (parts.valid valid) (parts.limit.trans largest) moved (by omega : 0 < slot + 1) (by omega)
      fun other => by
        rw [parts.space,Finset.mem_insert,used]
        omega
    rw [List.replicate_succ,List.range'_succ,List.map_cons,List.cons_append,←later]
    simp only [IdCall.run,IdTable.call,done]
    rfl

-- An identifier without a record is passed over where it was reserved in between. And where the largest
-- one is saved, that of the base maps is handed out after all others.
theorem replaySaved_passes_over :
    (let w := start .empty {} .none .empty
     w.saved.Stored ∧ IdCall.given (IdCall.run IdTable.call w.replaySaved.1.ids [.reserve ⟨1⟩,.allocate]).2 = [⟨2⟩]) ∧
    (let w := start .empty {} .none (SavedState.empty.call (.saveInstance ⟨⟨0xffffffff⟩,⟨36⟩,.normal,0⟩)).1
     w.saved.Stored ∧ IdCall.given (IdCall.run IdTable.call w.replaySaved.1.ids (List.replicate largestId .allocate)).2 =
       (List.range' 1 (largestId - 1)).map .ofNat ++ [.base]) := by
  refine ⟨⟨.empty,by decide⟩,?_⟩
  intro w
  have stored : w.saved.Stored := .call _ .empty
  obtain ⟨t,ran,valid,limit,space⟩ := replaySaved_marks stored.numbered
  have marked : w.replaySaved.1.ids = t := by rw [ran]
  have used : t.space.used = {largestId} := by
    rw [space]
    rfl
  refine ⟨stored,?_⟩
  have cursor : t.next ≠ largestId := by
    have near := valid.next_le (by decide : 0 < 1) (by rw [used]; decide)
    unfold largestId
    omega
  rw [marked]
  refine allocate_run_out valid limit cursor (by decide) (by decide) fun slot => ?_
  rw [used,Finset.mem_singleton]
  omega

end World
end LiveMaps
