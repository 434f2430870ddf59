import LiveMaps.Proofs.Ids.Table
import LiveMaps.Proofs.Saved.Log
import LiveMaps.Proofs.Saved.Numbering
import LiveMaps.Proofs.Saved.Reopening
import Mathlib.Data.List.Induction

namespace LiveMaps

namespace SavedState
open StoreLog Ordered

def after (s : SavedState) (calls : List StoreCall) : SavedState := calls.foldl (fun s c => (s.call c).1) s

structure Follows (s : SavedState) (log : List StoreCall) : Prop where
  numbered : s.Numbered
  instances : ∀ r, r ∈ s.instances ↔ Recorded log r
  respawns : Listed (Respawning log) s.respawns
  corpses : Listed (Lying log) s.corpses

variable {s : SavedState} {log : List StoreCall} {id : InstanceId} {r : InstanceRecord}

theorem follows_empty : Follows .empty [] where
  numbered := ⟨.nil,nofun⟩
  instances := fun r => by simp [empty,Recorded,Stands]
  respawns := ⟨[],.nil,by simp [Respawning,Stands],rfl⟩
  corpses := ⟨[],.nil,by simp [Lying,Stands],rfl⟩

theorem Follows.instance?_iff (follows : Follows s log) : s.instance? id = some r ↔ Recorded log r ∧ r.id = id := by
  unfold instance?
  rw [follows.numbered.ascending.find?_iff fun one two first second => by simp_all [InstanceRecord.order],
    follows.instances]
  simp

theorem Follows.drops (follows : Follows s log) {e : InstanceId} :
    Drops log (.removeInstance id) e ↔ (s.instance? id).isSome ∧ id = e := by
  simp only [Drops,StoreCall.removeInstance.injEq,Option.isSome_iff_exists,follows.instance?_iff]
  constructor
  · rintro ⟨rfl,recorded⟩
    exact ⟨recorded,rfl⟩
  · rintro ⟨recorded,rfl⟩
    exact ⟨rfl,recorded⟩

theorem call_reserved (base : r.id = .base) : s.call (.saveInstance r) = (s,.failed .reservedId) := by
  simp [SavedState.call,saveInstance?,base]

theorem call_recorded (proper : r.id ≠ .base) : s.call (.saveInstance r) =
    ({s with instances := insert InstanceRecord.order r s.instances},.saved) := by
  simp [SavedState.call,saveInstance?,InstanceId.isBase_eq_false.mpr proper]

theorem removeInstance_missing (missing : s.instance? id = none) : s.removeInstance id = s := by
  simp [removeInstance,missing]

theorem removeInstance_found (found : s.instance? id = some r) : s.removeInstance id =
    ⟨s.instances.filter (fun r => r.id != id),s.respawns.filter (fun e => e.instanceId != id),
      s.corpses.filter (fun e => e.instanceId != id)⟩ := by
  simp [removeInstance,found]

theorem Follows.instances_call (follows : Follows s log) (c : StoreCall) (r : InstanceRecord) :
    r ∈ (s.call c).1.instances ↔ Recorded (log ++ [c]) r := by
  have proper (member : r ∈ s.instances) : r.id ≠ .base :=
    InstanceId.isBase_eq_false.mp (follows.numbered.proper r member)
  rw [recorded_concat,←follows.instances]
  cases c with
  | saveInstance record =>
    have undone : RecordUndone log (.saveInstance record) r ↔ r.id = record.id := by simp [RecordUndone]
    rw [undone,StoreCall.saveInstance.injEq]
    by_cases base : record.id = .base
    · rw [call_reserved base,base]
      constructor
      · intro member
        exact .inr ⟨member,proper member⟩
      · rintro (⟨rfl,apart⟩ | ⟨member,_⟩)
        · exact absurd base apart
        · exact member
    · rw [call_recorded base,mem_insert follows.numbered.ascending]
      have apart : r.order ≠ record.order ↔ ¬ r.id = record.id := not_congr InstanceId.order_inj
      rw [apart,eq_comm (a := r)]
      refine or_congr_left ⟨fun same => ⟨same,same ▸ base⟩,And.left⟩
  | removeInstance id =>
    have undone : RecordUndone log (.removeInstance id) r ↔ id = r.id := by simp [RecordUndone]
    rw [undone]
    cases found : s.instance? id with
    | none =>
      have missing (member : r ∈ s.instances) : ¬ id = r.id := by
        rintro rfl
        have none_under := List.find?_eq_none.mp found r member
        simp at none_under
      simp only [SavedState.call,removeInstance_missing found,reduceCtorEq,false_and,false_or]
      exact ⟨fun member => ⟨member,missing member⟩,And.left⟩
    | some other =>
      simp [SavedState.call,removeInstance_found found,eq_comm (a := id)]
  | _ => simp [SavedState.call,saveRespawn,saveCorpse,removeCorpse,RecordUndone]

-- A kind of entries that nothing but the removal of a copy on record can undo, unless one of
-- them is saved: it undoes what is in that copy.
theorem Follows.removal (follows : Follows s log) {save : α → StoreCall}
    {undone : List StoreCall → StoreCall → α → Prop} {entries : List α}
    (listed : Listed (Stands save undone log) entries) (inside : α → InstanceId) (id : InstanceId)
    (unsaved : ∀ entry, .removeInstance id ≠ save entry)
    (drops : ∀ entry, undone log (.removeInstance id) entry ↔ Drops log (.removeInstance id) (inside entry)) :
    Listed (Stands save undone (log ++ [.removeInstance id]))
      (if (s.instance? id).isSome then entries.filter (fun e => inside e != id) else entries) := by
  have dropped (entry : α) : undone log (.removeInstance id) entry ↔ (s.instance? id).isSome ∧ id = inside entry :=
    (drops entry).trans follows.drops
  split
  · rename_i found
    refine listed.spared unsaved _ fun entry => ?_
    simp [dropped,found,eq_comm (a := id)]
  · rename_i missing
    exact listed.untouched unsaved fun entry => by simp [dropped,missing]

theorem removeInstance_parts (s : SavedState) (id : InstanceId) :
    (s.removeInstance id).respawns =
      (if (s.instance? id).isSome then s.respawns.filter (fun e => e.instanceId != id) else s.respawns) ∧
    (s.removeInstance id).corpses =
      (if (s.instance? id).isSome then s.corpses.filter (fun e => e.instanceId != id) else s.corpses) := by
  unfold removeInstance
  split
  · exact ⟨rfl,rfl⟩
  · exact ⟨rfl,rfl⟩

theorem saveInstance_parts (s : SavedState) (record : InstanceRecord) :
    (s.call (.saveInstance record)).1.respawns = s.respawns ∧
      (s.call (.saveInstance record)).1.corpses = s.corpses := by
  by_cases base : record.id = .base
  · rw [call_reserved base]
    exact ⟨rfl,rfl⟩
  · rw [call_recorded base]
    exact ⟨rfl,rfl⟩

theorem Follows.respawns_call (follows : Follows s log) (c : StoreCall) :
    Listed (Respawning (log ++ [c])) (s.call c).1.respawns := by
  have listed := follows.respawns
  cases c with
  | saveRespawn entry =>
    refine listed.saved (fun _ _ same => StoreCall.saveRespawn.inj same) entry _ fun old => ?_
    rw [Bool.not_eq_true',←Bool.not_eq_true,not_iff_not,RespawnEntry.samePoint_iff]
    simp [RespawnUndone,Drops]
  | removeInstance id =>
    have removal := follows.removal listed RespawnEntry.instanceId id nofun fun entry => by simp [RespawnUndone]
    exact (removeInstance_parts s id).1 ▸ removal
  | saveInstance record =>
    rw [(saveInstance_parts s record).1]
    exact listed.untouched nofun fun entry => by simp [RespawnUndone,Drops]
  | _ => exact listed.untouched nofun fun entry => by simp [RespawnUndone,Drops]

theorem Follows.corpses_call (follows : Follows s log) (c : StoreCall) :
    Listed (Lying (log ++ [c])) (s.call c).1.corpses := by
  have listed := follows.corpses
  cases c with
  | saveCorpse entry =>
    refine listed.saved (fun _ _ same => StoreCall.saveCorpse.inj same) entry _ fun old => ?_
    simp [CorpseUndone,Drops]
  | removeCorpse owner =>
    have unsaved : ∀ entry, StoreCall.removeCorpse owner ≠ .saveCorpse entry := nofun
    refine listed.spared unsaved _ fun old => ?_
    simp [CorpseUndone,Drops,eq_comm (a := owner)]
  | removeInstance id =>
    have removal := follows.removal listed CorpseEntry.instanceId id nofun fun entry => by simp [CorpseUndone]
    exact (removeInstance_parts s id).2 ▸ removal
  | saveInstance record =>
    rw [(saveInstance_parts s record).2]
    exact listed.untouched nofun fun entry => by simp [CorpseUndone,Drops]
  | _ => exact listed.untouched nofun fun entry => by simp [CorpseUndone,Drops]

theorem Follows.call (follows : Follows s log) (c : StoreCall) : Follows (s.call c).1 (log ++ [c]) where
  numbered := follows.numbered.call c
  instances := follows.instances_call c
  respawns := follows.respawns_call c
  corpses := follows.corpses_call c

theorem follows_after (calls : List StoreCall) : Follows (empty.after calls) calls := by
  induction calls using List.reverseRecOn with
  | nil => exact follows_empty
  | append_singleton before c ih =>
    unfold after
    rw [List.foldl_append]
    exact ih.call c

theorem Follows.hasCorpse_iff (follows : Follows s log) {owner : ParticipantId} :
    s.hasCorpse owner = true ↔ ∃ place e, Lying log place e ∧ e.owner = owner := by
  simp only [hasCorpse,List.any_eq_true,beq_iff_eq,follows.corpses.mem]
  constructor
  · rintro ⟨e,⟨place,lying⟩,owned⟩
    exact ⟨place,e,lying,owned⟩
  · rintro ⟨place,e,lying,owned⟩
    exact ⟨e,⟨place,lying⟩,owned⟩

theorem Follows.answers (follows : Follows s log) (c : StoreCall) : Answers log c (s.call c).2 := by
  cases c with
  | saveInstance record =>
    by_cases base : record.id = .base
    · rw [call_reserved base]
      simp [Answers,base]
    · rw [call_recorded base]
      simp [Answers,base]
  | removeInstance id => exact ⟨_,rfl,fun r => follows.instance?_iff⟩
  | saveRespawn | saveCorpse => rfl
  | removeCorpse owner => exact ⟨_,rfl,follows.hasCorpse_iff⟩
  | instances => exact ⟨_,rfl,follows.numbered.ascending,follows.instances⟩
  | highestId =>
    refine ⟨_,rfl,fun r recorded => order_le_highestId ((follows.instances r).mpr recorded),?_⟩
    simpa only [follows.instances] using s.highestId_attained
  | respawns map id =>
    have listed : Listed (fun place e => Respawning log place e ∧ e.map = map ∧ e.instanceId = id) _ :=
      (follows.respawns.filter fun e => e.map == map && e.instanceId == id).congr fun place e => by simp
    refine ⟨_,rfl,listed,listed.nodup _ ?_⟩
    -- A later entry for the same spawn point would have undone the earlier one.
    rintro place e later next ⟨stands,rfl,rfl⟩ ⟨saved,map,id⟩ before same
    exact stands.2 later _ before saved.1 (.inl ⟨next,rfl,map.symm,id.symm,same⟩)
  | corpses map id =>
    have listed : Listed (fun place e => Lying log place e ∧ e.location.map = map ∧ e.instanceId = id) _ :=
      (follows.corpses.filter fun e => e.location.map == map && e.instanceId == id).congr fun place e => by simp
    refine ⟨_,rfl,listed,listed.nodup _ ?_⟩
    rintro place e later next ⟨stands,_⟩ ⟨saved,_⟩ before same
    exact stands.2 later _ before saved.1 (.inl ⟨next,rfl,same⟩)

theorem answers_getElem? (s : SavedState) (calls : List StoreCall) (place : Nat) : (s.answers calls)[place]? =
    calls[place]?.map fun call => ((s.after (calls.take place)).call call).2 := by
  induction calls generalizing s place with
  | nil => simp [answers]
  | cons call rest ih =>
    cases place with
    | zero => rfl
    | succ place => exact ih (s.call call).1 place

theorem answers_length (s : SavedState) (calls : List StoreCall) : (s.answers calls).length = calls.length := by
  induction calls generalizing s with
  | nil => rfl
  | cons call rest ih => exact congrArg (· + 1) (ih (s.call call).1)

theorem filter_outside (entries : List α) (inside : α → InstanceId) (test : α → Bool) (id other : InstanceId) :
    (entries.filter (fun e => inside e != id)).filter (fun e => test e && inside e == other) =
      if other = id then [] else entries.filter (fun e => test e && inside e == other) := by
  rw [List.filter_filter]
  split
  · rename_i same
    subst same
    simp
  · rename_i apart
    refine List.filter_congr fun e _ => ?_
    cases test e
    · rfl
    · by_cases there : inside e = other <;> simp [there,apart]

theorem removeInstance_rest {s : SavedState} {id : InstanceId} {r : InstanceRecord} (found : s.instance? id = some r)
    (map : MapId) (other : InstanceId) :
    (s.removeInstance id).respawnsIn map other = (if other = id then [] else s.respawnsIn map other) ∧
      (s.removeInstance id).corpsesIn map other = (if other = id then [] else s.corpsesIn map other) := by
  unfold respawnsIn corpsesIn
  rw [removeInstance_found found,filter_outside _ RespawnEntry.instanceId,filter_outside _ CorpseEntry.instanceId]
  split
  · exact ⟨rfl,rfl⟩
  · exact ⟨rfl,rfl⟩

-- Over every history of calls each answer is the one that the log before it asks for.
theorem answers_logged (calls : List StoreCall) :
    (empty.answers calls).length = calls.length ∧
    (∀ place call, calls[place]? = some call → ∀ answer,
      (empty.answers calls)[place]? = some answer ↔ Answers (calls.take place) call answer) ∧
    (∀ r : InstanceRecord, r.id = .base →
      (empty.after calls).call (.saveInstance r) = (empty.after calls,.failed .reservedId)) ∧
    (∀ id, id = .base ∨ (∀ r, Recorded calls r → r.id ≠ id) →
      (empty.after calls).call (.removeInstance id) = (empty.after calls,.removedInstance none)) ∧
    ∀ r, Recorded calls r → ∃ next,
      (empty.after calls).call (.removeInstance r.id) = (next,.removedInstance (some r)) ∧
      next.instances = (empty.after calls).instances.filter (fun old => old.id != r.id) ∧
      ∀ map id, next.respawnsIn map id = (if id = r.id then [] else (empty.after calls).respawnsIn map id) ∧
        next.corpsesIn map id = (if id = r.id then [] else (empty.after calls).corpsesIn map id) := by
  have follows := follows_after calls
  refine ⟨answers_length _ _,fun place call asked answer => ?_,fun r base => call_reserved base,fun id unsaved => ?_,
    fun r recorded => ?_⟩
  · rw [answers_getElem?,asked,Option.map_some,Option.some.injEq]
    have told := (follows_after (calls.take place)).answers call
    constructor
    · rintro rfl
      exact told
    · exact told.unique
  · have missing : (empty.after calls).instance? id = none := by
      refine Option.eq_none_iff_forall_ne_some.mpr fun r found => ?_
      obtain ⟨recorded,named⟩ := follows.instance?_iff.mp found
      rcases unsaved with base | unsaved
      · exact recorded.1 (named.trans base)
      · exact unsaved r recorded named
    simp only [SavedState.call,removeInstance_missing missing,missing]
  · have found := follows.instance?_iff.mpr ⟨recorded,rfl⟩
    refine ⟨(empty.after calls).removeInstance r.id,?_,?_,removeInstance_rest found⟩
    · simp only [SavedState.call,found]
    · rw [removeInstance_found found]

-- A respawn time that is saved again moves to the end, and goes with its copy.
theorem answers_logged_again :
    let calls : List StoreCall :=
      [.saveInstance ⟨⟨7⟩,⟨36⟩,.heroic,0⟩,.saveRespawn ⟨⟨36⟩,⟨7⟩,11,250⟩,.saveRespawn ⟨⟨36⟩,⟨7⟩,12,260⟩,
        .saveRespawn ⟨⟨36⟩,⟨7⟩,11,300⟩,.respawns ⟨36⟩ ⟨7⟩,.removeInstance ⟨7⟩,.respawns ⟨36⟩ ⟨7⟩]
    Answers (calls.take 4) (.respawns ⟨36⟩ ⟨7⟩) (.respawns [⟨12,260⟩,⟨11,300⟩]) ∧
      Answers (calls.take 6) (.respawns ⟨36⟩ ⟨7⟩) (.respawns []) := by
  intro calls
  obtain ⟨_,told,_⟩ := answers_logged calls
  exact ⟨(told 4 _ rfl _).mp (by decide +kernel),(told 6 _ rfl _).mp (by decide +kernel)⟩

end SavedState
end LiveMaps
