import LiveMaps.Proofs.Keyed
import LiveMaps.Saved.Calls

namespace LiveMaps

theorem RespawnEntry.samePoint_iff {one two : RespawnEntry} : one.samePoint two = true ↔
    one.map = two.map ∧ one.instanceId = two.instanceId ∧ one.spawnId = two.spawnId := by
  simp [samePoint,and_assoc]

namespace StoreLog
open Ordered

-- A log lists the calls on a store, earliest first. What was saved at some place of it
-- stands as long as no later call undoes it; whether one does can depend on those before.
def Stands (save : α → StoreCall) (undone : List StoreCall → StoreCall → α → Prop) (log : List StoreCall)
    (place : Nat) (entry : α) : Prop :=
  log[place]? = some (save entry) ∧
    ∀ later call, place < later → log[later]? = some call → ¬ undone (log.take later) call entry

def RecordUndone (_ : List StoreCall) (call : StoreCall) (r : InstanceRecord) : Prop :=
  (∃ next, call = .saveInstance next ∧ r.id = next.id) ∨ call = .removeInstance r.id

def Recorded (log : List StoreCall) (r : InstanceRecord) : Prop :=
  r.id ≠ .base ∧ ∃ place, Stands .saveInstance RecordUndone log place r

-- A copy goes with all that is in it, if it is on record.
def Drops (log : List StoreCall) (call : StoreCall) (id : InstanceId) : Prop :=
  call = .removeInstance id ∧ ∃ r, Recorded log r ∧ r.id = id

def RespawnUndone (log : List StoreCall) (call : StoreCall) (e : RespawnEntry) : Prop :=
  (∃ next, call = .saveRespawn next ∧ e.map = next.map ∧ e.instanceId = next.instanceId ∧
    e.spawnId = next.spawnId) ∨ Drops log call e.instanceId

def CorpseUndone (log : List StoreCall) (call : StoreCall) (e : CorpseEntry) : Prop :=
  (∃ next, call = .saveCorpse next ∧ e.owner = next.owner) ∨ call = .removeCorpse e.owner ∨
    Drops log call e.instanceId

def Respawning (log : List StoreCall) (place : Nat) (e : RespawnEntry) : Prop :=
  Stands .saveRespawn RespawnUndone log place e

def Lying (log : List StoreCall) (place : Nat) (e : CorpseEntry) : Prop :=
  Stands .saveCorpse CorpseUndone log place e

def Listed (stands : Nat → α → Prop) (entries : List α) : Prop :=
  ∃ places : List (Nat × α), Ascending Prod.fst places ∧
    (∀ place entry, (place,entry) ∈ places ↔ stands place entry) ∧ places.map Prod.snd = entries

def Answers (log : List StoreCall) : StoreCall → StoreAnswer → Prop
  | .saveInstance r,answer => answer = if r.id.isBase then .failed .reservedId else .saved
  | .removeInstance id,answer => ∃ removed, answer = .removedInstance removed ∧
      ∀ r, removed = some r ↔ Recorded log r ∧ r.id = id
  | .saveRespawn _,answer => answer = .saved
  | .saveCorpse _,answer => answer = .saved
  | .removeCorpse owner,answer => ∃ present, answer = .removedCorpse present ∧
      (present = true ↔ ∃ place e, Lying log place e ∧ e.owner = owner)
  | .instances,answer => ∃ records, answer = .instances records ∧ Ascending InstanceRecord.order records ∧
      ∀ r, r ∈ records ↔ Recorded log r
  | .highestId,answer => ∃ highest, answer = .highestId highest ∧
      (∀ r, Recorded log r → r.order ≤ highest) ∧ (highest = 0 ∨ ∃ r, Recorded log r ∧ r.order = highest)
  | .respawns map id,answer => ∃ entries : List RespawnEntry,
      answer = .respawns (entries.map fun e => ⟨e.spawnId,e.respawnAt⟩) ∧
      Listed (fun place e => Respawning log place e ∧ e.map = map ∧ e.instanceId = id) entries ∧
      (entries.map RespawnEntry.spawnId).Nodup
  | .corpses map id,answer => ∃ entries : List CorpseEntry,
      answer = .corpses (entries.map fun e => ⟨e.owner,e.location⟩) ∧
      Listed (fun place e => Lying log place e ∧ e.location.map = map ∧ e.instanceId = id) entries ∧
      (entries.map CorpseEntry.owner).Nodup

section
variable {save : α → StoreCall} {undone : List StoreCall → StoreCall → α → Prop} {log : List StoreCall}
  {call : StoreCall} {place : Nat} {entry : α}

theorem Stands.earlier (stands : Stands save undone log place entry) : place < log.length :=
  (List.getElem?_eq_some_iff.mp stands.1).1

-- One more call lets stand what it does not undo, and may save something itself.
theorem stands_concat : Stands save undone (log ++ [call]) place entry ↔
    (place = log.length ∧ call = save entry) ∨ (Stands save undone log place entry ∧ ¬ undone log call entry) := by
  constructor
  · rintro ⟨saved,kept⟩
    by_cases earlier : place < log.length
    · rw [List.getElem?_append_left earlier] at saved
      refine .inr ⟨⟨saved,fun later other after found undoes => ?_⟩,fun undoes => ?_⟩
      · have bound := (List.getElem?_eq_some_iff.mp found).1
        refine kept later other after ((List.getElem?_append_left bound).trans found) ?_
        rwa [List.take_append_of_le_length (Nat.le_of_lt bound)]
      · refine kept log.length call earlier List.getElem?_concat_length ?_
        rwa [List.take_left]
    · have bound := (List.getElem?_eq_some_iff.mp saved).1
      have last : place = log.length := by
        rw [List.length_append,List.length_singleton] at bound
        omega
      subst last
      rw [List.getElem?_concat_length] at saved
      exact .inl ⟨rfl,Option.some.inj saved⟩
  · rintro (⟨rfl,rfl⟩ | ⟨stands,spared⟩)
    · refine ⟨List.getElem?_concat_length,fun later other after found => ?_⟩
      have bound := (List.getElem?_eq_some_iff.mp found).1
      rw [List.length_append,List.length_singleton] at bound
      omega
    · have earlier := stands.earlier
      refine ⟨(List.getElem?_append_left earlier).trans stands.1,fun later other after found => ?_⟩
      by_cases inside : later < log.length
      · rw [List.getElem?_append_left inside] at found
        rw [List.take_append_of_le_length (Nat.le_of_lt inside)]
        exact stands.2 later other after found
      · have bound := (List.getElem?_eq_some_iff.mp found).1
        have last : later = log.length := by
          rw [List.length_append,List.length_singleton] at bound
          omega
        subst last
        rw [List.getElem?_concat_length] at found
        rw [List.take_left,←Option.some.inj found]
        exact spared

end

section
variable {stands other : Nat → α → Prop} {entries more : List α}

theorem Listed.congr (listed : Listed stands entries) (same : ∀ place entry, stands place entry ↔ other place entry) :
    Listed other entries := by
  obtain ⟨places,ascending,members,shown⟩ := listed
  exact ⟨places,ascending,fun place entry => (members place entry).trans (same place entry),shown⟩

theorem Listed.filter (listed : Listed stands entries) (keep : α → Bool) :
    Listed (fun place entry => stands place entry ∧ keep entry = true) (entries.filter keep) := by
  obtain ⟨places,ascending,members,rfl⟩ := listed
  refine ⟨places.filter (keep ∘ Prod.snd),ascending.filter _,fun place entry => ?_,?_⟩
  · rw [List.mem_filter,members]
    rfl
  · rw [List.filter_map]

theorem Listed.concat (listed : Listed stands entries) {last : Nat}
    (earlier : ∀ place entry, stands place entry → place < last) (entry : α) :
    Listed (fun place old => (place = last ∧ entry = old) ∨ stands place old) (entries ++ [entry]) := by
  obtain ⟨places,ascending,members,rfl⟩ := listed
  refine ⟨places ++ [(last,entry)],?_,fun place old => ?_,by simp⟩
  · refine List.pairwise_append.mpr ⟨ascending,List.pairwise_singleton _ _,?_⟩
    rintro ⟨place,old⟩ member _ new
    cases List.mem_singleton.mp new
    exact earlier place old ((members place old).mp member)
  · rw [List.mem_append,members,List.mem_singleton,Prod.mk.injEq,or_comm,eq_comm (a := old)]

theorem Listed.unique (one : Listed stands entries) (two : Listed stands more) : entries = more := by
  obtain ⟨places,ascending,members,rfl⟩ := one
  obtain ⟨others,ascending',members',rfl⟩ := two
  rw [ascending.ext ascending' fun ⟨place,entry⟩ => (members place entry).trans (members' place entry).symm]

theorem Listed.mem (listed : Listed stands entries) {entry : α} : entry ∈ entries ↔ ∃ place, stands place entry := by
  obtain ⟨places,_,members,rfl⟩ := listed
  simp [←members]

theorem Listed.nodup (listed : Listed stands entries) (name : α → β)
    (once : ∀ place entry later next, stands place entry → stands later next → place < later →
      name entry ≠ name next) : (entries.map name).Nodup := by
  obtain ⟨places,ascending,members,rfl⟩ := listed
  rw [List.map_map,List.Nodup,List.pairwise_map]
  refine List.Pairwise.imp_of_mem ?_ ascending
  rintro ⟨place,entry⟩ ⟨later,next⟩ first second before
  exact once place entry later next ((members _ _).mp first) ((members _ _).mp second) before

end

theorem Listed.spared {save : α → StoreCall} {undone : List StoreCall → StoreCall → α → Prop} {log : List StoreCall}
    {call : StoreCall} {entries : List α} (listed : Listed (Stands save undone log) entries)
    (unsaved : ∀ entry, call ≠ save entry) (keep : α → Bool)
    (kept : ∀ entry, keep entry = true ↔ ¬ undone log call entry) :
    Listed (Stands save undone (log ++ [call])) (entries.filter keep) := by
  refine (listed.filter keep).congr fun place entry => ?_
  rw [stands_concat,kept]
  simp [unsaved entry]

theorem Listed.untouched {save : α → StoreCall} {undone : List StoreCall → StoreCall → α → Prop}
    {log : List StoreCall} {call : StoreCall} {entries : List α} (listed : Listed (Stands save undone log) entries)
    (unsaved : ∀ entry, call ≠ save entry) (kept : ∀ entry, ¬ undone log call entry) :
    Listed (Stands save undone (log ++ [call])) entries := by
  have spared := listed.spared unsaved (fun _ => true) fun entry => by simp [kept]
  rwa [List.filter_eq_self.mpr fun _ _ => rfl] at spared

theorem Listed.saved {save : α → StoreCall} {undone : List StoreCall → StoreCall → α → Prop} {log : List StoreCall}
    {entries : List α} (listed : Listed (Stands save undone log) entries) (injective : Function.Injective save)
    (fresh : α) (keep : α → Bool) (kept : ∀ entry, keep entry = true ↔ ¬ undone log (save fresh) entry) :
    Listed (Stands save undone (log ++ [save fresh])) (entries.filter keep ++ [fresh]) := by
  refine ((listed.filter keep).concat (fun place entry stands => stands.1.earlier) fresh).congr fun place entry => ?_
  rw [stands_concat,kept,injective.eq_iff]

theorem recorded_concat {log : List StoreCall} {call : StoreCall} {r : InstanceRecord} : Recorded (log ++ [call]) r ↔
    (call = .saveInstance r ∧ r.id ≠ .base) ∨ (Recorded log r ∧ ¬ RecordUndone log call r) := by
  unfold Recorded
  constructor
  · rintro ⟨proper,place,stands⟩
    rcases stands_concat.mp stands with ⟨_,saved⟩ | ⟨stood,spared⟩
    · exact .inl ⟨saved,proper⟩
    · exact .inr ⟨⟨proper,place,stood⟩,spared⟩
  · rintro (⟨saved,proper⟩ | ⟨⟨proper,place,stood⟩,spared⟩)
    · exact ⟨proper,_,stands_concat.mpr (.inl ⟨rfl,saved⟩)⟩
    · exact ⟨proper,place,stands_concat.mpr (.inr ⟨stood,spared⟩)⟩

theorem Answers.unique {log : List StoreCall} {c : StoreCall} {one two : StoreAnswer}
    (first : Answers log c one) (second : Answers log c two) : one = two := by
  cases c with
  | saveInstance | saveRespawn | saveCorpse => exact first.trans second.symm
  | removeInstance id =>
    obtain ⟨removed,rfl,record⟩ := first
    obtain ⟨other,rfl,record'⟩ := second
    have same : removed = other := Option.ext fun r => (record r).trans (record' r).symm
    rw [same]
  | removeCorpse owner =>
    obtain ⟨present,rfl,lies⟩ := first
    obtain ⟨other,rfl,lies'⟩ := second
    have same : present = other := Bool.eq_iff_iff.mpr (lies.trans lies'.symm)
    rw [same]
  | instances =>
    obtain ⟨records,rfl,ascending,recorded⟩ := first
    obtain ⟨others,rfl,ascending',recorded'⟩ := second
    rw [ascending.ext ascending' fun r => (recorded r).trans (recorded' r).symm]
  | highestId =>
    obtain ⟨highest,rfl,bound,attained⟩ := first
    obtain ⟨other,rfl,bound',attained'⟩ := second
    have same : highest = other := by
      apply Nat.le_antisymm
      · rcases attained with rfl | ⟨r,recorded,rfl⟩
        · exact Nat.zero_le _
        · exact bound' r recorded
      · rcases attained' with rfl | ⟨r,recorded,rfl⟩
        · exact Nat.zero_le _
        · exact bound r recorded
    rw [same]
  | respawns map id =>
    obtain ⟨entries,rfl,listed,_⟩ := first
    obtain ⟨others,rfl,listed',_⟩ := second
    rw [listed.unique listed']
  | corpses map id =>
    obtain ⟨entries,rfl,listed,_⟩ := first
    obtain ⟨others,rfl,listed',_⟩ := second
    rw [listed.unique listed']

end StoreLog
end LiveMaps
