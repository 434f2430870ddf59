import LiveMaps.Proofs.World.Copies
import LiveMaps.Proofs.World.Replay
import LiveMaps.Simulation
import Mathlib.Data.Nat.Nth

namespace LiveMaps

namespace SavedState
variable {records : List InstanceRecord} {count : Nat} {used : Finset Nat}

def Unrecorded (records : List InstanceRecord) (n : Nat) : Prop := 0 < n ∧ ∀ r ∈ records, r.order ≠ n

instance (records : List InstanceRecord) : DecidablePred (Unrecorded records) :=
  fun _ => inferInstanceAs (Decidable (_ ∧ _))

theorem unrecorded_infinite (records : List InstanceRecord) : (Set.ofPred (Unrecorded records)).Infinite := by
  refine Set.infinite_of_forall_exists_gt fun n => ?_
  obtain ⟨m,above,unused⟩ := IdSpace.unused_exists (records.map InstanceRecord.order).toFinset (n + 1)
  refine ⟨m,⟨by omega,fun r member same => unused ?_⟩,above⟩
  exact List.mem_toFinset.mpr (List.mem_map.mpr ⟨r,member,same⟩)

def Handed (records : List InstanceRecord) (count : Nat) (used : Finset Nat) : Prop := ∀ n, 0 < n →
  (n ∈ used ↔ (∃ r ∈ records, r.order = n) ∨ ∃ k < count, Nat.nth (Unrecorded records) k = n)

theorem Handed.least (handed : Handed records count used) :
    IsLeast {n | 0 < n ∧ n ∉ used} (Nat.nth (Unrecorded records) count) := by
  have infinite := unrecorded_infinite records
  obtain ⟨positive,apart⟩ := Nat.nth_mem_of_infinite infinite count
  constructor
  · refine ⟨positive,fun held => ?_⟩
    rcases (handed _ positive).mp held with ⟨r,member,same⟩ | ⟨k,earlier,same⟩
    · exact apart r member same
    · exact Nat.ne_of_lt earlier (Nat.nth_injective infinite same)
  · rintro n ⟨above,unused⟩
    have free : Unrecorded records n :=
      ⟨above,fun r member same => unused ((handed n above).mpr (.inl ⟨r,member,same⟩))⟩
    -- As one of those without a record, `n` is none of the first `count`.
    have place : Nat.nth (Unrecorded records) (Nat.count (Unrecorded records) n) = n := Nat.nth_count free
    rw [←place]
    refine Nat.nth_monotone infinite (Nat.le_of_not_lt fun earlier => unused ?_)
    exact (handed n above).mpr (.inr ⟨_,earlier,place⟩)

theorem Handed.next (handed : Handed records count used) :
    Handed records (count + 1) (insert (Nat.nth (Unrecorded records) count) used) := by
  intro n above
  rw [Finset.mem_insert,handed n above]
  constructor
  · rintro (rfl | recorded | ⟨k,earlier,same⟩)
    · exact .inr ⟨count,Nat.lt_succ_self count,rfl⟩
    · exact .inl recorded
    · exact .inr ⟨k,Nat.lt_succ_of_lt earlier,same⟩
  · rintro (recorded | ⟨k,earlier,same⟩)
    · exact .inr (.inl recorded)
    · rcases Nat.lt_succ_iff_lt_or_eq.mp earlier with before | rfl
      · exact .inr (.inr ⟨k,before,same⟩)
      · exact .inl same.symm

end SavedState

namespace IdTable
open SavedState
variable {t : IdTable} {records : List InstanceRecord} {count : Nat}

-- While one of them is left, the next identifier without a record is handed out and claimed.
theorem handed_next (valid : t.Valid) (largest : t.limit = largestId) (handed : Handed records count t.space.used)
    (room : count < Nat.count (Unrecorded records) largestId) :
    ∃ id used ids, t.allocate = .ok (id,used) ∧ used.claim id = .ok ids ∧
      id.order = Nat.nth (Unrecorded records) count ∧ id ∉ t.claimed ∧ ids.limit = largestId ∧
      Handed records (count + 1) ids.space.used := by
  have least := handed.least
  have small : Nat.nth (Unrecorded records) count < largestId := Nat.nth_lt_of_lt_count room
  have number : (InstanceId.ofNat (Nat.nth (Unrecorded records) count)).order = _ :=
    InstanceId.order_ofNat (Nat.lt_trans small (by decide))
  have cursor := valid.next_le least.1.1 least.1.2
  obtain ⟨id,used,allocated⟩ := allocate_ok valid (by omega)
  have left : t.Spare := ⟨_,InstanceId.order_pos.mp (number.symm ▸ least.1.1),number.symm ▸ least.1.2⟩
  obtain ⟨_,first,more,_,ids,claimed⟩ := allocate_spare valid left allocated
  have same := first.unique least
  refine ⟨_,used,ids,allocated,claimed,same,valid.unclaimed first.1.2,?_,?_⟩
  · obtain ⟨_,_,_,_,limit,_⟩ := claim_parts claimed
    exact limit.trans (((Step.allocate allocated).frame valid).1.trans largest)
  · rw [claim_space (allocate_valid valid allocated) claimed,more,Finset.insert_idem,same]
    exact handed.next

end IdTable

namespace World
open Ordered SavedState
variable {origin w middle : World} {host : BaseMap} {map : MapId} {d : MapDefinition}
  {records : List InstanceRecord} {opened : List MapDefinition}

def tabled (w : World) : List LiveMap := w.maps.flatMap BaseMap.copies

theorem Ensured.tabled (ensured : Ensured w map middle host) (sound : w.Sound) : middle.tabled.Perm w.tabled := by
  cases ensured with
  | known => exact .refl _
  | @brought root _ path fresh =>
    have bare : (w.newFamily root).flatMap BaseMap.copies = [] := by
      refine List.flatMap_eq_nil_iff.mpr fun b member => ?_
      obtain ⟨d,_,_,rfl⟩ := mem_newFamily.mp member
      exact (w.build_parts _ d).2.2.2.2.1
    have placed := (install_perm sound path.top fresh).flatMap_right BaseMap.copies
    rwa [List.flatMap_append,bare] at placed

theorem addCopy_tabled (sound : w.Sound) (accounted : w.Accounted) {id : InstanceId} (registered : host ∈ w.maps)
    (tabled : host.isInstanceable = true) (unclaimed : id ∉ w.ids.claimed) (ids : IdTable)
    (template : Option InstanceTemplate) (request : InstanceRequest) :
    let answer := {w with ids := ids}.addCopy host template id request
    answer.1.tabled.Perm (answer.2 :: w.tabled) := by
  intro answer
  obtain ⟨front,back,split⟩ := List.append_of_mem registered
  have member : host ∈ w.hosts := List.mem_append_left _ registered
  have changed : answer.1.maps = front ++ host.mapCopies (insert LiveMap.order answer.2) :: back :=
    (modifyHost_registered sound.distinct split _).1
  have placed := insert_perm_of_fresh answer.2 (sound.bases host member).ascending
    fun old among => accounted.vacant member unclaimed among
  unfold World.tabled
  rw [changed,split]
  simp only [List.flatMap_append,List.flatMap_cons,BaseMap.copies_mapCopies,tabled,if_true]
  exact ((placed.append_right _).append_left _).trans List.perm_middle

theorem queue_tabled (w : World) (serial : Nat) (t : Transfer) :
    (w.queue serial t).tabled = w.tabled.map (atSerial serial (LiveMap.queue · t)) := by
  unfold tabled queue modify
  rw [List.flatMap_map,List.map_flatMap]
  exact List.flatMap_congr fun b _ => b.copies_mapAll _

theorem tabled_live {copy : LiveMap} (among : copy ∈ w.tabled) : copy ∈ w.live := by
  obtain ⟨b,member,inside⟩ := List.mem_flatMap.mp among
  refine List.mem_append_left _ (List.mem_flatMap.mpr ⟨b,List.mem_append_left _ member,?_⟩)
  exact List.mem_cons_of_mem _ inside

-- A world since some moment of which copies were opened, one for each entry of `opened`, and
-- nothing else has happened. Each copy has one participant on the way in.
structure Hosting (origin : World) (records : List InstanceRecord) (opened : List MapDefinition) (w : World) :
    Prop where
  sound : w.Sound
  accounted : w.Accounted
  catalog : w.catalog = origin.catalog
  schedule : w.schedule = origin.schedule
  running : w.shutdown = false
  largest : w.ids.limit = IdTable.largestId
  handed : Handed records opened.length w.ids.space.used
  copies : (w.tabled.map LiveMap.definition).Perm opened
  awaited : ∀ copy ∈ w.tabled, copy.participants = [] ∧ ∃ guest, copy.pending = [.enter guest]

theorem start_hosting {c : Catalog} (forest : c.Forest) (config : WorldConfig) (tiles : Terrain.TileSource)
    (saved : SavedState) : Hosting (start c config tiles saved) [] [] (start c config tiles saved) where
  sound := start_sound forest config tiles saved
  accounted := start_accounted c config tiles saved
  catalog := rfl
  schedule := rfl
  running := rfl
  largest := rfl
  handed := fun n _ => by simp [start,IdTable.sized_space,IdSpace.ofHighest]
  copies := .refl []
  awaited := fun copy among => by cases among

theorem replaySaved_hosting {c : Catalog} (forest : c.Forest) (config : WorldConfig) (tiles : Terrain.TileSource)
    {saved : SavedState} (numbered : saved.Numbered) :
    ∃ after, (start c config tiles saved).replaySaved = (after,.ok saved.instances.length) ∧
      Hosting (start c config tiles saved) saved.instances [] after := by
  obtain ⟨t,replayed,valid,largest,space⟩ := replaySaved_marks (w := start c config tiles saved) numbered
  have parts : Gently True (start c config tiles saved) (start c config tiles saved).replaySaved.1 :=
    replay_gently _ _ (SavedState.highestId_lt _) fun _ => rfl
  rw [replayed] at parts
  refine ⟨_,replayed,?_⟩
  exact {
    start_hosting forest config tiles saved with
    sound := parts.steps.sound (start_sound forest config tiles saved)
    accounted := parts.steps.accounted (start_sound forest config tiles saved) (start_accounted ..)
    largest := largest
    handed := fun n _ => by simp [space,start] }

theorem Hosting.ensured (hosting : Hosting origin records opened w) (ensured : Ensured w map middle host) :
    Hosting origin records opened middle := by
  have same := ensured.records
  have placed := ensured.tabled hosting.sound
  have parts : Gently True w middle := ensured.gently
  exact {
    sound := ensured.sound hosting.sound
    accounted := parts.steps.accounted hosting.sound hosting.accounted
    catalog := by rw [same]; exact hosting.catalog
    schedule := by rw [same]; exact hosting.schedule
    running := by rw [same]; exact hosting.running
    largest := by rw [same]; exact hosting.largest
    handed := by rw [same]; exact hosting.handed
    copies := (placed.map LiveMap.definition).trans hosting.copies
    awaited := fun copy among => hosting.awaited copy (placed.mem_iff.mp among) }

theorem Hosting.setSaved (hosting : Hosting origin records opened w) (saved : SavedState) :
    Hosting origin records opened {w with saved := saved} := by
  have alike : Alike w {w with saved := saved} := .of_records w saved w.shutdown w.schedule w.journal
  exact {
    hosting with
    sound := hosting.sound.alike alike
    accounted := hosting.accounted.alike alike }

theorem Hosting.createBase (hosting : Hosting origin records opened w)
    (defined : w.catalog.definition? map = some d) :
    ∃ after host, w.createBase map = (after,.ok host) ∧ Hosting origin records opened after := by
  obtain ⟨after,host,ran,ensured⟩ := createBase_ensured hosting.sound defined
  exact ⟨after,host,ran,hosting.ensured ensured⟩

-- The new copy alone has the new serial, so nobody else is sent into it.
theorem Hosting.opened_tabled (hosting : Hosting origin records opened w) {id : InstanceId}
    (registered : host ∈ w.maps) (tabled : host.isInstanceable = true) (unclaimed : id ∉ w.ids.claimed)
    (ids : IdTable) (template : Option InstanceTemplate) (request : InstanceRequest) (guest : ParticipantId) :
    let answer := {w with ids := ids}.addCopy host template id request
    (answer.1.queue answer.2.serial (.enter guest)).tabled.Perm (answer.2.queue (.enter guest) :: w.tabled) := by
  intro answer
  have placed := addCopy_tabled hosting.sound hosting.accounted registered tabled unclaimed ids template request
  have others : w.tabled.map (atSerial answer.2.serial (LiveMap.queue · (.enter guest))) = w.tabled := by
    refine (List.map_congr_left fun copy among => ?_).trans (List.map_id _)
    refine if_neg (Nat.ne_of_lt ?_)
    exact hosting.sound.born copy.serial (List.mem_map_of_mem (tabled_live among))
  rw [queue_tabled]
  refine (placed.map _).trans ?_
  rw [List.map_cons,others,atSerial,if_pos rfl]

theorem createCopy_fresh {table : CopyTable} {id : InstanceId} {used ids : IdTable} {request : InstanceRequest}
    (within : host.table = some table) (unbound : request.boundCopy? = none)
    (allocated : w.ids.allocate = .ok (id,used)) (claimed : used.claim id = .ok ids) :
    w.createCopy host request = (({w with ids := ids}.addCopy host table.template id request).1,
      .ok ({w with ids := ids}.addCopy host table.template id request).2) := by
  unfold createCopy takeFreshId
  simp only [within,unbound,allocated,claimed]

theorem createMap_fresh {table : CopyTable} {id : InstanceId} {used ids : IdTable} {request : InstanceRequest}
    (ran : w.createBase map = (middle,.ok host)) (within : host.table = some table)
    (unbound : request.boundCopy? = none) (allocated : middle.ids.allocate = .ok (id,used))
    (claimed : used.claim id = .ok ids) :
    let asked := {request with difficulty := (middle.catalog.downscale map request.difficulty).getD request.difficulty}
    let answer := {middle with ids := ids}.addCopy host table.template id asked
    w.createMap map request = (answer.1,.ok (some answer.2)) := by
  intro asked answer
  have fresh : middle.createCopy host asked = (answer.1,.ok answer.2) :=
    createCopy_fresh within unbound allocated claimed
  unfold createMap resolve
  rw [ran]
  simp only [BaseMap.isInstanceable_of_table within,if_true]
  rw [fresh]

theorem Hosting.createMap (hosting : Hosting origin records opened w) (defined : w.catalog.definition? d.id = some d)
    (instanceable : d.kind.instanceable = true)
    (room : opened.length < Nat.count (Unrecorded records) IdTable.largestId) {request : InstanceRequest}
    (unbound : request.boundCopy? = none) (guest : ParticipantId) :
    ∃ after copy, w.createMap d.id request = (after,.ok (some copy)) ∧
      copy.instanceId.order = Nat.nth (Unrecorded records) opened.length ∧
      copy.difficulty = (origin.catalog.downscale d.id request.difficulty).getD request.difficulty ∧
      Hosting origin records (opened ++ [d]) (after.queue copy.serial (.enter guest)) := by
  obtain ⟨middle,host,ran,ensured⟩ := createBase_ensured hosting.sound defined
  have based := hosting.ensured ensured
  have registered : host ∈ middle.maps := (base?_parts ensured.found).1
  have definition : host.own.definition = d := Option.some.inj ((ensured.defined hosting.sound).symm.trans defined)
  have tabled : host.isInstanceable = true := by
    have own := based.sound.bases host (List.mem_append_left _ registered)
    rw [own.tabled,definition,instanceable]
  obtain ⟨table,within⟩ := Option.isSome_iff_exists.mp tabled
  obtain ⟨id,used,ids,allocated,claimed,number,unclaimed,largest,handed⟩ :=
    IdTable.handed_next based.sound.ids based.largest based.handed room
  let asked : InstanceRequest :=
    {request with difficulty := (middle.catalog.downscale d.id request.difficulty).getD request.difficulty}
  let answer := {middle with ids := ids}.addCopy host table.template id asked
  have answered : w.createMap d.id request = (answer.1,.ok (some answer.2)) :=
    createMap_fresh ran within unbound allocated claimed
  have created : Gently True w answer.1 := by
    have parts : Gently True w (w.createMap d.id request).1 := createMap_gently hosting.sound d.id request
    rwa [answered] at parts
  have sound : answer.1.Sound := created.steps.sound hosting.sound
  have queued : Steps True answer.1 (answer.1.queue answer.2.serial (.enter guest)) :=
    perform_steps sound (.queue answer.2.serial (.enter guest)) fun _ => trivial
  have placed := based.opened_tabled registered tabled unclaimed ids table.template asked guest
  refine ⟨answer.1,answer.2,answered,number,?_,?_⟩
  · rw [←based.catalog]
    rfl
  · exact {
      sound := queued.sound sound
      accounted := queued.accounted sound (created.steps.accounted hosting.sound hosting.accounted)
      catalog := based.catalog
      schedule := based.schedule
      running := based.running
      largest := largest
      handed := by
        rw [List.length_append]
        exact handed
      copies := by
        refine (placed.map LiveMap.definition).trans ?_
        refine List.Perm.trans ?_ (List.perm_append_singleton d opened).symm
        exact definition ▸ based.copies.cons d
      awaited := fun copy among => by
        rcases List.mem_cons.mp (placed.mem_iff.mp among) with rfl | old
        · exact ⟨rfl,guest,rfl⟩
        · exact based.awaited copy old }

end World
end LiveMaps
