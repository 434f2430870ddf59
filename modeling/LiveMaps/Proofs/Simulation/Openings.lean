import LiveMaps.Proofs.Saved.Shown
import LiveMaps.Proofs.Simulation.Hosting

namespace LiveMaps
open Ordered SavedState

namespace Simulation
variable {c : Catalog} {old : List InstanceRecord} {opened : List MapDefinition} {d : MapDefinition}
  {r : InstanceRecord}

def records : Option DirectoryStore → List InstanceRecord
  | none => []
  | some store => store.data.instances

def openings (copies : Nat) (maps : List MapDefinition) : List MapDefinition :=
  maps.flatMap (fun d => List.replicate (if d.kind.instanceable then copies else 0) d)

-- The record of the copy that is opened after `count` others.
structure NewRecord (c : Catalog) (old : List InstanceRecord) (count : Nat) (d : MapDefinition)
    (r : InstanceRecord) : Prop where
  number : r.order = Nat.nth (Unrecorded old) count
  map : r.map = d.id
  difficulty : r.difficulty = (c.downscale d.id .normal).getD .normal
  lasting : r.resetAt = 0

def Added (c : Catalog) (old : List InstanceRecord) (opened : List MapDefinition) (r : InstanceRecord) : Prop :=
  ∃ count d, opened[count]? = some d ∧ NewRecord c old count d r

theorem NewRecord.unique {count : Nat} {other : InstanceRecord} (one : NewRecord c old count d r)
    (two : NewRecord c old count d other) : r = other := by
  have id : r.id = other.id := InstanceId.order_inj.mp (one.number.trans two.number.symm)
  have map := one.map.trans two.map.symm
  have difficulty := one.difficulty.trans two.difficulty.symm
  have lasting := one.lasting.trans two.lasting.symm
  cases r
  cases other
  simp_all

theorem added_concat (recorded : NewRecord c old opened.length d r) {other : InstanceRecord} :
    Added c old (opened ++ [d]) other ↔ other = r ∨ Added c old opened other := by
  constructor
  · rintro ⟨count,d',found,record⟩
    rw [List.getElem?_append] at found
    split at found
    · exact .inr ⟨count,d',found,record⟩
    · rename_i past
      obtain ⟨only,rfl⟩ := List.getElem?_eq_some_iff.mp found
      have last : count = opened.length := by
        rw [List.length_singleton] at only
        omega
      subst last
      simp only [Nat.sub_self,List.getElem_singleton] at record
      exact .inl (record.unique recorded)
  · rintro (rfl | ⟨count,d',found,record⟩)
    · exact ⟨opened.length,d,List.getElem?_concat_length,recorded⟩
    · exact ⟨count,d',(List.getElem?_append_left (List.getElem?_eq_some_iff.mp found).1).trans found,record⟩

-- No record stands under the identifier of the copy that is opened next.
theorem NewRecord.fresh (recorded : NewRecord c old opened.length d r) {other : InstanceRecord}
    (member : other ∈ old ∨ Added c old opened other) : other.order ≠ r.order := by
  have infinite := unrecorded_infinite old
  rw [recorded.number]
  rcases member with before | ⟨count,_,found,record⟩
  · exact (Nat.nth_mem_of_infinite infinite opened.length).2 other before
  · rw [record.number]
    have earlier : count < opened.length := (List.getElem?_eq_some_iff.mp found).1
    exact fun same => Nat.ne_of_lt earlier (Nat.nth_injective infinite same)

end Simulation

namespace DirectoryStore

theorem saveInstance_shown {s : DirectoryStore} {files : FileTree} {folder : Path} {record : InstanceRecord}
    (shows_ : Shows files s.root folder s.data) (numbered : s.data.Numbered) (proper : record.id.isBase = false) :
    let data : SavedState := {s.data with instances := insert InstanceRecord.order record s.data.instances}
    ∃ next, s.saveInstance record = .ok ⟨data,[.instances],()⟩ ∧
      perform noFaults s files ⟨data,[.instances],()⟩ = ({s with data := data},next,.ok ()) ∧
      data.Numbered ∧ Shows next s.root folder data := by
  intro data
  have saved : s.data.saveInstance? record = some data := if_neg (Bool.eq_false_iff.mp proper)
  have kept : data.Numbered := numbered.saveInstance saved
  have certain : ∀ file ∈ [StoreFile.instances], file.Certain data := fun file among => by
    cases List.mem_singleton.mp among
    exact kept
  obtain ⟨next,wrote,later⟩ := shows_.writeFiles noFaults certain
  refine ⟨next,?_,?_,kept,later⟩
  · simp only [saveInstance,saved]
  · simp only [perform,wrote]
    rfl

end DirectoryStore

namespace Simulation

structure Filed (c : Catalog) (before : DirectoryStore) (opened : List MapDefinition) (store : DirectoryStore)
    (files : FileTree) : Prop where
  root : store.root = before.root
  shows_ : DirectoryStore.Shows files before.root (FileTree.target before.root) store.data
  numbered : store.data.Numbered
  instances : ∀ r, r ∈ store.data.instances ↔
    r ∈ before.data.instances ∨ Added c before.data.instances opened r
  respawns : store.data.respawns = before.data.respawns
  corpses : store.data.corpses = before.data.corpses

inductive Filing (c : Catalog) (opened : List MapDefinition) :
    Option DirectoryStore → Option DirectoryStore → FileTree → Prop where
  | nowhere (files) : Filing c opened none none files
  | stored {before store files} : Filed c before opened store files →
      Filing c opened (some before) (some store) files

structure Opened (origin : Session) (opened : List MapDefinition) (s : Session) : Prop where
  hosting : World.Hosting origin.world (records origin.store) opened s.world
  filing : Filing origin.world.catalog opened origin.store s.store s.files

variable {c : Catalog} {opened : List MapDefinition} {d : MapDefinition} {before store : DirectoryStore}
  {files : FileTree} {record : InstanceRecord} {origin s : Session}

theorem Filed.save (filed : Filed c before opened store files)
    (recorded : NewRecord c before.data.instances opened.length d record) (proper : record.id.isBase = false) :
    ∃ next data, store.saveInstance record = .ok ⟨data,[.instances],()⟩ ∧
      DirectoryStore.perform DirectoryStore.noFaults store files ⟨data,[.instances],()⟩ =
        ({store with data := data},next,.ok ()) ∧
      Filed c before (opened ++ [d]) {store with data := data} next := by
  obtain ⟨next,saved,performed,numbered,later⟩ :=
    DirectoryStore.saveInstance_shown (filed.root.symm ▸ filed.shows_) filed.numbered proper
  refine ⟨next,_,saved,performed,filed.root,filed.root ▸ later,numbered,fun r => ?_,filed.respawns,filed.corpses⟩
  rw [mem_insert filed.numbered.ascending,added_concat recorded,filed.instances]
  constructor
  · rintro (rfl | ⟨old | added,_⟩)
    · exact .inr (.inl rfl)
    · exact .inl old
    · exact .inr (.inr added)
  · rintro (old | rfl | added)
    · exact .inr ⟨.inl old,recorded.fresh (.inl old)⟩
    · exact .inl rfl
    · exact .inr ⟨.inr added,recorded.fresh (.inr added)⟩

theorem Filing.save (filing : Filing origin.world.catalog opened origin.store s.store s.files)
    (hosting : World.Hosting origin.world (records origin.store) (opened ++ [d]) s.world)
    (recorded : NewRecord origin.world.catalog (records origin.store) opened.length d record)
    (proper : record.id.isBase = false) :
    ∃ next, s.save record = (next,none) ∧ Opened origin (opened ++ [d]) next := by
  obtain ⟨first,before,_,_⟩ := origin
  obtain ⟨world,store,files,guests⟩ := s
  cases filing with
  | nowhere => exact ⟨_,rfl,hosting,.nowhere files⟩
  | @stored before store files filed =>
    obtain ⟨next,data,saved,performed,later⟩ := filed.save recorded proper
    let after := Session.withStore ⟨world,some store,files,guests⟩ {store with data := data} next
    refine ⟨after,?_,hosting.setSaved data,.stored later⟩
    simp only [Session.save,saved,performed,after]

theorem Opened.openCopy (state : Opened origin opened s) (defined : origin.world.catalog.definition? d.id = some d)
    (instanceable : d.kind.instanceable = true)
    (room : opened.length < Nat.count (Unrecorded (records origin.store)) IdTable.largestId) :
    ∃ next, s.openCopy d.id = (next,none) ∧ Opened origin (opened ++ [d]) next := by
  obtain ⟨hosting,filing⟩ := state
  let guest := ParticipantId.ofNat (s.guests + 1)
  let request : InstanceRequest := {participant := guest, difficulty := .normal}
  have unbound : request.boundCopy? = none := rfl
  obtain ⟨after,copy,created,number,difficulty,hosting⟩ :=
    hosting.createMap (hosting.catalog.symm ▸ defined) instanceable room unbound guest
  have recorded : NewRecord origin.world.catalog (records origin.store) opened.length d
      ⟨copy.instanceId,d.id,copy.difficulty,0⟩ := ⟨number,rfl,difficulty,rfl⟩
  have proper : copy.instanceId ≠ .base := InstanceId.order_pos.mp
    (number ▸ (Nat.nth_mem_of_infinite (unrecorded_infinite _) opened.length).1)
  let entered : Session := {s with world := after.queue copy.serial (.enter guest), guests := s.guests + 1}
  have filed : Filing origin.world.catalog opened origin.store entered.store entered.files := filing
  obtain ⟨next,saved,state⟩ := filed.save hosting recorded (InstanceId.isBase_eq_false.mpr proper)
  refine ⟨next,?_,state⟩
  unfold Session.openCopy
  dsimp only
  rw [created]
  exact saved

-- By induction on the copies that are still to be opened, on one map and then on one map after another.

theorem Opened.openCopies (state : Opened origin opened s)
    (defined : origin.world.catalog.definition? d.id = some d)
    {count : Nat} (instanceable : 0 < count → d.kind.instanceable = true)
    (room : opened.length + count ≤ Nat.count (Unrecorded (records origin.store)) IdTable.largestId) :
    ∃ next, Session.openCopies count s d.id = (next,none) ∧
      Opened origin (opened ++ List.replicate count d) next := by
  induction count generalizing opened s with
  | zero => exact ⟨s,rfl,by simpa using state⟩
  | succ count ih =>
    obtain ⟨middle,first,state⟩ := state.openCopy defined (instanceable (Nat.succ_pos count)) (by omega)
    obtain ⟨next,rest,state⟩ := ih state (fun _ => instanceable (Nat.succ_pos count))
      (by rw [List.length_append,List.length_singleton]; omega)
    refine ⟨next,?_,?_⟩
    · simp only [Session.openCopies,first,rest]
    · rwa [List.append_assoc,List.singleton_append,←List.replicate_succ] at state

theorem Opened.openRoots (state : Opened origin opened s) {copies : Nat} {maps : List MapDefinition}
    (defined : ∀ d ∈ maps, origin.world.catalog.definition? d.id = some d)
    (room : opened.length + (openings copies maps).length ≤
      Nat.count (Unrecorded (records origin.store)) IdTable.largestId) :
    ∃ next, s.openRoots copies maps = (next,none) ∧ Opened origin (opened ++ openings copies maps) next := by
  induction maps generalizing opened s with
  | nil => exact ⟨s,rfl,by simpa [openings] using state⟩
  | cons d rest ih =>
    let count := if d.kind.instanceable then copies else 0
    have split : openings copies (d :: rest) = List.replicate count d ++ openings copies rest := List.flatMap_cons
    have instanceable : 0 < count → d.kind.instanceable = true := fun positive => by
      by_contra plain
      simp [count,plain] at positive
    rw [split,List.length_append,List.length_replicate] at room
    have known := defined d List.mem_cons_self
    obtain ⟨world,host,created,hosting⟩ := state.hosting.createBase (state.hosting.catalog.symm ▸ known)
    have based : Opened origin opened {s with world := world} := ⟨hosting,state.filing⟩
    obtain ⟨middle,first,state⟩ := based.openCopies known instanceable (by omega)
    obtain ⟨next,later,state⟩ := ih state (fun other member => defined other (List.mem_cons_of_mem d member))
      (by rw [List.length_append,List.length_replicate]; omega)
    refine ⟨next,?_,?_⟩
    · simp only [Session.openRoots,created]
      rw [first]
      exact later
    · rwa [List.append_assoc,←split] at state

theorem start_opened {c : Catalog} (forest : c.Forest) (config : WorldConfig) (tiles : Terrain.TileSource)
    {store : Option DirectoryStore} {files : FileTree} (shown : ∀ s, store = some s →
      s.data.Numbered ∧ DirectoryStore.Shows files s.root (FileTree.target s.root) s.data) :
    ∃ s, (Session.start c config tiles store files).replay = (s,.ok (store.map (·.data.instances.length))) ∧
      Opened (Session.start c config tiles store files) [] s := by
  cases store with
  | none => exact ⟨_,rfl,World.start_hosting forest config tiles .empty,.nowhere files⟩
  | some store =>
    obtain ⟨numbered,shows_⟩ := shown store rfl
    obtain ⟨after,replayed,hosting⟩ := World.replaySaved_hosting forest config tiles numbered
    refine ⟨{Session.start c config tiles (some store) files with world := after},?_,hosting,.stored ?_⟩
    · unfold Session.replay
      simp only [Session.start,replayed]
      rfl
    · exact ⟨rfl,shows_,numbered,fun r => by simp [Added],rfl,rfl⟩

end Simulation
end LiveMaps
