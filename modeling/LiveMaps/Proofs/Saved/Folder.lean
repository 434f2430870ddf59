import LiveMaps.Proofs.Files.Tree
import LiveMaps.Proofs.Keyed
import LiveMaps.Proofs.Saved.Records
import LiveMaps.Saved.Calls

namespace LiveMaps

namespace SavedState

structure Numbered (s : SavedState) : Prop where
  ascending : Ordered.Ascending InstanceRecord.order s.instances
  proper : ∀ r ∈ s.instances, r.id.isBase = false

variable {s : SavedState}

theorem Numbered.saveInstance {record : InstanceRecord} {next : SavedState} (numbered : s.Numbered)
    (saved : s.saveInstance? record = some next) : next.Numbered := by
  unfold saveInstance? at saved
  split at saved
  · cases saved
  · rename_i proper
    cases saved
    refine ⟨Ordered.insert_ascending numbered.ascending,fun r member => ?_⟩
    rcases Ordered.mem_of_insert member with rfl | old
    · exact eq_false_of_ne_true proper
    · exact numbered.proper r old

theorem Numbered.removeInstance (numbered : s.Numbered) (id : InstanceId) : (s.removeInstance id).Numbered := by
  unfold SavedState.removeInstance
  split
  · exact ⟨numbered.ascending.filter _,fun r member => numbered.proper r (List.mem_filter.mp member).1⟩
  · exact numbered

-- What a state has to be like to come back from its files as it was.
structure Durable (s : SavedState) : Prop where
  ascending : Ordered.Ascending InstanceRecord.order s.instances
  proper : ∀ r ∈ s.instances, r.id.isBase = false
  lasting : ∀ e ∈ s.corpses, e.location.Lasting

theorem empty_durable : empty.Durable :=
  ⟨List.Pairwise.nil,fun _ member => (nomatch member),fun _ member => (nomatch member)⟩

theorem Durable.numbered (durable : s.Durable) : s.Numbered := ⟨durable.ascending,durable.proper⟩

theorem Durable.saveInstance {record : InstanceRecord} {next : SavedState} (durable : s.Durable)
    (saved : s.saveInstance? record = some next) : next.Durable := by
  have numbered := durable.numbered.saveInstance saved
  refine ⟨numbered.ascending,numbered.proper,?_⟩
  unfold saveInstance? at saved
  split at saved
  · cases saved
  · cases saved
    exact durable.lasting

theorem Durable.removeInstance (durable : s.Durable) (id : InstanceId) : (s.removeInstance id).Durable := by
  have numbered := durable.numbered.removeInstance id
  refine ⟨numbered.ascending,numbered.proper,?_⟩
  unfold SavedState.removeInstance
  split
  · exact fun e member => durable.lasting e (List.mem_filter.mp member).1
  · exact durable.lasting

theorem Durable.saveRespawn (durable : s.Durable) (entry : RespawnEntry) : (s.saveRespawn entry).Durable :=
  ⟨durable.ascending,durable.proper,durable.lasting⟩

theorem Durable.saveCorpse {entry : CorpseEntry} (durable : s.Durable) (lasting : entry.location.Lasting) :
    (s.saveCorpse entry).Durable := by
  refine ⟨durable.ascending,durable.proper,fun e member => ?_⟩
  rcases List.mem_append.mp member with old | new
  · exact durable.lasting e (List.mem_filter.mp old).1
  · cases List.mem_singleton.mp new
    exact lasting

theorem Durable.removeCorpse (durable : s.Durable) (owner : ParticipantId) : (s.removeCorpse owner).Durable :=
  ⟨durable.ascending,durable.proper,fun e member => durable.lasting e (List.mem_filter.mp member).1⟩

end SavedState

namespace DirectoryStore
open Codec Json
variable {tree next : FileTree} {root : Route} {folder : Path} {file other : StoreFile} {s : SavedState}

structure Prepared (tree : FileTree) (root : Route) (folder : Path) : Prop where
  stands : tree.Stands root
  places : ∀ file : StoreFile, tree.place? (routeOf root file) = some (folder ++ [file.name])
  free : ∀ file : StoreFile, tree.isDirectory (folder ++ [file.name]) = false

theorem place_injective (folder : Path) (apart : other ≠ file) : folder ++ [other.name] ≠ folder ++ [file.name] := by
  intro same
  have names := List.singleton_inj.mp (List.append_cancel_left same)
  cases other <;> cases file <;> first | exact apart rfl | exact absurd names (by decide)

theorem Prepared.entryAt? (prepared : Prepared tree root folder) (file : StoreFile) :
    tree.entryAt? (routeOf root file) = tree.entry? (folder ++ [file.name]) :=
  FileTree.entryAt?_of_place (prepared.places file)

theorem Prepared.write (prepared : Prepared tree root folder) (file : StoreFile) (content : Content) :
    ∃ next, tree.write? (routeOf root file) content = some next ∧ Prepared next root folder ∧
      next.entry? (folder ++ [file.name]) = some (.file content) ∧
      ∀ other, other ≠ file → next.entry? (folder ++ [other.name]) = tree.entry? (folder ++ [other.name]) := by
  have free := prepared.free file
  have keeps := FileTree.set_keeps free (.file content)
  have own := FileTree.entry?_set_self tree (.file content) (FileTree.inside_of_free free)
  have others (other : StoreFile) (apart : other ≠ file) :=
    FileTree.entry?_set_ne tree (.file content) (place_injective folder apart)
  refine ⟨_,FileTree.write?_free (prepared.places file) free content,⟨prepared.stands.kept keeps,
    fun other => FileTree.place?_kept keeps (prepared.places other),fun other => ?_⟩,own,others⟩
  by_cases same : other = file
  · subst same
    simp [FileTree.isDirectory,own]
  · rw [FileTree.isDirectory,others other same]
    exact prepared.free other

theorem Prepared.writeFiles (prepared : Prepared tree root folder) (s : SavedState) (files : List StoreFile) :
    ∃ next, writeFiles noFaults root s files tree = (true,next) ∧ Prepared next root folder ∧
      (∀ file ∈ files, next.entry? (folder ++ [file.name]) = some (.file (file.content s))) ∧
      ∀ file, file ∉ files → next.entry? (folder ++ [file.name]) = tree.entry? (folder ++ [file.name]) := by
  induction files generalizing tree with
  | nil => exact ⟨tree,rfl,prepared,fun _ member => (nomatch member),fun _ _ => rfl⟩
  | cons file rest ih =>
    obtain ⟨middle,wrote,prepared,own,others⟩ := prepared.write file (file.content s)
    obtain ⟨next,done,prepared,later,kept⟩ := ih prepared
    refine ⟨next,?_,prepared,fun one member => ?_,fun one absent => ?_⟩
    · simp [DirectoryStore.writeFiles,writeFile?,noFaults,wrote]
      exact done
    · by_cases again : one ∈ rest
      · exact later one again
      · rcases List.mem_cons.mp member with rfl | among
        · rw [kept one again,own]
        · exact absurd among again
    · rw [List.mem_cons,not_or] at absent
      rw [kept one absent.2,others one absent.1]

-- Each file holds its part of the state. A part that holds nothing may have no file.
def Holds (tree : FileTree) (folder : Path) (s : SavedState) : Prop :=
  ∀ file : StoreFile, tree.entry? (folder ++ [file.name]) = some (.file (file.content s)) ∨
    tree.entry? (folder ++ [file.name]) = none ∧ file.document s = .array []

-- Every file whose document is another one after the change is written for it.
def Change.Complete (change : Change α) (s : SavedState) : Prop :=
  ∀ file, file ∉ change.files → file.document change.data = file.document s

theorem saveInstance_complete {s : DirectoryStore} {record : InstanceRecord} {change : Change Unit}
    (accepted : s.saveInstance record = .ok change) : change.Complete s.data := by
  unfold DirectoryStore.saveInstance SavedState.saveInstance? at accepted
  split at accepted
  · cases accepted
  · rename_i saved
    split at saved
    · cases saved
    · cases saved
      cases accepted
      intro file untouched
      cases file <;> first | rfl | simp at untouched

theorem removeInstance_complete (s : DirectoryStore) (id : InstanceId) :
    (s.removeInstance id).Complete s.data := by
  unfold DirectoryStore.removeInstance
  split
  · exact fun _ _ => rfl
  · intro file untouched
    cases file <;> first | rfl | simp at untouched

theorem removeInstance_parts (s : DirectoryStore) (id : InstanceId) :
    (s.removeInstance id).data = s.data.removeInstance id ∧ (s.removeInstance id).answer = s.data.instance? id := by
  unfold DirectoryStore.removeInstance SavedState.removeInstance
  cases s.data.instance? id with
  | none => exact ⟨rfl,rfl⟩
  | some record => exact ⟨rfl,rfl⟩

theorem saveRespawn_complete (s : DirectoryStore) (entry : RespawnEntry) :
    (s.saveRespawn entry).Complete s.data := by
  intro file untouched
  cases file <;> first | rfl | simp [DirectoryStore.saveRespawn] at untouched

theorem saveCorpse_complete (s : DirectoryStore) (entry : CorpseEntry) :
    (s.saveCorpse entry).Complete s.data := by
  intro file untouched
  cases file <;> first | rfl | simp [DirectoryStore.saveCorpse] at untouched

theorem removeCorpse_complete (s : DirectoryStore) (owner : ParticipantId) :
    (s.removeCorpse owner).Complete s.data := by
  unfold DirectoryStore.removeCorpse
  split
  · intro file untouched
    cases file <;> first | rfl | simp at untouched
  · exact fun _ _ => rfl

theorem removeCorpse_parts (s : DirectoryStore) (owner : ParticipantId) :
    (s.removeCorpse owner).data = s.data.removeCorpse owner ∧
      (s.removeCorpse owner).answer = s.data.hasCorpse owner := by
  unfold DirectoryStore.removeCorpse
  cases present : s.data.hasCorpse owner with
  | true => exact ⟨rfl,rfl⟩
  | false =>
    refine ⟨?_,rfl⟩
    have all : s.data.corpses.filter (fun e => e.owner != owner) = s.data.corpses := by
      unfold SavedState.hasCorpse at present
      rw [List.any_eq_false] at present
      exact List.filter_eq_self.mpr fun e member => by simpa using present e member
    simp [SavedState.removeCorpse,all]

theorem commit_eq (faults : Faults) (s : DirectoryStore) (tree : FileTree) (change : Change α)
    (answer : α → StoreAnswer) : let wrote := writeFiles faults s.root change.data change.files tree
    commit faults s tree change answer = ({s with data := change.data},wrote.2,
      if wrote.1 then answer change.answer else .failed .unreadable) := by
  unfold commit perform
  generalize DirectoryStore.writeFiles faults s.root change.data change.files tree = wrote
  obtain ⟨written,after⟩ := wrote
  cases written with
  | true => rfl
  | false => rfl

structure Kept (s : DirectoryStore) (tree : FileTree) (folder : Path) : Prop where
  prepared : Prepared tree s.root folder
  holds : Holds tree folder s.data
  durable : s.data.Durable

theorem Kept.commit {s : DirectoryStore} {change : Change α} (kept : Kept s tree folder)
    (complete : change.Complete s.data) (durable : change.data.Durable) (answer : α → StoreAnswer) :
    ∃ next, commit noFaults s tree change answer = ({s with data := change.data},next,answer change.answer) ∧
      Kept {s with data := change.data} next folder := by
  obtain ⟨next,wrote,prepared,own,others⟩ := kept.prepared.writeFiles change.data change.files
  refine ⟨next,by simp [commit_eq,wrote],prepared,fun file => ?_,durable⟩
  by_cases touched : file ∈ change.files
  · exact .inl (own file touched)
  · have same := complete file touched
    rw [others file touched,StoreFile.content,same]
    exact kept.holds file

theorem Kept.call {s : DirectoryStore} (kept : Kept s tree folder) (c : StoreCall)
    (lasting : ∀ entry, c = .saveCorpse entry → entry.location.Lasting) :
    ∃ next, s.call noFaults tree c = ({s with data := (s.data.call c).1},next,(s.data.call c).2) ∧
      Kept {s with data := (s.data.call c).1} next folder := by
  cases c with
  | saveInstance record =>
    simp only [DirectoryStore.call,SavedState.call]
    cases saved : s.data.saveInstance? record with
    | none =>
      simp only [saveInstance,saved]
      exact ⟨tree,rfl,kept⟩
    | some data =>
      have accepted : s.saveInstance record = .ok ⟨data,[.instances],()⟩ := by simp only [saveInstance,saved]
      simp only [accepted]
      exact kept.commit (saveInstance_complete accepted) (kept.durable.saveInstance saved) _
  | removeInstance id =>
    obtain ⟨data,answer⟩ := removeInstance_parts s id
    have done := kept.commit (removeInstance_complete s id) (data ▸ kept.durable.removeInstance id) .removedInstance
    rwa [data,answer] at done
  | saveRespawn entry =>
    exact kept.commit (saveRespawn_complete s entry) (kept.durable.saveRespawn entry) _
  | saveCorpse entry =>
    exact kept.commit (saveCorpse_complete s entry) (kept.durable.saveCorpse (lasting entry rfl)) _
  | removeCorpse owner =>
    obtain ⟨data,answer⟩ := removeCorpse_parts s owner
    have done := kept.commit (removeCorpse_complete s owner) (data ▸ kept.durable.removeCorpse owner) .removedCorpse
    rwa [data,answer] at done
  | instances => exact ⟨tree,rfl,kept⟩
  | highestId => exact ⟨tree,rfl,kept⟩
  | respawns map id => exact ⟨tree,rfl,kept⟩
  | corpses map id => exact ⟨tree,rfl,kept⟩

end DirectoryStore
end LiveMaps
