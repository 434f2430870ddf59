import LiveMaps.Proofs.Saved.Shown
import Mathlib.Data.List.TakeWhile

namespace LiveMaps

def StoreFile.Alike : StoreFile → SavedState → SavedState → Prop
  | .layout,_,_ => True
  | .instances,one,two => one.instances = two.instances
  | .respawns,one,two => one.respawns = two.respawns
  | .corpses,one,two => one.corpses = two.corpses

namespace StoreFile
variable {file : StoreFile} {one two three : SavedState}

theorem Alike.refl (file : StoreFile) (s : SavedState) : file.Alike s s := by
  cases file <;> trivial

theorem Alike.symm (same : file.Alike one two) : file.Alike two one := by
  cases file <;> first | trivial | exact Eq.symm same

theorem Alike.trans (first : file.Alike one two) (second : file.Alike two three) : file.Alike one three := by
  cases file <;> first | trivial | exact Eq.trans first second

end StoreFile

def StoreCall.absence? : StoreCall → Option (StoreAnswer × StoreFile)
  | .removeInstance _ => some (.removedInstance none,.instances)
  | .removeCorpse _ => some (.removedCorpse false,.corpses)
  | _ => none

namespace SavedState
variable {s shown data : SavedState} {file : StoreFile}

-- What a call that was answered promises of the directory: what was saved is there, and what was
-- removed is not, nor what went with it.
def Bears (shown : SavedState) : StoreCall → StoreAnswer → Prop
  | .saveInstance record,.saved => shown.instance? record.id = some record
  | .saveRespawn entry,.saved => shown.respawns.filter (fun e => e.samePoint entry) = [entry]
  | .saveCorpse entry,.saved => shown.corpses.filter (fun e => e.owner == entry.owner) = [entry]
  | .removeInstance id,.removedInstance removed => shown.instance? id = none ∧
    (removed.isSome → (∀ e ∈ shown.respawns, e.instanceId ≠ id) ∧ ∀ e ∈ shown.corpses, e.instanceId ≠ id)
  | .removeCorpse owner,.removedCorpse _ => ∀ e ∈ shown.corpses, e.owner ≠ owner
  | _,_ => True

theorem Durable.call (durable : s.Durable) {c : StoreCall}
    (lasting : ∀ entry, c = .saveCorpse entry → entry.location.Lasting) : (s.call c).1.Durable := by
  cases c with
  | saveInstance record =>
    simp only [SavedState.call]
    cases saved : s.saveInstance? record with
    | none => exact durable
    | some next => exact durable.saveInstance saved
  | removeInstance id => exact durable.removeInstance id
  | saveRespawn entry => exact durable.saveRespawn entry
  | saveCorpse entry => exact durable.saveCorpse (lasting entry rfl)
  | removeCorpse owner => exact durable.removeCorpse owner
  | instances | highestId | respawns | corpses => exact durable

theorem Durable.renewed (one : shown.Durable) (two : data.Durable) (files : List StoreFile) :
    (shown.renewed files data).Durable := by
  refine ⟨?_,?_,?_⟩ <;> dsimp only [SavedState.renewed] <;> split
  · exact two.ascending
  · exact one.ascending
  · exact two.proper
  · exact one.proper
  · exact two.lasting
  · exact one.lasting

theorem renewed_alike {files : List StoreFile} (member : file ∈ files) :
    file.Alike (shown.renewed files data) data := by
  cases file <;> simp [StoreFile.Alike,renewed,member]

theorem renewed_other {files : List StoreFile} (other : file ∉ files) :
    file.Alike (shown.renewed files data) shown := by
  cases file <;> simp [StoreFile.Alike,renewed,other]

theorem saveInstance_found {record : InstanceRecord} (numbered : s.Numbered)
    (saved : s.saveInstance? record = some data) : data.instance? record.id = some record := by
  have after := numbered.saveInstance saved
  unfold saveInstance? at saved
  split at saved
  · cases saved
  · cases saved
    refine (after.ascending.find?_iff fun one two first second => ?_).mpr ⟨Ordered.mem_insert_self,by simp⟩
    simp_all [InstanceRecord.order]

theorem removeInstance_gone (s : SavedState) (id : InstanceId) : (s.removeInstance id).instance? id = none := by
  unfold removeInstance
  split
  · simp [instance?]
  · rename_i absent
    simpa using absent

theorem removeInstance_empties {id : InstanceId} (present : (s.instance? id).isSome = true) :
    (∀ e ∈ (s.removeInstance id).respawns, e.instanceId ≠ id) ∧
      ∀ e ∈ (s.removeInstance id).corpses, e.instanceId ≠ id := by
  rw [removeInstance,if_pos present]
  exact ⟨fun e member => by simpa using (List.mem_filter.mp member).2,
    fun e member => by simpa using (List.mem_filter.mp member).2⟩

theorem saveRespawn_kept (s : SavedState) (entry : RespawnEntry) :
    (s.saveRespawn entry).respawns.filter (fun e => e.samePoint entry) = [entry] := by
  simp [saveRespawn,List.filter_append,List.filter_filter,RespawnEntry.samePoint]

theorem saveCorpse_kept (s : SavedState) (entry : CorpseEntry) :
    (s.saveCorpse entry).corpses.filter (fun e => e.owner == entry.owner) = [entry] := by
  have others : (s.corpses.filter (fun e => e.owner != entry.owner)).filter
      (fun e => e.owner == entry.owner) = [] := by
    simp [List.filter_filter]
  simp [saveCorpse,List.filter_append,others]

theorem removeCorpse_gone (s : SavedState) (owner : ParticipantId) :
    ∀ e ∈ (s.removeCorpse owner).corpses, e.owner ≠ owner :=
  fun e member => by simpa using (List.mem_filter.mp member).2

end SavedState

namespace DirectoryStore
variable {tree made now next : FileTree} {root : Route} {folder : Path} {shown : SavedState}
  {s again : DirectoryStore} {behind : List StoreFile}

def filesFor (s : DirectoryStore) : StoreCall → List StoreFile
  | .saveInstance record =>
    match s.saveInstance record with
    | .ok change => change.files
    | .error _ => []
  | .removeInstance id => (s.removeInstance id).files
  | .saveRespawn entry => (s.saveRespawn entry).files
  | .saveCorpse entry => (s.saveCorpse entry).files
  | .removeCorpse owner => (s.removeCorpse owner).files
  | _ => []

-- The files that are behind the state in memory after a change: those that it did not get to, and
-- those that were behind and are none of its files.
def leftBehind (faults : Faults) (files behind : List StoreFile) : List StoreFile :=
  behind.filter (fun file => file ∉ files) ++ files.dropWhile (fun file => !faults file)

-- A store that is opened in a directory, and its files, while the disk may refuse any file at any call. It
-- may be closed and opened again in between.
inductive Working (tree : FileTree) (root : Route) : DirectoryStore → FileTree → List StoreFile → Prop where
  | opened {s : DirectoryStore} {next : FileTree} : openAt tree root = (.ok s,next) → Working tree root s next []
  | call {s : DirectoryStore} {now : FileTree} {behind : List StoreFile} (faults : Faults) (c : StoreCall) :
      Working tree root s now behind →
      (∀ entry, c = .saveCorpse entry → entry.location.Lasting) →
      Working tree root (s.call faults now c).1 (s.call faults now c).2.1
        (leftBehind faults (s.filesFor c) behind)
  | reopened {s again : DirectoryStore} {now next : FileTree} {behind : List StoreFile} :
      Working tree root s now behind → openAt now root = (.ok again,next) → Working tree root again next []

-- Whatever is asked, the state in memory changes, and answers, as without a directory; then the files
-- are written, and only where one is refused the answer is another one.
theorem call_eq (faults : Faults) (s : DirectoryStore) (tree : FileTree) (c : StoreCall) :
    let wrote := writeFiles faults s.root (s.data.call c).1 (s.filesFor c) tree
    s.call faults tree c = ({s with data := (s.data.call c).1},wrote.2,
      if wrote.1 then (s.data.call c).2 else .failed .unreadable) := by
  cases c with
  | saveInstance record =>
    cases saved : s.data.saveInstance? record with
    | none =>
      simp only [DirectoryStore.call,SavedState.call,filesFor,DirectoryStore.saveInstance,saved]
      rfl
    | some data =>
      simp only [DirectoryStore.call,SavedState.call,filesFor,DirectoryStore.saveInstance,saved]
      exact commit_eq faults s tree ⟨data,[.instances],()⟩ _
  | removeInstance id =>
    obtain ⟨data,answer⟩ := removeInstance_parts s id
    have done := commit_eq faults s tree (s.removeInstance id) .removedInstance
    rwa [data,answer] at done
  | saveRespawn entry => exact commit_eq faults s tree (s.saveRespawn entry) _
  | saveCorpse entry => exact commit_eq faults s tree (s.saveCorpse entry) _
  | removeCorpse owner =>
    obtain ⟨data,answer⟩ := removeCorpse_parts s owner
    have done := commit_eq faults s tree (s.removeCorpse owner) .removedCorpse
    rwa [data,answer] at done
  | instances | highestId | respawns | corpses => rfl

theorem call_parts (faults : Faults) (shows_ : Shows tree s.root folder shown) (durable : s.data.Durable)
    {c : StoreCall} (lasting : ∀ entry, c = .saveCorpse entry → entry.location.Lasting) :
    ∃ next, s.call faults tree c = ({s with data := (s.data.call c).1},next,
        if (s.filesFor c).all (fun file => !faults file) then (s.data.call c).2 else .failed .unreadable) ∧
      Shows next s.root folder (shown.renewed (written faults (s.filesFor c)) (s.data.call c).1) := by
  have kept := durable.call lasting
  obtain ⟨next,wrote,later⟩ := shows_.writeFiles faults fun file (_ : file ∈ s.filesFor c) => kept.certain file
  refine ⟨next,?_,later⟩
  rw [call_eq,wrote]

theorem call_alike (s : DirectoryStore) {c : StoreCall} {file : StoreFile} (other : file ∉ s.filesFor c) :
    file.Alike (s.data.call c).1 s.data := by
  cases c with
  | saveInstance record =>
    simp only [filesFor,DirectoryStore.saveInstance,SavedState.call] at other ⊢
    cases saved : s.data.saveInstance? record with
    | none => exact .refl file s.data
    | some data =>
      simp only [saved] at other
      unfold SavedState.saveInstance? at saved
      split at saved
      · cases saved
      · cases saved
        cases file <;> trivial
  | removeInstance id =>
    simp only [filesFor,DirectoryStore.removeInstance,SavedState.call,SavedState.removeInstance] at other ⊢
    cases found : s.data.instance? id with
    | none => exact .refl file s.data
    | some record =>
      simp only [found] at other
      cases file <;> trivial
  | saveRespawn entry =>
    cases file <;> first | trivial | rfl | exact absurd List.mem_cons_self other
  | saveCorpse entry =>
    cases file <;> first | trivial | rfl | exact absurd List.mem_cons_self other
  | removeCorpse owner =>
    have data := (removeCorpse_parts s owner).1
    simp only [SavedState.call,←data]
    simp only [filesFor,DirectoryStore.removeCorpse] at other ⊢
    split at other
    · rename_i present
      rw [if_pos present]
      cases file <;> first | trivial | rfl | exact absurd List.mem_cons_self other
    · rename_i absent
      rw [if_neg absent]
      exact .refl file s.data
  | instances | highestId | respawns | corpses => exact .refl file s.data

theorem not_leftBehind {faults : Faults} {files : List StoreFile} {file : StoreFile}
    (current : file ∉ leftBehind faults files behind) :
    file ∈ written faults files ∨ file ∉ files ∧ file ∉ behind := by
  rw [leftBehind,List.mem_append,not_or] at current
  by_cases own : file ∈ files
  · rw [←List.takeWhile_append_dropWhile (p := fun file => !faults file) (l := files),List.mem_append] at own
    exact .inl (own.resolve_right current.2)
  · refine .inr ⟨own,fun late => current.1 ?_⟩
    exact List.mem_filter.mpr ⟨late,by simpa using own⟩

theorem Working.parts (vacant : Vacant tree made root) (work : Working tree root s now behind) :
    s.root = root ∧ s.data.Durable ∧ ∃ folder shown, Shows now root folder shown ∧ shown.Durable ∧
      ∀ file, file ∉ behind → file.Alike shown s.data := by
  induction work with
  | opened opens =>
    obtain ⟨_,_,opened,kept⟩ := vacant.openAt
    rw [opened] at opens
    cases opens
    obtain ⟨_,shown⟩ := openAt_shows opened
    exact ⟨rfl,kept.durable,_,_,shown,kept.durable,fun file _ => .refl file _⟩
  | @call s now behind faults c _ lasting ih =>
    obtain ⟨rfl,durable,folder,shown,shows_,old,follows⟩ := ih
    obtain ⟨next,called,later⟩ := call_parts faults shows_ durable lasting
    have fresh := durable.call lasting
    rw [called]
    refine ⟨rfl,fresh,folder,_,later,old.renewed fresh _,fun file current => ?_⟩
    rcases not_leftBehind current with wrote | ⟨other,before⟩
    · exact SavedState.renewed_alike wrote
    · have apart : file ∉ written faults (s.filesFor c) := fun among =>
        other ((List.takeWhile_sublist _).mem among)
      exact .trans (SavedState.renewed_other apart) (.trans (follows file before) (.symm (call_alike s other)))
  | reopened _ opens ih =>
    obtain ⟨_,_,folder,shown,shows_,old,_⟩ := ih
    rw [shows_.openAt] at opens
    cases opens
    exact ⟨rfl,old,folder,shown,shows_,old,fun file _ => .refl file _⟩

-- Where the directory shows the state in memory in the files of a call, it bears out the answer. A
-- call that finds nothing to remove has no file of its own and goes by the one it would have written.
theorem call_bears (s : DirectoryStore) (numbered : s.data.Numbered) {c : StoreCall}
    (follows : ∀ file, file ∈ s.filesFor c ∨ c.absence? = some ((s.data.call c).2,file) →
      file.Alike shown (s.data.call c).1) : shown.Bears c (s.data.call c).2 := by
  cases c with
  | saveInstance record =>
    simp only [SavedState.call,filesFor,DirectoryStore.saveInstance] at follows ⊢
    cases saved : s.data.saveInstance? record with
    | none => trivial
    | some data =>
      simp only [saved] at follows ⊢
      have instances : shown.instances = data.instances := follows .instances (.inl List.mem_cons_self)
      simp only [SavedState.Bears,SavedState.instance?,instances]
      exact SavedState.saveInstance_found numbered saved
  | removeInstance id =>
    have gone := s.data.removeInstance_gone id
    simp only [SavedState.call,filesFor,DirectoryStore.removeInstance] at follows ⊢
    cases found : s.data.instance? id with
    | none =>
      simp only [found] at follows
      have instances : shown.instances = (s.data.removeInstance id).instances := follows .instances (.inr rfl)
      simp only [SavedState.Bears,SavedState.instance?,instances]
      exact ⟨gone,fun removed => by cases removed⟩
    | some record =>
      simp only [found] at follows
      have instances : shown.instances = (s.data.removeInstance id).instances :=
        follows .instances (.inl (by simp))
      have respawns : shown.respawns = (s.data.removeInstance id).respawns :=
        follows .respawns (.inl (by simp))
      have corpses : shown.corpses = (s.data.removeInstance id).corpses :=
        follows .corpses (.inl (by simp))
      simp only [SavedState.Bears,SavedState.instance?,instances,respawns,corpses]
      exact ⟨gone,fun _ => SavedState.removeInstance_empties (by rw [found]; rfl)⟩
  | saveRespawn entry =>
    have respawns : shown.respawns = (s.data.saveRespawn entry).respawns :=
      follows .respawns (.inl List.mem_cons_self)
    simp only [SavedState.call,SavedState.Bears,respawns]
    exact s.data.saveRespawn_kept entry
  | saveCorpse entry =>
    have corpses : shown.corpses = (s.data.saveCorpse entry).corpses :=
      follows .corpses (.inl List.mem_cons_self)
    simp only [SavedState.call,SavedState.Bears,corpses]
    exact s.data.saveCorpse_kept entry
  | removeCorpse owner =>
    have corpses : shown.corpses = (s.data.removeCorpse owner).corpses := by
      refine follows .corpses ?_
      cases present : s.data.hasCorpse owner with
      | true => exact .inl (by simp [filesFor,DirectoryStore.removeCorpse,present])
      | false => exact .inr (by simp [StoreCall.absence?,SavedState.call,present])
    simp only [SavedState.call,SavedState.Bears,corpses]
    exact s.data.removeCorpse_gone owner
  | instances | highestId | respawns | corpses => trivial

theorem failed_bears (shown : SavedState) (c : StoreCall) (e : StoreError) : shown.Bears c (.failed e) := by
  cases c <;> trivial

theorem absence_again (s : DirectoryStore) (tree : FileTree) (faults : Faults) {c : StoreCall}
    {answer : StoreAnswer} {file : StoreFile} (removal : c.absence? = some (answer,file)) :
    ({s with data := (s.data.call c).1} : DirectoryStore).call faults tree c =
      ({s with data := (s.data.call c).1},tree,answer) := by
  cases c with
  | removeInstance id =>
    cases removal
    have gone := s.data.removeInstance_gone id
    simp only [SavedState.call,DirectoryStore.call,DirectoryStore.removeInstance,gone]
    rfl
  | removeCorpse owner =>
    cases removal
    have gone : (s.data.removeCorpse owner).hasCorpse owner = false := by
      refine List.any_eq_false.mpr fun e member => ?_
      simpa using s.data.removeCorpse_gone owner e member
    simp only [SavedState.call,DirectoryStore.call,DirectoryStore.removeCorpse,gone]
    rfl
  | _ => cases removal

-- Whatever the disk refuses on the way, a directory can be opened again after each call, and bears out every
-- answer to it but that there was nothing to remove, which it does only if the file in question is not behind.
theorem faulty_calls (vacant : Vacant tree made root) :
    (∃ s next, openAt tree root = (.ok s,next) ∧ s.data = .empty) ∧
    ∀ {s now behind}, Working tree root s now behind →
    ∀ (faults : Faults) (c : StoreCall), (∀ entry, c = .saveCorpse entry → entry.location.Lasting) →
      let called := s.call faults now c
      (∃ shown, openAt called.2.1 root = (.ok ⟨root,shown⟩,called.2.1) ∧
        (∀ file, file ∉ leftBehind faults (s.filesFor c) behind → file.Alike shown called.1.data) ∧
        ((∀ file, c.absence? = some (called.2.2,file) → file ∉ behind) → shown.Bears c called.2.2)) ∧
      ∀ answer file, c.absence? = some (answer,file) →
        ∀ again : Faults, called.1.call again called.2.1 c = (called.1,called.2.1,answer) := by
  obtain ⟨_,empty,opened,_⟩ := vacant.openAt
  refine ⟨⟨_,empty,opened,rfl⟩,fun {s now behind} work faults c lasting => ?_⟩
  obtain ⟨rfl,durable,_,old,shows_,_,before⟩ := work.parts vacant
  obtain ⟨_,_,_,shown,later,_,follows⟩ := (work.call faults c lasting).parts vacant
  obtain ⟨next,called,_⟩ := call_parts faults shows_ durable lasting
  rw [called] at later follows ⊢
  refine ⟨⟨shown,later.openAt,follows,fun current => ?_⟩,fun answer file removal again => ?_⟩
  · dsimp only at current ⊢
    split
    · rename_i all
      rw [if_pos all] at current
      refine call_bears s durable.numbered fun file among => follows file ?_
      rw [leftBehind,List.mem_append,not_or]
      constructor
      · intro late
        obtain ⟨earlier,other⟩ := List.mem_filter.mp late
        rcases among with own | absent
        · simp [own] at other
        · exact current file absent earlier
      · rw [List.dropWhile_eq_nil_iff.mpr (List.all_eq_true.mp all)]
        exact List.not_mem_nil
    · exact failed_bears shown c .unreadable
  · exact absence_again s next again removal

-- A copy whose file was refused at first is there once it was saved again.
theorem faulty_calls_retried : ∃ s next, openAt .empty ⟨["saves"]⟩ = (.ok s,next) ∧
    let refused := s.call (fun _ => true) next (.saveInstance ⟨⟨7⟩,⟨36⟩,.heroic,0⟩)
    let called := refused.1.call noFaults refused.2.1 (.saveInstance ⟨⟨7⟩,⟨36⟩,.heroic,0⟩)
    refused.2.2 = .failed .unreadable ∧ called.2.2 = .saved ∧
      ∃ shown, openAt called.2.1 ⟨["saves"]⟩ = (.ok ⟨⟨["saves"]⟩,shown⟩,called.2.1) ∧
        shown.instance? ⟨7⟩ = some ⟨⟨7⟩,⟨36⟩,.heroic,0⟩ := by
  obtain ⟨⟨⟨root,data⟩,next,opens,rfl⟩,promised⟩ := faulty_calls vacant_saves
  obtain ⟨rfl,_⟩ := openAt_shows opens
  have work := (Working.opened opens).call (fun _ => true) (.saveInstance ⟨⟨7⟩,⟨36⟩,.heroic,0⟩) nofun
  obtain ⟨_,durable,_,_,shows_,_⟩ := work.parts vacant_saves
  obtain ⟨made,saved,_⟩ := call_parts noFaults shows_ durable (c := .saveInstance ⟨⟨7⟩,⟨36⟩,.heroic,0⟩) nofun
  obtain ⟨shown,reads,_,bears⟩ := (promised work noFaults (.saveInstance ⟨⟨7⟩,⟨36⟩,.heroic,0⟩) nofun).1
  rw [saved] at bears reads
  refine ⟨_,_,opens,rfl,?_⟩
  rw [saved]
  exact ⟨rfl,shown,reads,bears nofun⟩

-- A removal that was refused is answered as done when it is asked for again, and yet the copy is still there.
theorem removal_forgotten : ∃ s now behind, Working .empty ⟨["saves"]⟩ s now behind ∧
    ∃ faults, let refused := s.call faults now (.removeInstance ⟨7⟩)
      let called := refused.1.call noFaults refused.2.1 (.removeInstance ⟨7⟩)
      refused.2.2 = .failed .unreadable ∧ called.2.2 = .removedInstance none ∧
        ∃ shown, openAt called.2.1 ⟨["saves"]⟩ = (.ok ⟨⟨["saves"]⟩,shown⟩,called.2.1) ∧
          shown.instance? ⟨7⟩ = some ⟨⟨7⟩,⟨36⟩,.heroic,0⟩ := by
  obtain ⟨_,_,opens,_⟩ := vacant_saves.openAt
  have work := Working.opened opens
  obtain ⟨_,durable,_,_,shows_,_⟩ := work.parts vacant_saves
  obtain ⟨_,saved,later⟩ := call_parts noFaults shows_ durable (c := .saveInstance ⟨⟨7⟩,⟨36⟩,.heroic,0⟩) nofun
  have work := work.call noFaults (.saveInstance ⟨⟨7⟩,⟨36⟩,.heroic,0⟩) nofun
  rw [saved] at work
  exact ⟨_,_,_,work,fun _ => true,rfl,rfl,_,later.openAt,rfl⟩

end DirectoryStore
end LiveMaps
