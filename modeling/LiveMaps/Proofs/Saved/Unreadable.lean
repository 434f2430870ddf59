import LiveMaps.Proofs.Saved.Faulty
import LiveMaps.Proofs.Saved.Numbering
import LiveMaps.Proofs.Saved.Rereading

namespace LiveMaps.DirectoryStore
open Codec Json

-- A store that is opened in some directory, and its files, while the disk may refuse any file.
inductive Used (root : Route) : DirectoryStore → FileTree → Prop where
  | opened {tree : FileTree} {s : DirectoryStore} {next : FileTree} : openAt tree root = (.ok s,next) → Used root s next
  | call {s : DirectoryStore} {now : FileTree} (faults : Faults) (c : StoreCall) : Used root s now →
      Used root (s.call faults now c).1 (s.call faults now c).2.1

structure Sturdy (tree : FileTree) (root : Route) (folder : Path) : Prop where
  prepared : Prepared tree root folder
  layout : ∃ content, tree.entry? (folder ++ [StoreFile.layout.name]) = some (.file content) ∧
    StoreMeta.codec.read? content = some ⟨StoreFile.schemaVersion⟩
  instances : ∃ records, readList tree root .instances InstanceRecord.codec = .ok records ∧
    records.any (fun r => r.id.isBase) = false
  respawns : ∃ entries, readList tree root .respawns RespawnEntry.codec = .ok entries

variable {tree now : FileTree} {root : Route} {folder : Path} {shown data : SavedState} {s : DirectoryStore}

theorem Shows.sturdy (shows_ : Shows tree root folder shown) : Sturdy tree root folder := by
  obtain ⟨records,read,proper,_⟩ := shows_.instances
  exact ⟨shows_.prepared,shows_.layout,⟨records,read,proper⟩,⟨_,shows_.respawns⟩⟩

-- Then the corpses alone decide whether a store can be opened there.
theorem Sturdy.openAt (sturdy : Sturdy tree root folder) : ∃ rest : SavedState, openAt tree root =
    ((readList tree root .corpses CorpseEntry.codec).map (fun corpses => ⟨root,{rest with corpses}⟩),tree) := by
  obtain ⟨content,written,version⟩ := sturdy.layout
  obtain ⟨records,instances,proper⟩ := sturdy.instances
  obtain ⟨entries,respawns⟩ := sturdy.respawns
  have layout := readLayout_version sturdy.prepared written version
  refine ⟨⟨Ordered.ofList InstanceRecord.order records,entries,[]⟩,?_⟩
  simp only [DirectoryStore.openAt,sturdy.prepared.stands.createDirectories,layout,readState,instances,respawns,bind,
    Except.bind,proper,Bool.false_eq_true,if_false]
  cases readList tree root .corpses CorpseEntry.codec <;> rfl

theorem Sturdy.write (sturdy : Sturdy tree root folder) (numbered : data.Numbered) (file : StoreFile) :
    ∃ next, tree.write? (routeOf root file) (file.content data) = some next ∧ Sturdy next root folder ∧
      next.entry? (folder ++ [file.name]) = some (.file (file.content data)) ∧
      ∀ other, other ≠ file → next.entry? (folder ++ [other.name]) = tree.entry? (folder ++ [other.name]) := by
  obtain ⟨next,wrote,prepared,own,others⟩ := sturdy.prepared.write file (file.content data)
  refine ⟨next,wrote,⟨prepared,version_written own others sturdy.layout,?_,?_⟩,own,others⟩
  · by_cases here : file = .instances
    · subst here
      refine ⟨_,readList_written prepared own rfl fun r _ => InstanceRecord.codec_faithful r,?_⟩
      exact List.any_eq_false.mpr fun r member => by simp [numbered.proper r member]
    · rw [readList_congr sturdy.prepared prepared (others _ (Ne.symm here))]
      exact sturdy.instances
  · by_cases here : file = .respawns
    · subst here
      exact ⟨_,readList_written prepared own rfl fun e _ => RespawnEntry.codec_faithful e⟩
    · rw [readList_congr sturdy.prepared prepared (others _ (Ne.symm here))]
      exact sturdy.respawns

theorem Sturdy.writeFiles (sturdy : Sturdy tree root folder) (numbered : data.Numbered) (faults : Faults)
    (files : List StoreFile) : let next := (writeFiles faults root data files tree).2
    Sturdy next root folder ∧ ∀ file, file ∉ files →
      next.entry? (folder ++ [file.name]) = tree.entry? (folder ++ [file.name]) := by
  induction files generalizing tree with
  | nil => exact ⟨sturdy,fun _ _ => rfl⟩
  | cons file rest ih =>
    cases refused : faults file with
    | true =>
      simp only [DirectoryStore.writeFiles,writeFile?,refused,if_true]
      exact ⟨sturdy,fun _ _ => trivial⟩
    | false =>
      obtain ⟨middle,wrote,first,_,others⟩ := sturdy.write numbered file
      obtain ⟨last,kept⟩ := ih first
      simp only [DirectoryStore.writeFiles,writeFile?,refused,Bool.false_eq_true,if_false,wrote]
      refine ⟨last,fun other apart => ?_⟩
      rw [List.mem_cons,not_or] at apart
      rw [kept other apart.2,others other apart.1]

theorem Used.parts (used : Used root s now) :
    s.root = root ∧ s.data.Numbered ∧ Sturdy now root (FileTree.target root) := by
  induction used with
  | opened opens =>
    obtain ⟨same,shows_⟩ := openAt_shows opens
    exact ⟨same,openAt_numbered opens,shows_.sturdy⟩
  | call faults c _ ih =>
    obtain ⟨rfl,numbered,sturdy⟩ := ih
    have after := numbered.call c
    rw [call_eq]
    exact ⟨rfl,after,(sturdy.writeFiles after faults _).1⟩

theorem readList_reread (prepared : Prepared tree root folder)
    (written : tree.entry? (folder ++ [StoreFile.corpses.name]) = some (.file (StoreFile.corpses.content data))) :
    readList tree root .corpses CorpseEntry.codec =
      (data.corpses.mapM CorpseEntry.codec.reread?).elim (.error .malformed) .ok := by
  have legible : (CorpseEntry.codec.list.encode data.corpses).Legible := by
    refine .array fun item member => ?_
    obtain ⟨e,_,rfl⟩ := List.mem_map.mp member
    exact e.legible
  have content : CorpseEntry.codec.list.read? (StoreFile.corpses.content data) =
      data.corpses.mapM CorpseEntry.codec.reread? := by
    rw [Codec.read?,StoreFile.content,StoreFile.document]
    exact (congrArg (Option.bind · _) (read?_pretty legible)).trans (list_reread? _ _)
  simp only [readList,FileTree.exist,readFile,FileTree.read?,prepared.entryAt?,written,Option.isSome_some,if_true,
    Option.bind_some,content]
  cases data.corpses.mapM CorpseEntry.codec.reread? <;> rfl

theorem Used.saveCorpse (used : Used root s now) (faults : Faults) (entry : CorpseEntry) :
    (s.call faults now (.saveCorpse entry)).2.2 = (if faults .corpses then .failed .unreadable else .saved) ∧
    (faults .corpses = false → ∃ rest : SavedState, let after := (s.call faults now (.saveCorpse entry)).2.1
      openAt after root = (((s.data.saveCorpse entry).corpses.mapM CorpseEntry.codec.reread?).elim
        (.error .malformed) (fun corpses => .ok ⟨root,{rest with corpses}⟩),after)) := by
  obtain ⟨rfl,numbered,sturdy⟩ := used.parts
  have after := numbered.call (.saveCorpse entry)
  simp only [DirectoryStore.call,commit_eq,DirectoryStore.saveCorpse]
  cases refused : faults .corpses with
  | true => simp [DirectoryStore.writeFiles,writeFile?,refused]
  | false =>
    obtain ⟨next,wrote,sturdy,own,_⟩ := sturdy.write after .corpses
    obtain ⟨rest,opens⟩ := sturdy.openAt
    rw [readList_reread sturdy.prepared own] at opens
    simp only [SavedState.call] at wrote opens
    refine ⟨by simp [DirectoryStore.writeFiles,writeFile?,refused,wrote],fun _ => ⟨rest,?_⟩⟩
    simp only [DirectoryStore.writeFiles,writeFile?,refused,wrote,Bool.false_eq_true,if_false]
    rw [opens]
    cases (s.data.saveCorpse entry).corpses.mapM CorpseEntry.codec.reread? <;> rfl

theorem Used.openAt_kept (used : Used root s now) (faults : Faults) {c : StoreCall} (apart : .corpses ∉ s.filesFor c)
    (opens : openAt now root = (.ok ⟨root,shown⟩,now)) : let after := (s.call faults now c).2.1
    ∃ later, openAt after root = (.ok ⟨root,later⟩,after) ∧ later.corpses = shown.corpses := by
  obtain ⟨rfl,numbered,sturdy⟩ := used.parts
  obtain ⟨later,kept⟩ := sturdy.writeFiles (numbered.call c) faults (s.filesFor c)
  have same : readList _ _ _ CorpseEntry.codec = _ :=
    readList_congr sturdy.prepared later.prepared (kept .corpses apart)
  obtain ⟨before,one⟩ := sturdy.openAt
  obtain ⟨rest,two⟩ := later.openAt
  rw [one] at opens
  rw [same] at two
  cases read : readList now s.root .corpses CorpseEntry.codec with
  | error e => simp [read,Except.map] at opens
  | ok corpses =>
    simp only [read,Except.map,Prod.mk.injEq,Except.ok.injEq,and_true] at opens two
    cases opens
    rw [call_eq]
    exact ⟨_,two,rfl⟩

-- Of the corpses that were written, one without a finite place is enough for the directory not to open
-- again. If there is none, all are there, where their numerals put them.
theorem saves_readable (used : Used root s now) (faults : Faults) :
    (∀ entry : CorpseEntry, (s.call faults now (.saveCorpse entry)).2.2 = .saved →
      let after := (s.call faults now (.saveCorpse entry)).2.1
      let corpses := (s.data.saveCorpse entry).corpses
      ((∃ e ∈ corpses, e.location.isFinite = false) → openAt after root = (.error .malformed,after)) ∧
      ((∀ e ∈ corpses, e.location.isFinite = true) →
        ∃ shown, openAt after root = (.ok ⟨root,shown⟩,after) ∧
          List.Forall₂ CorpseEntry.Reread corpses shown.corpses ∧
          (shown.corpses.filter (fun e => e.owner == entry.owner) = [entry] ↔ entry.location.Lasting))) ∧
    ∀ c : StoreCall, .corpses ∉ s.filesFor c → ∀ shown, openAt now root = (.ok ⟨root,shown⟩,now) →
      let after := (s.call faults now c).2.1
      ∃ later, openAt after root = (.ok ⟨root,later⟩,after) ∧ later.corpses = shown.corpses := by
  refine ⟨fun entry saved => ?_,fun c apart shown opens => used.openAt_kept faults apart opens⟩
  obtain ⟨answer,reopening⟩ := used.saveCorpse faults entry
  have written : faults .corpses = false := by
    cases refused : faults .corpses with
    | true => simp [saved,refused] at answer
    | false => rfl
  obtain ⟨rest,opens⟩ := reopening written
  refine ⟨fun lost => ?_,fun finite => ?_⟩
  · obtain ⟨e,member,own⟩ := lost
    rw [opens,mapM_lost member (CorpseEntry.reread_lost own)]
    rfl
  · obtain ⟨corpses,read,each⟩ := mapM_each fun e member => CorpseEntry.reread_finite (finite e member)
    rw [read] at opens
    have own : entry.location.isFinite = true :=
      finite entry (List.mem_append_right _ (List.mem_singleton_self entry))
    have owned := CorpseEntry.reread_owned each entry.owner
    rw [s.data.saveCorpse_kept entry] at owned
    refine ⟨_,opens,each,fun same => ?_,fun lasting => ?_⟩
    · simp only at same
      rw [same] at owned
      cases owned with
      | cons reread _ => exact reread.location.lasting own
    · simp only
      generalize corpses.filter (fun e => e.owner == entry.owner) = others at owned ⊢
      cases owned with
      | cons reread rest =>
        cases rest
        rw [reread.same lasting]

-- A corpse whose place can be written down lies there when the store is opened again.
theorem saves_readable_lasting : ∃ s next, openAt .empty ⟨["saves"]⟩ = (.ok s,next) ∧
    let called := s.call noFaults next (.saveCorpse ⟨.ofNat 5,⟨7⟩,⟨⟨36⟩,⟨0x3fc00000⟩,⟨0⟩,⟨0xc1200000⟩⟩⟩)
    called.2.2 = .saved ∧ ∃ shown, openAt called.2.1 ⟨["saves"]⟩ = (.ok ⟨⟨["saves"]⟩,shown⟩,called.2.1) ∧
      shown.corpses.filter (fun e => e.owner == .ofNat 5) =
        [⟨.ofNat 5,⟨7⟩,⟨⟨36⟩,⟨0x3fc00000⟩,⟨0⟩,⟨0xc1200000⟩⟩⟩] := by
  have lasting : WorldLocation.Lasting ⟨⟨36⟩,⟨0x3fc00000⟩,⟨0⟩,⟨0xc1200000⟩⟩ := by decide +kernel
  obtain ⟨_,next,opens,_⟩ := vacant_saves.openAt
  have used := Used.opened opens
  have saved := (used.saveCorpse noFaults ⟨.ofNat 5,⟨7⟩,⟨⟨36⟩,⟨0x3fc00000⟩,⟨0⟩,⟨0xc1200000⟩⟩⟩).1
  obtain ⟨shown,reads,_,kept⟩ := ((saves_readable used noFaults).1 _ saved).2 (by decide)
  exact ⟨_,next,opens,saved,shown,reads,kept.mpr lasting⟩

-- A coordinate past the range of its format is read as infinite, and the corpse is saved, but no store
-- opens in the directory any more.
theorem infinite_corpse_saved : ∃ s next entry, openAt .empty ⟨["saves"]⟩ = (.ok s,next) ∧
    CorpseEntry.codec.read? (symbols ("\x7b\"owner\":\"00000000-0000-0000-0000-000000000001\"," ++
      "\"location\":\x7b\"map\":0,\"position\":[1e39,0,0]\x7d\x7d")) = some entry ∧
    let called := s.call noFaults next (.saveCorpse entry)
    called.2.2 = .saved ∧ openAt called.2.1 ⟨["saves"]⟩ = (.error .malformed,called.2.1) := by
  obtain ⟨_,next,opens,_⟩ := vacant_saves.openAt
  obtain ⟨saved,reopening⟩ := (Used.opened opens).saveCorpse noFaults ⟨.ofNat 1,.base,⟨⟨0⟩,⟨0x7f800000⟩,⟨0⟩,⟨0⟩⟩⟩
  obtain ⟨rest,reads⟩ := reopening rfl
  refine ⟨_,next,_,opens,?_,saved,?_⟩
  · decide +kernel
  · rw [reads]
    rfl

end LiveMaps.DirectoryStore
