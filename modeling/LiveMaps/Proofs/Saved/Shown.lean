import LiveMaps.Proofs.Saved.Reopening

namespace LiveMaps

namespace SavedState

def renewed (shown : SavedState) (files : List StoreFile) (data : SavedState) : SavedState where
  instances := if .instances ∈ files then data.instances else shown.instances
  respawns := if .respawns ∈ files then data.respawns else shown.respawns
  corpses := if .corpses ∈ files then data.corpses else shown.corpses

theorem renewed_nil (shown data : SavedState) : shown.renewed [] data = shown := rfl

theorem renewed_cons (shown data : SavedState) (file : StoreFile) (files : List StoreFile) :
    (shown.renewed [file] data).renewed files data = shown.renewed (file :: files) data := by
  cases file <;> simp [renewed]

end SavedState

def StoreFile.Certain : StoreFile → SavedState → Prop
  | .layout,_ => True
  | .instances,s => s.Numbered
  | .respawns,_ => True
  | .corpses,s => ∀ e ∈ s.corpses, e.location.Lasting

theorem SavedState.Durable.certain {s : SavedState} (durable : s.Durable) (file : StoreFile) : file.Certain s := by
  cases file with
  | layout | respawns => trivial
  | instances => exact durable.numbered
  | corpses => exact durable.lasting

namespace DirectoryStore
open Codec Json
variable {tree next made : FileTree} {root : Route} {folder : Path} {file : StoreFile} {shown data : SavedState}

-- The state that is read out of a directory when a store is opened there, whoever wrote its files.
structure Shows (tree : FileTree) (root : Route) (folder : Path) (shown : SavedState) : Prop where
  prepared : Prepared tree root folder
  layout : ∃ content, tree.entry? (folder ++ [StoreFile.layout.name]) = some (.file content) ∧
    StoreMeta.codec.read? content = some ⟨StoreFile.schemaVersion⟩
  instances : ∃ records, readList tree root .instances InstanceRecord.codec = .ok records ∧
    records.any (fun r => r.id.isBase) = false ∧ Ordered.ofList InstanceRecord.order records = shown.instances
  respawns : readList tree root .respawns RespawnEntry.codec = .ok shown.respawns
  corpses : readList tree root .corpses CorpseEntry.codec = .ok shown.corpses

theorem Shows.openAt (shows_ : Shows tree root folder shown) : openAt tree root = (.ok ⟨root,shown⟩,tree) := by
  obtain ⟨content,written,version⟩ := shows_.layout
  obtain ⟨records,read,proper,order⟩ := shows_.instances
  have layout := readLayout_version shows_.prepared written version
  have state : readState tree root = .ok shown := by
    simp only [readState,read,shows_.respawns,shows_.corpses,bind,Except.bind,proper,Bool.false_eq_true,if_false,
      order,pure,Except.pure]
  simp [DirectoryStore.openAt,shows_.prepared.stands.createDirectories,layout,state]
  rfl

theorem readList_congr {codec : Codec α} (one : Prepared tree root folder) (two : Prepared next root folder)
    (same : next.entry? (folder ++ [file.name]) = tree.entry? (folder ++ [file.name])) :
    readList next root file codec = readList tree root file codec := by
  unfold readList readFile FileTree.exist FileTree.read?
  rw [one.entryAt?,two.entryAt?,same]

theorem readList_written {codec : Codec α} {values : List α} (prepared : Prepared tree root folder)
    (written : tree.entry? (folder ++ [file.name]) = some (.file (file.content data)))
    (document : file.document data = codec.list.encode values) (each : ∀ value ∈ values, codec.Faithful value) :
    readList tree root file codec = .ok values := by
  unfold readList FileTree.exist
  rw [prepared.entryAt?,written]
  exact readFile_written prepared written document (list_faithful each)

-- The layout file is of the version that is asked for, whether or not it is the one that is written.
theorem version_written
    (own : next.entry? (folder ++ [file.name]) = some (.file (file.content data)))
    (others : ∀ other, other ≠ file → next.entry? (folder ++ [other.name]) = tree.entry? (folder ++ [other.name]))
    (version : ∃ content, tree.entry? (folder ++ [StoreFile.layout.name]) = some (.file content) ∧
      StoreMeta.codec.read? content = some ⟨StoreFile.schemaVersion⟩) :
    ∃ content, next.entry? (folder ++ [StoreFile.layout.name]) = some (.file content) ∧
      StoreMeta.codec.read? content = some ⟨StoreFile.schemaVersion⟩ := by
  by_cases here : file = .layout
  · subst here
    exact ⟨_,own,(StoreMeta.codec_faithful _).read?⟩
  · rw [others _ (Ne.symm here)]
    exact version

theorem Shows.write (shows_ : Shows tree root folder shown) (certain : file.Certain data) :
    ∃ next, tree.write? (routeOf root file) (file.content data) = some next ∧
      Shows next root folder (shown.renewed [file] data) := by
  obtain ⟨next,wrote,prepared,own,others⟩ := shows_.prepared.write file (file.content data)
  refine ⟨next,wrote,prepared,version_written own others shows_.layout,?_,?_,?_⟩
  · by_cases here : file = .instances
    · subst here
      have read := readList_written prepared own rfl fun r _ => InstanceRecord.codec_faithful r
      refine ⟨_,read,?_,Ordered.ofList_ascending certain.ascending⟩
      exact List.any_eq_false.mpr fun r member => by simp [certain.proper r member]
    · rw [readList_congr shows_.prepared prepared (others _ (Ne.symm here))]
      simpa [SavedState.renewed,Ne.symm here] using shows_.instances
  · by_cases here : file = .respawns
    · subst here
      exact readList_written prepared own rfl fun e _ => RespawnEntry.codec_faithful e
    · rw [readList_congr shows_.prepared prepared (others _ (Ne.symm here))]
      simpa [SavedState.renewed,Ne.symm here] using shows_.respawns
  · by_cases here : file = .corpses
    · subst here
      exact readList_written prepared own rfl fun e member => CorpseEntry.codec_faithful (certain e member)
    · rw [readList_congr shows_.prepared prepared (others _ (Ne.symm here))]
      simpa [SavedState.renewed,Ne.symm here] using shows_.corpses

-- The files that a change is written to before the disk refuses one, if it does.
def written (faults : Faults) (files : List StoreFile) : List StoreFile :=
  files.takeWhile (fun file => !faults file)

theorem Shows.writeFiles (faults : Faults) {files : List StoreFile} (shows_ : Shows tree root folder shown)
    (certain : ∀ file ∈ files, file.Certain data) :
    ∃ next, writeFiles faults root data files tree = (files.all (fun file => !faults file),next) ∧
      Shows next root folder (shown.renewed (written faults files) data) := by
  induction files generalizing tree shown with
  | nil => exact ⟨tree,rfl,shows_⟩
  | cons file rest ih =>
    cases refused : faults file with
    | true =>
      refine ⟨tree,?_,?_⟩
      · simp [DirectoryStore.writeFiles,writeFile?,refused]
      · simpa [written,refused,SavedState.renewed_nil] using shows_
    | false =>
      obtain ⟨middle,wrote,first⟩ := shows_.write (certain file List.mem_cons_self)
      obtain ⟨next,done,later⟩ := ih first fun other member => certain other (List.mem_cons_of_mem _ member)
      refine ⟨next,?_,?_⟩
      · simpa [DirectoryStore.writeFiles,writeFile?,refused,wrote] using done
      · rw [SavedState.renewed_cons] at later
        simpa [written,refused] using later

-- The longest name is that of the layout file, so its route alone decides.
theorem usable_of_layout (usable : (routeOf root .layout).isUnusable = false) (file : StoreFile) :
    (routeOf root file).isUnusable = false := by
  have size (file : StoreFile) : (routeOf root file).size =
      (root.parts.map String.utf8ByteSize).sum + file.name.utf8ByteSize + root.parts.length := by
    rw [routeOf,Route.join,Route.size,←List.sum_eq_foldr,List.map_append,List.sum_append,List.length_append]
    rfl
  have shorter : file.name.utf8ByteSize ≤ StoreFile.layout.name.utf8ByteSize := by cases file <;> decide +kernel
  have plain : file.name.toList.contains '\x00' = false := by cases file <;> decide +kernel
  have layout := size .layout
  have own := size file
  simp only [Route.isUnusable,Bool.or_eq_false_iff,decide_eq_false_iff_not] at usable ⊢
  refine ⟨by omega,?_⟩
  have root_plain := usable.2
  simp only [routeOf,Route.join,List.any_append,Bool.or_eq_false_iff] at root_plain ⊢
  exact ⟨root_plain.1,by simpa using plain⟩

theorem usable_of_place {place : Path} {r : Route} (placed : tree.place? r = some place) : r.isUnusable = false := by
  have traced := FileTree.place?_iff.mp placed
  unfold FileTree.trace at traced
  split at traced
  · cases traced
  · rename_i usable
    exact eq_false_of_ne_true usable

theorem readList_free {codec : Codec α} {values : List α} {place : Path}
    (placed : tree.place? (routeOf root file) = some place) (read : readList tree root file codec = .ok values) :
    tree.isDirectory place = false := by
  cases directory : tree.isDirectory place with
  | false => rfl
  | true =>
    have entry := FileTree.isDirectory_iff.mp directory
    have found := FileTree.entryAt?_of_place placed
    simp [readList,readFile,FileTree.exist,FileTree.read?,found,entry] at read

theorem readFile_parts {codec : Codec α} {value : α} {place : Path}
    (placed : tree.place? (routeOf root file) = some place) (read : readFile tree root file codec = .ok value) :
    ∃ content, tree.entry? place = some (.file content) ∧ codec.read? content = some value := by
  unfold readFile FileTree.read? at read
  rw [FileTree.entryAt?_of_place placed] at read
  split at read
  · rename_i held
    cases read
    obtain ⟨content,entry,decoded⟩ := Option.bind_eq_some_iff.mp held
    split at entry
    · rename_i stored
      cases entry
      exact ⟨content,stored,decoded⟩
    · cases entry
  · cases read

theorem readLayout_parts (stands : tree.Stands root) (laid : readLayout tree root = (.ok (),next)) :
    next.Stands root ∧ (routeOf root .layout).isUnusable = false ∧
      ∃ content, next.entry? (FileTree.target root ++ [StoreFile.layout.name]) = some (.file content) ∧
        StoreMeta.codec.read? content = some ⟨StoreFile.schemaVersion⟩ := by
  unfold readLayout at laid
  split at laid
  · rename_i there
    obtain ⟨entry,found⟩ := Option.isSome_iff_exists.mp there
    obtain ⟨place,placed,_⟩ := Option.bind_eq_some_iff.mp found
    have usable := usable_of_place placed
    cases placed.symm.trans (place?_routeOf stands usable)
    split at laid
    · cases laid
    · rename_i layout read
      split at laid
      · rename_i version
        cases laid
        obtain ⟨content,stored,decoded⟩ := readFile_parts placed read
        exact ⟨stands,usable,content,stored,version ▸ decoded⟩
      · cases laid
  · split at laid
    · cases laid
    · rename_i written
      cases laid
      obtain ⟨place,placed,free,rfl⟩ := FileTree.write?_parts written
      have usable := usable_of_place placed
      cases placed.symm.trans (place?_routeOf stands usable)
      have there := FileTree.entry?_set_self tree (.file (StoreFile.layout.content .empty))
        (FileTree.inside_of_free free)
      exact ⟨stands.kept (FileTree.set_keeps free _),usable,_,there,(StoreMeta.codec_faithful _).read?⟩

theorem readState_parts (read : readState tree root = .ok data) :
    (∃ records, readList tree root .instances InstanceRecord.codec = .ok records ∧
      records.any (fun r => r.id.isBase) = false ∧
      Ordered.ofList InstanceRecord.order records = data.instances) ∧
    readList tree root .respawns RespawnEntry.codec = .ok data.respawns ∧
    readList tree root .corpses CorpseEntry.codec = .ok data.corpses := by
  unfold readState at read
  cases instances : readList tree root .instances InstanceRecord.codec with
  | error e => simp [instances,bind,Except.bind] at read
  | ok records =>
    cases base : records.any (fun r => r.id.isBase) with
    | true => simp [instances,bind,Except.bind,base] at read
    | false =>
      cases respawns : readList tree root .respawns RespawnEntry.codec with
      | error e => simp [instances,bind,Except.bind,base,respawns] at read
      | ok entries =>
        cases corpses : readList tree root .corpses CorpseEntry.codec with
        | error e => simp [instances,bind,Except.bind,base,respawns,corpses] at read
        | ok others =>
          simp only [instances,bind,Except.bind,base,respawns,corpses,pure,Except.pure,Bool.false_eq_true,
            if_false,Except.ok.injEq] at read
          subst read
          exact ⟨⟨records,rfl,base,rfl⟩,rfl,rfl⟩

theorem openAt_shows {s : DirectoryStore} (opened : DirectoryStore.openAt tree root = (.ok s,next)) :
    s.root = root ∧ Shows next root (FileTree.target root) s.data := by
  unfold DirectoryStore.openAt at opened
  split at opened
  · cases opened
  · rename_i made created
    split at opened
    · cases opened
    · rename_i laid layout
      cases read : readState laid root with
      | error e => simp [read,Except.map] at opened
      | ok data =>
        simp only [read,Except.map,Prod.mk.injEq,Except.ok.injEq] at opened
        obtain ⟨rfl,rfl⟩ := opened
        obtain ⟨stands,usable,version⟩ := readLayout_parts (FileTree.makeFirst_stands created) layout
        obtain ⟨instances,respawns,corpses⟩ := readState_parts read
        have places (file : StoreFile) := place?_routeOf stands (usable_of_layout usable file)
        refine ⟨rfl,⟨stands,places,fun file => ?_⟩,version,instances,respawns,corpses⟩
        cases file with
        | layout =>
          obtain ⟨content,entry,_⟩ := version
          simp [FileTree.isDirectory,entry]
        | instances =>
          obtain ⟨records,listed,_⟩ := instances
          exact readList_free (places _) listed
        | respawns => exact readList_free (places _) respawns
        | corpses => exact readList_free (places _) corpses

end DirectoryStore
end LiveMaps
