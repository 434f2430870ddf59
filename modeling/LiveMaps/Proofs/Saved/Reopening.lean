import LiveMaps.Proofs.Saved.Folder

namespace LiveMaps

namespace DirectoryStore
open Codec Json
variable {tree made : FileTree} {root : Route} {folder : Path} {file : StoreFile} {s : SavedState}

theorem readFile_written {codec : Codec α} {value : α} (prepared : Prepared tree root folder)
    (written : tree.entry? (folder ++ [file.name]) = some (.file (file.content s)))
    (document : file.document s = codec.encode value) (faithful : codec.Faithful value) :
    readFile tree root file codec = .ok value := by
  have content : codec.read? (file.content s) = some value := by
    rw [StoreFile.content,document]
    exact faithful.read?
  simp [readFile,FileTree.read?,prepared.entryAt?,written,content]

theorem readList_held {codec : Codec α} {values : List α} (file : StoreFile) (prepared : Prepared tree root folder)
    (holds : Holds tree folder s) (document : file.document s = codec.list.encode values)
    (each : ∀ value ∈ values, codec.Faithful value) : readList tree root file codec = .ok values := by
  unfold readList FileTree.exist
  rw [prepared.entryAt?]
  rcases holds file with written | ⟨missing,empty⟩
  · rw [written]
    exact readFile_written prepared written document (list_faithful each)
  · rw [missing]
    rw [document] at empty
    have none_left : values = [] := List.map_eq_nil_iff.mp (Json.array.inj empty)
    simp [none_left]

theorem readLayout_version {content : Content} (prepared : Prepared tree root folder)
    (written : tree.entry? (folder ++ [StoreFile.layout.name]) = some (.file content))
    (version : StoreMeta.codec.read? content = some ⟨StoreFile.schemaVersion⟩) :
    readLayout tree root = (.ok (),tree) := by
  have there : tree.exist (routeOf root .layout) = true := by
    rw [FileTree.exist,prepared.entryAt?,written]
    rfl
  simp [readLayout,there,readFile,FileTree.read?,prepared.entryAt?,written,version]

theorem Kept.readLayout {s : DirectoryStore} (kept : Kept s tree folder) :
    readLayout tree s.root = (.ok (),tree) := by
  rcases kept.holds .layout with written | ⟨_,empty⟩
  · exact readLayout_version kept.prepared written (StoreMeta.codec_faithful _).read?
  · cases empty

theorem Kept.readState {s : DirectoryStore} (kept : Kept s tree folder) : readState tree s.root = .ok s.data := by
  have instances := readList_held .instances kept.prepared kept.holds rfl
    (fun r _ => InstanceRecord.codec_faithful r)
  have respawns := readList_held .respawns kept.prepared kept.holds rfl
    (fun e _ => RespawnEntry.codec_faithful e)
  have corpses := readList_held .corpses kept.prepared kept.holds rfl
    (fun e member => CorpseEntry.codec_faithful (kept.durable.lasting e member))
  have proper : s.data.instances.any (fun r => r.id.isBase) = false :=
    List.any_eq_false.mpr fun r member => by simp [kept.durable.proper r member]
  have order := Ordered.ofList_ascending kept.durable.ascending
  simp only [DirectoryStore.readState,instances,respawns,corpses,bind,Except.bind,proper,Bool.false_eq_true,
    if_false,order,pure,Except.pure]

theorem Kept.openAt {s : DirectoryStore} (kept : Kept s tree folder) : openAt tree s.root = (.ok s,tree) := by
  simp [DirectoryStore.openAt,kept.prepared.stands.createDirectories,kept.readLayout,kept.readState]
  rfl

theorem follow_name (folder : Path) (file : StoreFile) : Route.follow folder file.name = folder ++ [file.name] := by
  cases file <;> rfl

theorem place_parts {place : Path} (placed : tree.place? (routeOf root file) = some place) :
    tree.walk [] root.parts = .ok (place.dropLast) ∧ place = place.dropLast ++ [file.name] := by
  have traced := FileTree.place?_iff.mp placed
  unfold FileTree.trace at traced
  split at traced
  · cases traced
  · rw [routeOf,Route.join,FileTree.walk_append] at traced
    cases walked : tree.walk [] root.parts with
    | error e =>
      rw [walked] at traced
      cases traced
    | ok folder =>
      rw [walked] at traced
      simp only [Except.bind,FileTree.walk] at traced
      split at traced
      · cases traced
      · cases traced
      · split at traced
        · cases traced
        · cases traced
          rw [follow_name,List.dropLast_concat]
          exact ⟨rfl,rfl⟩

theorem place?_routeOf (stands : made.Stands root) (usable : (routeOf root file).isUnusable = false) :
    made.place? (routeOf root file) = some (FileTree.target root ++ [file.name]) := by
  obtain ⟨walked,directory⟩ := stands.walk
  have short : ¬ Route.longestPart < file.name.utf8ByteSize := by cases file <;> decide +kernel
  rw [FileTree.place?_iff,FileTree.trace,usable,if_neg Bool.false_ne_true,routeOf,Route.join,
    FileTree.walk_append,walked]
  simp [Except.bind,FileTree.walk,FileTree.isDirectory_iff.mp directory,short,follow_name]

-- A store's directory can be made where it is absent. Then no file of a store is in it, and each
-- one can be written. Absence is told of the directory as made, since a route may lead up again.
structure Vacant (tree made : FileTree) (root : Route) : Prop where
  created : tree.createDirectories root = (true,made)
  absent : ∀ file, made.exist (routeOf root file) = false
  writable : ∀ file content, (made.write? (routeOf root file) content).isSome = true

theorem Vacant.of_absent (descends : FileTree.Descends root) (created : tree.createDirectories root = (true,made))
    (absent : ∀ place, FileTree.target root <+: place → tree.entry? place = none)
    (usable : ∀ file, (routeOf root file).isUnusable = false) : Vacant tree made root := by
  have placed (file : StoreFile) := place?_routeOf (FileTree.makeFirst_stands created) (usable file)
  have missing (file : StoreFile) : made.entry? (FileTree.target root ++ [file.name]) = none := by
    rw [FileTree.createDirectories_deeper descends created (by simp)]
    exact absent _ (List.prefix_append _ _)
  refine ⟨created,fun file => ?_,fun file content => ?_⟩
  · rw [FileTree.exist,FileTree.entryAt?_of_place (placed file),missing]
    rfl
  · rw [FileTree.write?_free (placed file) (by simp [FileTree.isDirectory,missing])]
    rfl

theorem vacant_saves : Vacant .empty (FileTree.empty.createDirectories ⟨["saves"]⟩).2 ⟨["saves"]⟩ := by
  refine ⟨rfl,fun file => ?_,fun file content => ?_⟩
  · cases file <;> decide +kernel
  · cases file <;> rfl

theorem Vacant.prepared (vacant : Vacant tree made root) : ∃ folder, Prepared made root folder ∧
    ∀ file : StoreFile, made.entry? (folder ++ [file.name]) = none := by
  have placed (file : StoreFile) : ∃ place, made.place? (routeOf root file) = some place := by
    have writable := vacant.writable file []
    unfold FileTree.write? at writable
    cases found : made.place? (routeOf root file) with
    | none => simp [found] at writable
    | some place => exact ⟨place,rfl⟩
  obtain ⟨first,layout⟩ := placed .layout
  have places (file : StoreFile) : made.place? (routeOf root file) = some (first.dropLast ++ [file.name]) := by
    obtain ⟨place,own⟩ := placed file
    obtain ⟨walked,ends⟩ := place_parts own
    have same := (place_parts layout).1.symm.trans walked
    rw [Except.ok.inj same,←ends,own]
  have missing (file : StoreFile) : made.entry? (first.dropLast ++ [file.name]) = none := by
    have absent := vacant.absent file
    rw [FileTree.exist,FileTree.entryAt?_of_place (places file)] at absent
    simpa using absent
  refine ⟨first.dropLast,⟨FileTree.makeFirst_stands vacant.created,places,fun file => ?_⟩,missing⟩
  simp [FileTree.isDirectory,missing file]

theorem Vacant.openAt (vacant : Vacant tree made root) : ∃ folder next,
    openAt tree root = (.ok ⟨root,.empty⟩,next) ∧ Kept ⟨root,.empty⟩ next folder := by
  obtain ⟨folder,prepared,missing⟩ := vacant.prepared
  obtain ⟨next,wrote,prepared,layout,others⟩ := prepared.write .layout (StoreFile.layout.content .empty)
  have holds : Holds next folder .empty := by
    intro file
    by_cases first : file = .layout
    · subst first
      exact .inl layout
    · refine .inr ⟨(others file first).trans (missing file),?_⟩
      cases file <;> first | rfl | exact absurd rfl first
  have kept : Kept ⟨root,.empty⟩ next folder := ⟨prepared,holds,SavedState.empty_durable⟩
  have opened : DirectoryStore.readLayout made root = (.ok (),next) := by
    simp [DirectoryStore.readLayout,vacant.absent .layout,wrote]
  have state := kept.readState
  refine ⟨folder,next,?_,kept⟩
  simp only at state
  simp [DirectoryStore.openAt,vacant.created,opened,state]
  rfl

end DirectoryStore

-- What a store that may be closed and opened again is asked, in order.
inductive StoreErrand where
  | call (c : StoreCall)
  | reopen
  deriving DecidableEq, Repr

def StoreErrand.call? : StoreErrand → Option StoreCall
  | .call c => some c
  | .reopen => none

def SavedState.answers (s : SavedState) : List StoreCall → List StoreAnswer
  | [] => []
  | c :: rest => (s.call c).2 :: answers (s.call c).1 rest

namespace DirectoryStore
variable {tree made : FileTree} {root : Route} {folder : Path}

def answers (s : DirectoryStore) (tree : FileTree) : List StoreErrand → Except StoreError (List StoreAnswer)
  | [] => .ok []
  | .call c :: rest =>
    match s.call noFaults tree c with
    | (s,tree,answer) => (answers s tree rest).map (answer :: ·)
  | .reopen :: rest =>
    match openAt tree s.root with
    | (.error e,_) => .error e
    | (.ok s,tree) => answers s tree rest

def serve (tree : FileTree) (root : Route) (errands : List StoreErrand) : Except StoreError (List StoreAnswer) :=
  match openAt tree root with
  | (.error e,_) => .error e
  | (.ok s,tree) => s.answers tree errands

-- By induction on the errands: each call keeps what the directory holds, and opening again needs
-- no more than that.
theorem Kept.answers {s : DirectoryStore} {errands : List StoreErrand} (kept : Kept s tree folder)
    (lasting : ∀ entry, .call (.saveCorpse entry) ∈ errands → entry.location.Lasting) :
    s.answers tree errands = .ok (s.data.answers (errands.filterMap StoreErrand.call?)) := by
  induction errands generalizing s tree with
  | nil => rfl
  | cons errand rest ih =>
    have later (entry : CorpseEntry) (member : .call (.saveCorpse entry) ∈ rest) : entry.location.Lasting :=
      lasting entry (List.mem_cons_of_mem _ member)
    cases errand with
    | call c =>
      obtain ⟨next,called,kept⟩ := kept.call c fun entry same => lasting entry (same ▸ List.mem_cons_self)
      rw [DirectoryStore.answers,called]
      simp only [ih kept later]
      rfl
    | reopen =>
      rw [DirectoryStore.answers,kept.openAt]
      exact ih kept later

-- Closing a store and opening it again cannot be told from its answers.
theorem reopening_unseen {errands : List StoreErrand} (vacant : Vacant tree made root)
    (lasting : ∀ entry, .call (.saveCorpse entry) ∈ errands → entry.location.Lasting) :
    serve tree root errands = .ok (SavedState.empty.answers (errands.filterMap StoreErrand.call?)) := by
  obtain ⟨folder,next,opened,kept⟩ := vacant.openAt
  rw [serve,opened]
  exact kept.answers lasting

-- A copy and what is in it are there after the store is opened again, and gone once it is removed.
theorem reopening_unseen_removal : ∃ made, Vacant .empty made ⟨["saves"]⟩ ∧
    serve .empty ⟨["saves"]⟩
      [.call (.saveInstance ⟨⟨7⟩,⟨36⟩,.heroic,1700000000⟩),.call (.saveRespawn ⟨⟨36⟩,⟨7⟩,11,250⟩),
        .call (.saveCorpse ⟨.ofNat 5,⟨7⟩,⟨⟨36⟩,⟨0x3fc00000⟩,⟨0⟩,⟨0xc1200000⟩⟩⟩),.reopen,
        .call (.corpses ⟨36⟩ ⟨7⟩),.call (.removeInstance ⟨7⟩),.reopen,.call .instances,
        .call (.respawns ⟨36⟩ ⟨7⟩),.call (.removeCorpse (.ofNat 5))] =
      .ok [.saved,.saved,.saved,.corpses [⟨.ofNat 5,⟨⟨36⟩,⟨0x3fc00000⟩,⟨0⟩,⟨0xc1200000⟩⟩⟩],
        .removedInstance (some ⟨⟨7⟩,⟨36⟩,.heroic,1700000000⟩),.instances [],.respawns [],
        .removedCorpse false] := by
  have lasting : WorldLocation.Lasting ⟨⟨36⟩,⟨0x3fc00000⟩,⟨0⟩,⟨0xc1200000⟩⟩ := by
    refine ⟨by decide,fun x member _ => ?_⟩
    unfold Codec.Reads
    simp only [List.mem_cons,List.not_mem_nil,or_false] at member
    rcases member with rfl | rfl | rfl <;> decide +kernel
  refine ⟨_,vacant_saves,?_⟩
  rw [reopening_unseen vacant_saves]
  · exact congrArg Except.ok (by decide +kernel)
  · intro entry member
    simp at member
    cases member
    exact lasting

end DirectoryStore
end LiveMaps
