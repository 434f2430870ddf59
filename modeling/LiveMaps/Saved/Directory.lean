import LiveMaps.Files.Tree
import LiveMaps.IdTable
import LiveMaps.Saved.State

namespace LiveMaps

inductive StoreError where
  | unreadable
  | malformed
  | schemaMismatch (found : UInt32)
  | reservedId
  | replay (cause : IdError)
  deriving DecidableEq, Repr

inductive StoreFile where
  | layout
  | instances
  | respawns
  | corpses
  deriving DecidableEq, Repr

namespace StoreFile

def all : List StoreFile := [.layout,.instances,.respawns,.corpses]

def name : StoreFile → String
  | .layout => "store.meta.json"
  | .instances => "instances.json"
  | .respawns => "respawns.json"
  | .corpses => "corpses.json"

def schemaVersion : UInt32 := 1

def document (file : StoreFile) (s : SavedState) : Json :=
  match file with
  | .layout => StoreMeta.codec.encode ⟨schemaVersion⟩
  | .instances => InstanceRecord.codec.list.encode s.instances
  | .respawns => RespawnEntry.codec.list.encode s.respawns
  | .corpses => CorpseEntry.codec.list.encode s.corpses

def content (file : StoreFile) (s : SavedState) : Content := ((file.document s).prettyChars 0).map some

end StoreFile

namespace StoreError

def message : StoreError → String
  | .unreadable => "IO error"
  | .malformed => "JSON error"
  | .schemaMismatch found =>
    "schema version mismatch: file has v" ++ toString found.toNat ++ ", expected v" ++
      toString StoreFile.schemaVersion.toNat
  | .reservedId => "instance id 0 is reserved"
  | .replay cause => "replaying instance ids: " ++ cause.message

end StoreError

-- The state in memory is read once, when the store is opened, and leads from then on: a change is made
-- there first, and then each file that it touches is written anew.
structure DirectoryStore where
  root : Route
  data : SavedState
  deriving Repr

namespace DirectoryStore

def routeOf (root : Route) (file : StoreFile) : Route := root.join [file.name]

def routes (root : Route) : List Route := StoreFile.all.map (routeOf root)

def readFile (tree : FileTree) (root : Route) (file : StoreFile) (codec : Codec α) :
    Except StoreError α :=
  match (tree.read? (routeOf root file)).bind codec.read? with
  | some value => .ok value
  | none => .error .malformed

def readList (tree : FileTree) (root : Route) (file : StoreFile) (codec : Codec α) :
    Except StoreError (List α) :=
  if tree.exist (routeOf root file) then readFile tree root file codec.list else .ok []

def readLayout (tree : FileTree) (root : Route) : Except StoreError Unit × FileTree :=
  if tree.exist (routeOf root .layout) then
    match readFile tree root .layout StoreMeta.codec with
    | .error e => (.error e,tree)
    | .ok layout =>
      if layout.schemaVersion = StoreFile.schemaVersion then (.ok (),tree)
      else (.error (.schemaMismatch layout.schemaVersion),tree)
  else
    match tree.write? (routeOf root .layout) (StoreFile.layout.content .empty) with
    | none => (.error .unreadable,tree)
    | some tree => (.ok (),tree)

def readState (tree : FileTree) (root : Route) : Except StoreError SavedState := do
  let instances ← readList tree root .instances InstanceRecord.codec
  if instances.any (fun r => r.id.isBase) then throw .reservedId
  let respawns ← readList tree root .respawns RespawnEntry.codec
  let corpses ← readList tree root .corpses CorpseEntry.codec
  return ⟨Ordered.ofList InstanceRecord.order instances,respawns,corpses⟩

def openAt (tree : FileTree) (root : Route) : Except StoreError DirectoryStore × FileTree :=
  match tree.createDirectories root with
  | (false,tree) => (.error .unreadable,tree)
  | (true,tree) =>
    match readLayout tree root with
    | (.error e,tree) => (.error e,tree)
    | (.ok (),tree) => ((readState tree root).map (fun data => ⟨root,data⟩),tree)

structure Change (α : Type) where
  data : SavedState
  files : List StoreFile
  answer : α

def saveInstance (s : DirectoryStore) (record : InstanceRecord) : Except StoreError (Change Unit) :=
  match s.data.saveInstance? record with
  | none => .error .reservedId
  | some data => .ok ⟨data,[.instances],()⟩

def removeInstance (s : DirectoryStore) (id : InstanceId) : Change (Option InstanceRecord) :=
  match s.data.instance? id with
  | none => ⟨s.data,[],none⟩
  | some record => ⟨s.data.removeInstance id,[.instances,.respawns,.corpses],some record⟩

def saveRespawn (s : DirectoryStore) (entry : RespawnEntry) : Change Unit :=
  ⟨s.data.saveRespawn entry,[.respawns],()⟩

def saveCorpse (s : DirectoryStore) (entry : CorpseEntry) : Change Unit :=
  ⟨s.data.saveCorpse entry,[.corpses],()⟩

def removeCorpse (s : DirectoryStore) (owner : ParticipantId) : Change Bool :=
  if s.data.hasCorpse owner then ⟨s.data.removeCorpse owner,[.corpses],true⟩
  else ⟨s.data,[],false⟩

-- Files that the disk refuses to write this time.
abbrev Faults := StoreFile → Bool

def noFaults : Faults := fun _ => false

def writeFile? (faults : Faults) (root : Route) (data : SavedState) (file : StoreFile)
    (tree : FileTree) : Option FileTree :=
  if faults file then none else tree.write? (routeOf root file) (file.content data)

def writeFiles (faults : Faults) (root : Route) (data : SavedState) :
    List StoreFile → FileTree → Bool × FileTree
  | [],tree => (true,tree)
  | file :: rest,tree =>
    match writeFile? faults root data file tree with
    | none => (false,tree)
    | some tree => writeFiles faults root data rest tree

def perform (faults : Faults) (s : DirectoryStore) (tree : FileTree) (change : Change α) :
    DirectoryStore × FileTree × Except StoreError α :=
  let (written,tree) := writeFiles faults s.root change.data change.files tree
  ({s with data := change.data},tree,if written then .ok change.answer else .error .unreadable)

end DirectoryStore
end LiveMaps
