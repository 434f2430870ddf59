import LiveMaps.Saved.Directory

namespace LiveMaps

inductive StoreCall where
  | saveInstance (record : InstanceRecord)
  | removeInstance (id : InstanceId)
  | saveRespawn (entry : RespawnEntry)
  | saveCorpse (entry : CorpseEntry)
  | removeCorpse (owner : ParticipantId)
  | instances
  | highestId
  | respawns (map : MapId) (id : InstanceId)
  | corpses (map : MapId) (id : InstanceId)
  deriving DecidableEq, Repr

inductive StoreAnswer where
  | saved
  | failed (error : StoreError)
  | removedInstance (record : Option InstanceRecord)
  | removedCorpse (present : Bool)
  | instances (records : List InstanceRecord)
  | highestId (highest : Nat)
  | respawns (times : List RespawnTime)
  | corpses (corpses : List Corpse)
  deriving DecidableEq, Repr

namespace SavedState

def call (s : SavedState) : StoreCall → SavedState × StoreAnswer
  | .saveInstance record =>
    match s.saveInstance? record with
    | none => (s,.failed .reservedId)
    | some s => (s,.saved)
  | .removeInstance id => (s.removeInstance id,.removedInstance (s.instance? id))
  | .saveRespawn entry => (s.saveRespawn entry,.saved)
  | .saveCorpse entry => (s.saveCorpse entry,.saved)
  | .removeCorpse owner => (s.removeCorpse owner,.removedCorpse (s.hasCorpse owner))
  | .instances => (s,.instances s.instances)
  | .highestId => (s,.highestId s.highestId)
  | .respawns map id => (s,.respawns (s.respawnsIn map id))
  | .corpses map id => (s,.corpses (s.corpsesIn map id))

end SavedState

namespace DirectoryStore

def commit (faults : Faults) (s : DirectoryStore) (tree : FileTree) (change : Change α)
    (answer : α → StoreAnswer) : DirectoryStore × FileTree × StoreAnswer :=
  match perform faults s tree change with
  | (s,tree,.ok a) => (s,tree,answer a)
  | (s,tree,.error e) => (s,tree,.failed e)

def call (faults : Faults) (s : DirectoryStore) (tree : FileTree) :
    StoreCall → DirectoryStore × FileTree × StoreAnswer
  | .saveInstance record =>
    match s.saveInstance record with
    | .error e => (s,tree,.failed e)
    | .ok change => commit faults s tree change (fun _ => .saved)
  | .removeInstance id => commit faults s tree (s.removeInstance id) .removedInstance
  | .saveRespawn entry => commit faults s tree (s.saveRespawn entry) (fun _ => .saved)
  | .saveCorpse entry => commit faults s tree (s.saveCorpse entry) (fun _ => .saved)
  | .removeCorpse owner => commit faults s tree (s.removeCorpse owner) .removedCorpse
  | .instances => (s,tree,.instances s.data.instances)
  | .highestId => (s,tree,.highestId s.data.highestId)
  | .respawns map id => (s,tree,.respawns (s.data.respawnsIn map id))
  | .corpses map id => (s,tree,.corpses (s.data.corpsesIn map id))

end DirectoryStore
end LiveMaps
