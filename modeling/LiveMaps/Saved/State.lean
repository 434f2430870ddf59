import LiveMaps.Saved.Records

namespace LiveMaps

structure RespawnTime where
  spawnId : UInt64
  respawnAt : UInt64
  deriving DecidableEq, Repr

structure Corpse where
  owner : ParticipantId
  location : WorldLocation
  deriving DecidableEq, Repr

-- Saved copies ascending by id; respawn times and corpses in the order in which
-- they were last saved.
structure SavedState where
  instances : List InstanceRecord
  respawns : List RespawnEntry
  corpses : List CorpseEntry
  deriving DecidableEq, Repr

namespace SavedState

def empty : SavedState := ⟨[],[],[]⟩

def saveInstance? (s : SavedState) (record : InstanceRecord) : Option SavedState :=
  if record.id.isBase then none
  else some {s with instances := Ordered.insert InstanceRecord.order record s.instances}

def instance? (s : SavedState) (id : InstanceId) : Option InstanceRecord :=
  s.instances.find? (fun r => r.id == id)

def removeInstance (s : SavedState) (id : InstanceId) : SavedState :=
  if (s.instance? id).isSome then
    ⟨s.instances.filter (fun r => r.id != id),s.respawns.filter (fun e => e.instanceId != id),
      s.corpses.filter (fun e => e.instanceId != id)⟩
  else s

def saveRespawn (s : SavedState) (entry : RespawnEntry) : SavedState :=
  {s with respawns := s.respawns.filter (fun e => !e.samePoint entry) ++ [entry]}

def saveCorpse (s : SavedState) (entry : CorpseEntry) : SavedState :=
  {s with corpses := s.corpses.filter (fun e => e.owner != entry.owner) ++ [entry]}

def hasCorpse (s : SavedState) (owner : ParticipantId) : Bool :=
  s.corpses.any (fun e => e.owner == owner)

def removeCorpse (s : SavedState) (owner : ParticipantId) : SavedState :=
  {s with corpses := s.corpses.filter (fun e => e.owner != owner)}

def highestId (s : SavedState) : Nat := (s.instances.map InstanceRecord.order).max?.getD 0

def respawnsIn (s : SavedState) (map : MapId) (id : InstanceId) : List RespawnTime :=
  (s.respawns.filter (fun e => e.map == map && e.instanceId == id)).map
    (fun e => ⟨e.spawnId,e.respawnAt⟩)

def corpsesIn (s : SavedState) (map : MapId) (id : InstanceId) : List Corpse :=
  (s.corpses.filter (fun e => e.location.map == map && e.instanceId == id)).map
    (fun e => ⟨e.owner,e.location⟩)

end SavedState
end LiveMaps
