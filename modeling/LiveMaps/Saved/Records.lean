import LiveMaps.Difficulty
import LiveMaps.Location

namespace LiveMaps

structure InstanceRecord where
  id : InstanceId
  map : MapId
  difficulty : Difficulty
  -- Seconds of Unix time; zero where the copy never resets.
  resetAt : UInt64 := 0
  deriving DecidableEq, Repr

namespace InstanceRecord

def order (r : InstanceRecord) : Nat := r.id.order

def memberNames : List String := ["id","map","difficulty","reset_at"]

def encode (r : InstanceRecord) : Json :=
  Json.record
    [("id",Codec.instanceId.encode r.id),("map",Codec.mapId.encode r.map),
      ("difficulty",Difficulty.codec.encode r.difficulty),("reset_at",Codec.uint64.encode r.resetAt)]

def decode (document : Json) : Option InstanceRecord := do
  let members ← Codec.members? memberNames document
  return {
    id := ← Codec.instanceId.required "id" members
    map := ← Codec.mapId.required "map" members
    difficulty := ← Difficulty.codec.required "difficulty" members
    resetAt := ← Codec.uint64.optional "reset_at" 0 members }

def codec : Codec InstanceRecord := ⟨encode,decode⟩

end InstanceRecord

structure RespawnEntry where
  map : MapId
  instanceId : InstanceId := .base
  spawnId : UInt64
  respawnAt : UInt64
  deriving DecidableEq, Repr

namespace RespawnEntry

def memberNames : List String := ["map","instance","spawn_id","respawn_at"]

def encode (e : RespawnEntry) : Json :=
  Json.record
    [("map",Codec.mapId.encode e.map),("instance",Codec.instanceId.encode e.instanceId),
      ("spawn_id",Codec.uint64.encode e.spawnId),("respawn_at",Codec.uint64.encode e.respawnAt)]

def decode (document : Json) : Option RespawnEntry := do
  let members ← Codec.members? memberNames document
  return {
    map := ← Codec.mapId.required "map" members
    instanceId := ← Codec.instanceId.optional "instance" .base members
    spawnId := ← Codec.uint64.required "spawn_id" members
    respawnAt := ← Codec.uint64.required "respawn_at" members }

def codec : Codec RespawnEntry := ⟨encode,decode⟩

def samePoint (a b : RespawnEntry) : Bool :=
  a.map == b.map && a.instanceId == b.instanceId && a.spawnId == b.spawnId

end RespawnEntry

structure CorpseEntry where
  owner : ParticipantId
  instanceId : InstanceId := .base
  location : WorldLocation
  deriving DecidableEq, Repr

namespace CorpseEntry

def memberNames : List String := ["owner","instance","location"]

def encode (e : CorpseEntry) : Json :=
  Json.record
    [("owner",Codec.participantId.encode e.owner),
      ("instance",Codec.instanceId.encode e.instanceId),
      ("location",WorldLocation.codec.encode e.location)]

def decode (document : Json) : Option CorpseEntry := do
  let members ← Codec.members? memberNames document
  return {
    owner := ← Codec.participantId.required "owner" members
    instanceId := ← Codec.instanceId.optional "instance" .base members
    location := ← WorldLocation.codec.required "location" members }

def codec : Codec CorpseEntry := ⟨encode,decode⟩

end CorpseEntry

structure StoreMeta where
  schemaVersion : UInt32
  deriving DecidableEq, Repr

namespace StoreMeta

def memberNames : List String := ["schema_version"]

def encode (m : StoreMeta) : Json :=
  Json.record [("schema_version",Codec.uint32.encode m.schemaVersion)]

def decode (document : Json) : Option StoreMeta := do
  let members ← Codec.members? memberNames document
  return { schemaVersion := ← Codec.uint32.required "schema_version" members }

def codec : Codec StoreMeta := ⟨encode,decode⟩

end StoreMeta
end LiveMaps
