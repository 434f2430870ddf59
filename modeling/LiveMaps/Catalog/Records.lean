import LiveMaps.Difficulty
import LiveMaps.Json.Codec

namespace LiveMaps

inductive MapKind where
  | common
  | dungeon
  | raid
  | battleground
  | arena
  | scenario
  deriving DecidableEq, Repr, Inhabited

namespace MapKind

def all : List MapKind := [.common,.dungeon,.raid,.battleground,.arena,.scenario]

def name : MapKind → String
  | .common => "common"
  | .dungeon => "dungeon"
  | .raid => "raid"
  | .battleground => "battleground"
  | .arena => "arena"
  | .scenario => "scenario"

def label : MapKind → String
  | .common => "Common"
  | .dungeon => "Dungeon"
  | .raid => "Raid"
  | .battleground => "Battleground"
  | .arena => "Arena"
  | .scenario => "Scenario"

def instanceable (kind : MapKind) : Bool := kind != .common

def isDungeon : MapKind → Bool
  | .dungeon => true
  | .raid => true
  | .scenario => true
  | _ => false

def isRaid (kind : MapKind) : Bool := kind == .raid

def isBattle : MapKind → Bool
  | .battleground => true
  | .arena => true
  | _ => false

def codec : Codec MapKind := Codec.choice all name

end MapKind

structure MapDefinition where
  id : MapId
  kind : MapKind
  parent : Option MapId := none
  cosmeticParent : Option MapId := none
  expansion : UInt8 := 0
  -- Display names, ascending by locale.
  names : List (String × String) := []
  deriving DecidableEq, Repr

namespace MapDefinition

def terrainParent (d : MapDefinition) : Option MapId := d.parent.or d.cosmeticParent

def order (d : MapDefinition) : Nat := d.id.order

def addName (d : MapDefinition) (locale name : String) : MapDefinition :=
  {d with names := Ordered.insert Prod.fst (locale,name) d.names}

def displayName (d : MapDefinition) (locale : String) : String :=
  (d.names.lookup locale).getD ("map " ++ d.id.text)

def memberNames : List String := ["id","kind","parent","cosmetic_parent","expansion","names"]

def encode (d : MapDefinition) : Json :=
  Json.record
    [("id",Codec.mapId.encode d.id),("kind",MapKind.codec.encode d.kind),
      ("parent",Codec.mapId.nullable.encode d.parent),
      ("cosmetic_parent",Codec.mapId.nullable.encode d.cosmeticParent),
      ("expansion",Codec.uint8.encode d.expansion),("names",Codec.textTable.encode d.names)]

def decode (document : Json) : Option MapDefinition := do
  let members ← Codec.members? memberNames document
  return {
    id := ← Codec.mapId.required "id" members
    kind := ← MapKind.codec.required "kind" members
    parent := ← Codec.mapId.nullable.optional "parent" none members
    cosmeticParent := ← Codec.mapId.nullable.optional "cosmetic_parent" none members
    expansion := ← Codec.uint8.optional "expansion" 0 members
    names := ← Codec.textTable.optional "names" [] members }

def codec : Codec MapDefinition := ⟨encode,decode⟩

end MapDefinition

structure InstanceTemplate where
  map : MapId
  parent : Option MapId := none
  maxPlayers : UInt32
  deriving DecidableEq, Repr

namespace InstanceTemplate

def memberNames : List String := ["map","parent","max_players"]

def encode (t : InstanceTemplate) : Json :=
  Json.record
    [("map",Codec.mapId.encode t.map),("parent",Codec.mapId.nullable.encode t.parent),
      ("max_players",Codec.uint32.encode t.maxPlayers)]

def decode (document : Json) : Option InstanceTemplate := do
  let members ← Codec.members? memberNames document
  return {
    map := ← Codec.mapId.required "map" members
    parent := ← Codec.mapId.nullable.optional "parent" none members
    maxPlayers := ← Codec.uint32.required "max_players" members }

def codec : Codec InstanceTemplate := ⟨encode,decode⟩

end InstanceTemplate

structure AccessRequirement where
  map : MapId
  difficulty : Difficulty
  minLevel : UInt8 := 0
  requiredItem : Option UInt32 := none
  requiredQuest : Option UInt32 := none
  requiredAchievement : Option UInt32 := none
  deriving DecidableEq, Repr

namespace AccessRequirement

def memberNames : List String :=
  ["map","difficulty","min_level","required_item","required_quest","required_achievement"]

def encode (r : AccessRequirement) : Json :=
  Json.record
    [("map",Codec.mapId.encode r.map),("difficulty",Difficulty.codec.encode r.difficulty),
      ("min_level",Codec.uint8.encode r.minLevel),
      ("required_item",Codec.uint32.nullable.encode r.requiredItem),
      ("required_quest",Codec.uint32.nullable.encode r.requiredQuest),
      ("required_achievement",Codec.uint32.nullable.encode r.requiredAchievement)]

def decode (document : Json) : Option AccessRequirement := do
  let members ← Codec.members? memberNames document
  return {
    map := ← Codec.mapId.required "map" members
    difficulty := ← Difficulty.codec.required "difficulty" members
    minLevel := ← Codec.uint8.optional "min_level" 0 members
    requiredItem := ← Codec.uint32.nullable.optional "required_item" none members
    requiredQuest := ← Codec.uint32.nullable.optional "required_quest" none members
    requiredAchievement := ← Codec.uint32.nullable.optional "required_achievement" none members }

def codec : Codec AccessRequirement := ⟨encode,decode⟩

end AccessRequirement

structure MapDifficulties where
  map : MapId
  offered : List Difficulty
  deriving DecidableEq, Repr

namespace MapDifficulties

def memberNames : List String := ["map","offered"]

def encode (d : MapDifficulties) : Json :=
  Json.record
    [("map",Codec.mapId.encode d.map),("offered",Difficulty.codec.list.encode d.offered)]

def decode (document : Json) : Option MapDifficulties := do
  let members ← Codec.members? memberNames document
  return {
    map := ← Codec.mapId.required "map" members
    offered := ← Difficulty.codec.list.required "offered" members }

def codec : Codec MapDifficulties := ⟨encode,decode⟩

end MapDifficulties

structure CatalogData where
  maps : List MapDefinition
  templates : List InstanceTemplate := []
  difficulties : List MapDifficulties := []
  requirements : List AccessRequirement := []
  deriving DecidableEq, Repr

namespace CatalogData

def memberNames : List String := ["maps","instance_templates","difficulties","access_requirements"]

def encode (data : CatalogData) : Json :=
  Json.record
    [("maps",MapDefinition.codec.list.encode data.maps),
      ("instance_templates",InstanceTemplate.codec.list.encode data.templates),
      ("difficulties",MapDifficulties.codec.list.encode data.difficulties),
      ("access_requirements",AccessRequirement.codec.list.encode data.requirements)]

def decode (document : Json) : Option CatalogData := do
  let members ← Codec.members? memberNames document
  return {
    maps := ← MapDefinition.codec.list.required "maps" members
    templates := ← InstanceTemplate.codec.list.optional "instance_templates" [] members
    difficulties := ← MapDifficulties.codec.list.optional "difficulties" [] members
    requirements := ← AccessRequirement.codec.list.optional "access_requirements" [] members }

def codec : Codec CatalogData := ⟨encode,decode⟩

end CatalogData
end LiveMaps
