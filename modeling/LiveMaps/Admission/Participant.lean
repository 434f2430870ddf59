import LiveMaps.Catalog.Records
import LiveMaps.Location

namespace LiveMaps

structure InstanceBind where
  map : MapId
  instanceId : InstanceId
  difficulty : Difficulty
  permanent : Bool := false
  deriving DecidableEq, Repr

namespace InstanceBind

def memberNames : List String := ["map","instance","difficulty","permanent"]

def encode (b : InstanceBind) : Json :=
  Json.record
    [("map",Codec.mapId.encode b.map),("instance",Codec.instanceId.encode b.instanceId),
      ("difficulty",Difficulty.codec.encode b.difficulty),
      ("permanent",Codec.bool.encode b.permanent)]

def decode (document : Json) : Option InstanceBind := do
  let members ← Codec.members? memberNames document
  return {
    map := ← Codec.mapId.required "map" members
    instanceId := ← Codec.instanceId.required "instance" members
    difficulty := ← Difficulty.codec.required "difficulty" members
    permanent := ← Codec.bool.optional "permanent" false members }

def codec : Codec InstanceBind := ⟨encode,decode⟩

end InstanceBind

inductive GroupKind where
  | party
  | raid
  deriving DecidableEq, Repr, Inhabited

namespace GroupKind

def all : List GroupKind := [.party,.raid]

def name : GroupKind → String
  | .party => "party"
  | .raid => "raid"

def codec : Codec GroupKind := Codec.choice all name

end GroupKind

structure GroupState where
  kind : GroupKind := .party
  dungeonFinder : Bool := false
  binds : List InstanceBind := []
  deriving DecidableEq, Repr

namespace GroupState

def isRaid (g : GroupState) : Bool := g.kind == .raid

def bound? (g : GroupState) (map : MapId) (difficulty : Difficulty) : Option InstanceId :=
  (g.binds.find? (fun b => b.map == map && b.difficulty == difficulty)).map InstanceBind.instanceId

def addBind (g : GroupState) (bind : InstanceBind) : GroupState := {g with binds := g.binds ++ [bind]}

def memberNames : List String := ["kind","dungeon_finder","binds"]

def encode (g : GroupState) : Json :=
  Json.record
    [("kind",GroupKind.codec.encode g.kind),("dungeon_finder",Codec.bool.encode g.dungeonFinder),
      ("binds",InstanceBind.codec.list.encode g.binds)]

def decode (document : Json) : Option GroupState := do
  let members ← Codec.members? memberNames document
  let default : GroupState := {}
  return {
    kind := ← GroupKind.codec.optional "kind" default.kind members
    dungeonFinder := ← Codec.bool.optional "dungeon_finder" default.dungeonFinder members
    binds := ← InstanceBind.codec.list.optional "binds" default.binds members }

def codec : Codec GroupState := ⟨encode,decode⟩

end GroupState

structure ParticipantState where
  id : ParticipantId
  name : String := ""
  level : UInt8 := 1
  gameMaster : Bool := false
  alive : Bool := true
  corpse : Option WorldLocation := none
  dungeonDifficulty : Difficulty := .normal
  raidDifficulty : Difficulty := .raid10Normal
  -- The three sets are ascending.
  items : List UInt32 := []
  completedQuests : List UInt32 := []
  achievements : List UInt32 := []
  group : Option GroupState := none
  binds : List InstanceBind := []
  recentInstances : List InstanceId := []
  reconnecting : Bool := false
  deriving DecidableEq, Repr

namespace ParticipantState

def named (id : ParticipantId) (name : String) : ParticipantState := {id := id, name := name}

def difficultyFor (p : ParticipantState) (d : MapDefinition) : Difficulty :=
  if d.kind.isRaid then p.raidDifficulty else p.dungeonDifficulty

def possesses (owned : List UInt32) : Option UInt32 → Bool
  | none => true
  | some wanted => owned.contains wanted

def meets (p : ParticipantState) (r : AccessRequirement) : Bool :=
  decide (r.minLevel ≤ p.level) && possesses p.items r.requiredItem &&
    possesses p.completedQuests r.requiredQuest && possesses p.achievements r.requiredAchievement

def satisfies (p : ParticipantState) : Option AccessRequirement → Bool
  | none => true
  | some r => p.meets r

def bind? (p : ParticipantState) (map : MapId) : Option InstanceBind :=
  p.binds.find? (fun b => b.map == map)

def inRaid (p : ParticipantState) : Bool :=
  match p.group with
  | none => false
  | some g => g.isRaid

def viaDungeonFinder (p : ParticipantState) : Bool :=
  match p.group with
  | none => false
  | some g => g.dungeonFinder

def memberNames : List String :=
  ["id","name","level","game_master","alive","corpse","dungeon_difficulty","raid_difficulty",
    "items","completed_quests","achievements","group","binds","recent_instances","reconnecting"]

def encode (p : ParticipantState) : Json :=
  Json.record
    [("id",Codec.participantId.encode p.id),("name",Codec.string.encode p.name),
      ("level",Codec.uint8.encode p.level),("game_master",Codec.bool.encode p.gameMaster),
      ("alive",Codec.bool.encode p.alive),("corpse",WorldLocation.codec.nullable.encode p.corpse),
      ("dungeon_difficulty",Difficulty.codec.encode p.dungeonDifficulty),
      ("raid_difficulty",Difficulty.codec.encode p.raidDifficulty),
      ("items",Codec.numberSet.encode p.items),
      ("completed_quests",Codec.numberSet.encode p.completedQuests),
      ("achievements",Codec.numberSet.encode p.achievements),
      ("group",GroupState.codec.nullable.encode p.group),
      ("binds",InstanceBind.codec.list.encode p.binds),
      ("recent_instances",Codec.instanceId.list.encode p.recentInstances),
      ("reconnecting",Codec.bool.encode p.reconnecting)]

def decode (fresh : ParticipantId) (document : Json) : Option ParticipantState := do
  let members ← Codec.members? memberNames document
  let default : ParticipantState := {id := fresh}
  return {
    id := ← Codec.participantId.optional "id" default.id members
    name := ← Codec.string.optional "name" default.name members
    level := ← Codec.uint8.optional "level" default.level members
    gameMaster := ← Codec.bool.optional "game_master" default.gameMaster members
    alive := ← Codec.bool.optional "alive" default.alive members
    corpse := ← WorldLocation.codec.nullable.optional "corpse" default.corpse members
    dungeonDifficulty :=
      ← Difficulty.codec.optional "dungeon_difficulty" default.dungeonDifficulty members
    raidDifficulty := ← Difficulty.codec.optional "raid_difficulty" default.raidDifficulty members
    items := ← Codec.numberSet.optional "items" default.items members
    completedQuests := ← Codec.numberSet.optional "completed_quests" default.completedQuests members
    achievements := ← Codec.numberSet.optional "achievements" default.achievements members
    group := ← GroupState.codec.nullable.optional "group" default.group members
    binds := ← InstanceBind.codec.list.optional "binds" default.binds members
    recentInstances :=
      ← Codec.instanceId.list.optional "recent_instances" default.recentInstances members
    reconnecting := ← Codec.bool.optional "reconnecting" default.reconnecting members }

def codec (fresh : ParticipantId) : Codec ParticipantState := ⟨encode,decode fresh⟩

end ParticipantState
end LiveMaps
