import LiveMaps.Config
import LiveMaps.Event
import LiveMaps.Saved.State
import LiveMaps.Terrain.Tiles

namespace LiveMaps

inductive Transfer where
  | enter (participant : ParticipantId)
  | leave (participant : ParticipantId)
  deriving DecidableEq, Repr

structure EntryRequest where
  participant : ParticipantId
  isGameMaster : Bool := false
  reconnecting : Bool := false
  permanentBind : Option InstanceId := none
  deriving DecidableEq, Repr

-- `serial` numbers the running maps of a world in the order of their creation and is never given twice.
structure LiveMap where
  serial : Nat
  definition : MapDefinition
  instanceId : InstanceId
  difficulty : Difficulty
  maxPlayers : Option UInt32
  -- Ascending and without repetition.
  participants : List ParticipantId := []
  pending : List Transfer := []
  -- Words of 64 bits hold the same for as long as fewer than 2 ^ 32 updates have run: `Clock.elapsed_lt`.
  ticks : Nat := 0
  elapsed : Nat := 0
  idle : UInt32 := 0
  respawns : List RespawnTime := []
  corpses : List Corpse := []
  unloaded : Bool := false
  grids : List Terrain.Tile := []
  -- Serials of the maps attached below this one.
  childTerrain : List Nat := []
  encounter : Bool := false
  deriving Repr

namespace LiveMap

def map (m : LiveMap) : MapId := m.definition.id

def order (m : LiveMap) : Nat := m.instanceId.order

def addSaturating (a b : UInt32) : UInt32 := if a.toNat + b.toNat < 0x100000000 then a + b else 0xffffffff

def queue (m : LiveMap) (t : Transfer) : LiveMap := {m with pending := m.pending ++ [t]}

def holds (m : LiveMap) (participant : ParticipantId) : Bool := m.participants.contains participant

def setEncounter (m : LiveMap) (running : Bool) : LiveMap := {m with encounter := running}

def isFull (m : LiveMap) : Bool :=
  match m.maxPlayers with
  | none => false
  | some limit => limit.toNat ≤ m.participants.length

def denial? (m : LiveMap) (r : EntryRequest) : Option Denial :=
  if m.instanceId.isBase || r.isGameMaster then none
  else if m.isFull && !m.holds r.participant then some .maxPlayers
  else if !r.reconnecting && m.definition.kind.isRaid && m.encounter then some .zoneInCombat
  else
    match r.permanentBind with
    | some bound => if bound != m.instanceId then some .instanceBindMismatch else none
    | none => none

def isQuiet (m : LiveMap) : Bool := m.participants.isEmpty && m.pending.isEmpty

def advance (diff : UInt32) (m : LiveMap) : LiveMap :=
  {m with
    ticks := m.ticks + 1
    elapsed := m.elapsed + diff.toNat
    idle := if m.isQuiet then addSaturating m.idle diff else 0 }

def applyTransfer (participants : List ParticipantId) : Transfer → List ParticipantId
  | .enter p => Ordered.insert ParticipantId.order p participants
  | .leave p => participants.filter (· != p)

def settle (m : LiveMap) : LiveMap :=
  {m with participants := m.pending.foldl applyTransfer m.participants, pending := []}

def isExpired (delay : UInt32) (m : LiveMap) : Bool :=
  delay != 0 && m.isQuiet && delay.toNat ≤ m.idle.toNat

def unload (m : LiveMap) : LiveMap :=
  {m with participants := [], pending := [], respawns := [], corpses := [], unloaded := true}

def load (saved : SavedState) (m : LiveMap) : LiveMap :=
  {m with
    respawns := saved.respawnsIn m.map m.instanceId
    corpses := saved.corpsesIn m.map m.instanceId }

def loadEvent (saved : SavedState) (m : LiveMap) : Event :=
  .stateLoaded m.map (saved.respawnsIn m.map m.instanceId).length
    (saved.corpsesIn m.map m.instanceId).length

def discover (source : Terrain.TileSource) (m : LiveMap) : LiveMap :=
  {m with grids := Terrain.discover source m.map}

def discoverEvent (source : Terrain.TileSource) (m : LiveMap) : Event :=
  .gridsDiscovered m.map (Terrain.discover source m.map).length

def attach (child : Nat) (m : LiveMap) : LiveMap := {m with childTerrain := m.childTerrain ++ [child]}

def startEvent (phase : Phase) (diff : UInt32) (m : LiveMap) : Event :=
  .started m.map m.instanceId phase diff

def finishEvent (phase : Phase) (m : LiveMap) : Event := .finished m.map m.instanceId phase

def describe (m : LiveMap) : String :=
  "Map \x7b id: MapId(" ++ m.map.text ++ "), instance_id: InstanceId(" ++ m.instanceId.text ++
    "), kind: " ++ m.definition.kind.label ++ ", difficulty: " ++ m.difficulty.label ++ ", .. \x7d"

end LiveMap
end LiveMaps
