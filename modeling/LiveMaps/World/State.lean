import LiveMaps.Live.Base
import LiveMaps.Schedule.History
import LiveMaps.Schedule.Timer

namespace LiveMaps

structure PassSchedule where
  timer : IntervalTimer
  -- Workers that passes are spread over; none for one map after another.
  workers : Nat
  history : PassHistory
  last : PassRecord
  passes : Nat
  deriving Repr

namespace PassSchedule

def historyLength : Nat := 64

def ofConfig (config : WorldConfig) : PassSchedule :=
  ⟨.every config.updateInterval,config.workerThreads.toNat,.ofCapacity historyLength,⟨0,0,0,0⟩,0⟩

end PassSchedule

-- `maps` are the registered base maps, ascending by id. Maps that have been dropped go to the two retired
-- lists, where nothing looks them up by id. `born` is the serial of the next map.
structure World where
  catalog : Catalog
  config : WorldConfig
  tiles : Terrain.TileSource
  saved : SavedState
  maps : List BaseMap
  retiredMaps : List BaseMap
  retiredCopies : List LiveMap
  born : Nat
  ids : IdTable
  shutdown : Bool
  schedule : PassSchedule
  journal : List Event

namespace World

def start (catalog : Catalog) (config : WorldConfig) (tiles : Terrain.TileSource)
    (saved : SavedState) : World where
  catalog := catalog
  config := config
  tiles := tiles
  saved := saved
  maps := []
  retiredMaps := []
  retiredCopies := []
  born := 0
  ids := .sized 0
  shutdown := false
  schedule := .ofConfig config
  journal := []

def tell (w : World) (events : List Event) : World := {w with journal := w.journal ++ events}

def base? (w : World) (map : MapId) : Option BaseMap := w.maps.find? (fun b => b.map == map)

def find? (w : World) (map : MapId) (id : InstanceId) : Option LiveMap :=
  match w.base? map with
  | none => none
  | some b => if b.isInstanceable then b.copy? id else if id.isBase then some b.own else none

def plainBase? (w : World) (map : MapId) : Option BaseMap :=
  (w.base? map).filter (fun b => !b.isInstanceable)

def dungeonCopies (w : World) : List LiveMap :=
  (w.maps.flatMap BaseMap.copies).filter (fun c => c.definition.kind.isDungeon)

def instanceCount (w : World) : Nat := w.dungeonCopies.length

def participantCount (w : World) : Nat :=
  (w.dungeonCopies.map (fun c => c.participants.length)).foldr (· + ·) 0

def exitCode? (w : World) : Option Nat := if w.shutdown then some 1 else none

def hosts (w : World) : List BaseMap := w.maps ++ w.retiredMaps

def host? (w : World) (serial : Nat) : Option BaseMap := w.hosts.find? (fun b => b.serial == serial)

def live (w : World) : List LiveMap := w.hosts.flatMap BaseMap.all ++ w.retiredCopies

def live? (w : World) (serial : Nat) : Option LiveMap := w.live.find? (fun m => m.serial == serial)

def atSerial (serial : Nat) (f : LiveMap → LiveMap) (m : LiveMap) : LiveMap :=
  if m.serial = serial then f m else m

def modify (w : World) (serial : Nat) (f : LiveMap → LiveMap) : World :=
  {w with
    maps := w.maps.map (BaseMap.mapAll (atSerial serial f))
    retiredMaps := w.retiredMaps.map (BaseMap.mapAll (atSerial serial f))
    retiredCopies := w.retiredCopies.map (atSerial serial f) }

def modifyHost (w : World) (serial : Nat) (f : BaseMap → BaseMap) : World :=
  let change (b : BaseMap) := if b.serial = serial then f b else b
  {w with maps := w.maps.map change, retiredMaps := w.retiredMaps.map change}

def queue (w : World) (serial : Nat) (t : Transfer) : World := w.modify serial (LiveMap.queue · t)

def setEncounter (w : World) (serial : Nat) (running : Bool) : World :=
  w.modify serial (LiveMap.setEncounter · running)

def attach (w : World) (serial child : Nat) : World := w.modify serial (LiveMap.attach child)

def discover (w : World) (serial : Nat) : World :=
  match w.live? serial with
  | none => w
  | some m => (w.modify serial (LiveMap.discover w.tiles)).tell [m.discoverEvent w.tiles]

def load (w : World) (serial : Nat) : World :=
  match w.live? serial with
  | none => w
  | some m => (w.modify serial (LiveMap.load w.saved)).tell [m.loadEvent w.saved]

end World
end LiveMaps
