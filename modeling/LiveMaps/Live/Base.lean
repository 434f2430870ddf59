import LiveMaps.Live.Map

namespace LiveMaps

structure CopyTable where
  template : Option InstanceTemplate
  copies : List LiveMap
  deriving Repr

-- Only maps of an instanceable kind have a table.
structure BaseMap where
  own : LiveMap
  table : Option CopyTable
  deriving Repr

namespace BaseMap

def map (b : BaseMap) : MapId := b.own.map

def order (b : BaseMap) : Nat := b.own.map.order

def serial (b : BaseMap) : Nat := b.own.serial

def isInstanceable (b : BaseMap) : Bool := b.table.isSome

def copies (b : BaseMap) : List LiveMap :=
  match b.table with
  | none => []
  | some table => table.copies

def copy? (b : BaseMap) (id : InstanceId) : Option LiveMap := b.copies.find? (fun c => c.instanceId == id)

def mapCopies (f : List LiveMap → List LiveMap) (b : BaseMap) : BaseMap :=
  {b with table := b.table.map (fun table => {table with copies := f table.copies})}

def all (b : BaseMap) : List LiveMap := b.own :: b.copies

def mapAll (f : LiveMap → LiveMap) (b : BaseMap) : BaseMap :=
  {b.mapCopies (List.map f) with own := f b.own}

def expired (delay : UInt32) (b : BaseMap) : List LiveMap := b.copies.filter (LiveMap.isExpired delay)

def surviving (delay : UInt32) (b : BaseMap) : List LiveMap :=
  b.copies.filter (fun c => !c.isExpired delay)

def primary (delay diff : UInt32) (b : BaseMap) : BaseMap :=
  { own := b.own.advance diff
    table := b.table.map (fun table =>
      {table with copies := (b.surviving delay).map (LiveMap.advance diff)}) }

def delayed (b : BaseMap) : BaseMap := b.mapAll LiveMap.settle

-- A copy goes even where the table cannot take its identifier back.
def dismiss (map : MapId) (ids : IdTable) (copy : LiveMap) : IdTable × List Event :=
  match ids.release copy.instanceId with
  | .ok ids => (ids,[.copyDestroyed map copy.instanceId])
  | .error e => (ids,[.releaseFailed map copy.instanceId e,.copyDestroyed map copy.instanceId])

def dismissAll (map : MapId) : IdTable → List LiveMap → IdTable × List Event
  | ids,[] => (ids,[])
  | ids,copy :: rest =>
    let (ids,events) := dismiss map ids copy
    let (ids,later) := dismissAll map ids rest
    (ids,events ++ later)

def turn (phase : Phase) (diff : UInt32) (m : LiveMap) : List Event :=
  [m.startEvent phase diff,m.finishEvent phase]

def primaryEffects (delay diff : UInt32) (ids : IdTable) (b : BaseMap) : IdTable × List Event :=
  let (ids,destroyed) := dismissAll b.map ids (b.expired delay)
  (ids,b.own.startEvent .primary diff :: (b.surviving delay).flatMap (turn .primary diff) ++
    destroyed ++ [b.own.finishEvent .primary])

def delayedEvents (diff : UInt32) (b : BaseMap) : List Event :=
  b.own.startEvent .delayed diff :: b.copies.flatMap (turn .delayed diff) ++
    [b.own.finishEvent .delayed]

def unload (b : BaseMap) : BaseMap := {b.mapCopies (fun _ => []) with own := b.own.unload}

end BaseMap
end LiveMaps
