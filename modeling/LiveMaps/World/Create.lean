import LiveMaps.World.State

namespace LiveMaps

structure InstanceRequest where
  participant : ParticipantId
  difficulty : Difficulty
  -- The copy to go back to, if there is one; instance 0 stands for none.
  bound : Option InstanceId := none
  deriving DecidableEq, Repr

namespace InstanceRequest

def boundCopy? (r : InstanceRequest) : Option InstanceId := r.bound.filter (fun id => !id.isBase)

end InstanceRequest

namespace Catalog

-- A map with all maps below it, each before its children. The bound on the depth
-- is the number of definitions, which no chain of distinct maps exceeds.
def familyWithin (c : Catalog) : Nat → MapId → List MapId
  | 0,map => [map]
  | depth+1,map => map :: (c.childrenOf map).flatMap (c.familyWithin depth)

def family (c : Catalog) (map : MapId) : List MapId := c.familyWithin c.definitions.length map

end Catalog

namespace World

def build (w : World) (family : List MapId) (d : MapDefinition) : BaseMap :=
  let serialOf (map : MapId) : Nat := w.born + family.idxOf map
  let bare : LiveMap :=
    { serial := serialOf d.id
      definition := d
      instanceId := .base
      difficulty := .none
      maxPlayers := none
      childTerrain := (w.catalog.childrenOf d.id).map serialOf }
  let own := bare.discover w.tiles
  if d.kind.instanceable then ⟨own,some ⟨w.catalog.template? d.id,[]⟩⟩ else ⟨own.load w.saved,none⟩

def creationEvents (w : World) : Nat → MapId → List Event
  | depth,map =>
    match w.catalog.definition? map with
    | none => []
    | some d =>
      let own := (w.build [] d).own
      let children :=
        match depth with
        | 0 => []
        | depth+1 => (w.catalog.childrenOf map).flatMap (w.creationEvents depth)
      own.discoverEvent w.tiles :: children ++
        (if d.kind.instanceable then [] else [own.loadEvent w.saved]) ++
        [.baseCreated map d.kind.instanceable (w.catalog.childrenOf map).length]

def install (w : World) (root : MapId) : World :=
  let family := w.catalog.family root
  let built := (family.filterMap w.catalog.definition?).map (w.build family)
  {w with
    maps := built.foldl (fun maps b => Ordered.insert BaseMap.order b maps) w.maps
    born := w.born + family.length
    journal := w.journal ++ w.creationEvents w.catalog.definitions.length root }

-- A map with a parent is never built alone: its parent is ensured first, and the creation of the family
-- has to bring it along.
def ensure : Nat → World → MapId → World × Option MapError
  | depth,w,map =>
    if (w.base? map).isSome then (w,none) else
    match w.catalog.definition? map with
    | none => (w,some (.catalog (.unknownMap map)))
    | some d =>
      match d.terrainParent with
      | none => (w.install map,none)
      | some parent =>
        match depth with
        | 0 => (w,some (.childNotInstalled map))
        | depth+1 =>
          match ensure depth w parent with
          | (w,some e) => (w,some e)
          | (w,none) =>
            if (w.base? map).isSome then (w,none) else (w,some (.childNotInstalled map))

def createBase (w : World) (map : MapId) : World × Except MapError BaseMap :=
  match w.ensure w.catalog.definitions.length map with
  | (w,some e) => (w,.error e)
  | (w,none) =>
    match w.base? map with
    | none => (w,.error (.childNotInstalled map))
    | some b => (w,.ok b)

def addCopy (w : World) (host : BaseMap) (template : Option InstanceTemplate) (id : InstanceId)
    (request : InstanceRequest) : World × LiveMap :=
  let copy : LiveMap :=
    { serial := w.born
      definition := host.own.definition
      instanceId := id
      difficulty := request.difficulty
      maxPlayers := template.map InstanceTemplate.maxPlayers }
  let w := w.modifyHost host.serial (BaseMap.mapCopies (Ordered.insert LiveMap.order copy))
  ({w with
      born := w.born + 1
      retiredCopies := w.retiredCopies ++ (host.copy? id).toList
      journal := w.journal ++ [.copyCreated host.map id request.difficulty request.participant] },
    copy)

def takeFreshId (w : World) : World × Except MapError InstanceId :=
  match w.ids.allocate with
  | .error e =>
    (if e = .exhausted then w.tell [.idsExhausted w.ids.next] else w,.error (.instanceId e))
  | .ok (id,ids) =>
    match ids.claim id with
    | .error e => ({w with ids := ids},.error (.instanceId e))
    | .ok ids => ({w with ids := ids},.ok id)

def createCopy (w : World) (host : BaseMap) (request : InstanceRequest) :
    World × Except MapError LiveMap :=
  match host.table with
  | none => (w,.error (.notInstanceable host.map))
  | some table =>
    match request.boundCopy? with
    | some id =>
      match host.copy? id with
      | some copy => (w,.ok copy)
      | none =>
        match w.ids.claim id with
        | .error e => (w,.error (.instanceId e))
        | .ok ids =>
          let (w,copy) := {w with ids := ids}.addCopy host table.template id request
          (w,.ok copy)
    | none =>
      match w.takeFreshId with
      | (w,.error e) => (w,.error e)
      | (w,.ok id) =>
        let (w,copy) := w.addCopy host table.template id request
        (w,.ok copy)

def createCopyAt (w : World) (m : LiveMap) (request : InstanceRequest) :
    World × Except MapError LiveMap :=
  match w.host? m.serial with
  | some host => w.createCopy host request
  | none => (w,.error (.notInstanceable m.map))

end World
end LiveMaps
