import LiveMaps.World.Create

namespace LiveMaps.World

def resolve (w : World) (map : MapId) (request : InstanceRequest) :
    World × Except MapError (Option LiveMap) :=
  match w.createBase map with
  | (w,.error e) => (w,.error e)
  | (w,.ok b) =>
    if b.isInstanceable then
      let difficulty := (w.catalog.downscale map request.difficulty).getD request.difficulty
      match w.createCopy b {request with difficulty := difficulty} with
      | (w,.error e) => (w,.error e)
      | (w,.ok copy) => (w,.ok (some copy))
    else (w,.ok (if request.boundCopy?.isSome then none else some b.own))

def requestShutdown (w : World) (cause : MapError) : World :=
  {w with shutdown := true}.tell [.shutdownRequested cause]

def createMap (w : World) (map : MapId) (request : InstanceRequest) :
    World × Except MapError (Option LiveMap) :=
  match w.resolve map request with
  | (w,.error e) => (if e.isFatal then w.requestShutdown e else w,.error e)
  | (w,.ok answer) => (w,.ok answer)

def initIds (w : World) (highest : Nat) : World := {w with ids := .sized highest}

def registerId (w : World) (id : InstanceId) : World × Except IdError Unit :=
  match w.ids.reserve id with
  | .error e => (w,.error e)
  | .ok ids => ({w with ids := ids},.ok ())

def claimId (w : World) (id : InstanceId) : World × Except IdError Unit :=
  match w.ids.claim id with
  | .error e => (w,.error e)
  | .ok ids => ({w with ids := ids},.ok ())

def freeId (w : World) (id : InstanceId) : World × Except IdError Unit :=
  match w.ids.release id with
  | .error e => (w,.error e)
  | .ok ids => ({w with ids := ids},.ok ())

def generateId (w : World) : World × Except IdError InstanceId :=
  match w.ids.allocate with
  | .ok (id,ids) => ({w with ids := ids},.ok id)
  | .error e =>
    let w := if e = .exhausted then w.tell [.idsExhausted w.ids.next] else w
    (w.requestShutdown (.instanceId e),.error e)

def registerAll (w : World) : List InstanceId → World × Except IdError Unit
  | [] => (w,.ok ())
  | id :: rest =>
    match w.registerId id with
    | (w,.error e) => (w,.error e)
    | (w,.ok ()) => w.registerAll rest

def replay (w : World) (saved : List InstanceId) (highest : Nat) : World × Except IdError Nat :=
  match (w.initIds highest).registerAll saved with
  | (w,.error e) => (w,.error e)
  | (w,.ok ()) => (w.tell [.idsReplayed saved.length highest],.ok saved.length)

def replaySaved (w : World) : World × Except IdError Nat :=
  w.replay (w.saved.instances.map InstanceRecord.id) w.saved.highestId

end LiveMaps.World
