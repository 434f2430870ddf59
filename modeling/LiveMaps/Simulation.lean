import LiveMaps.Saved.Directory
import LiveMaps.World.Resolve
import LiveMaps.World.Tick

namespace LiveMaps

structure Simulation where
  ticks : Nat
  -- Milliseconds per tick.
  step : UInt32
  copies : Nat
  deriving DecidableEq, Repr

namespace Simulation

-- `guests` counts the participants so far.
structure Session where
  world : World
  store : Option DirectoryStore
  files : FileTree
  guests : Nat

-- After `shutdown` the world has been told to stop, which is no failure of the run itself.
inductive Halt where
  | map (cause : MapError)
  | store (cause : StoreError)
  | shutdown
  deriving DecidableEq, Repr

namespace Session

def withStore (s : Session) (store : DirectoryStore) (files : FileTree) : Session :=
  {s with store := some store, files := files, world := {s.world with saved := store.data}}

def save (s : Session) (record : InstanceRecord) : Session × Option Halt :=
  match s.store with
  | none => (s,none)
  | some store =>
    match store.saveInstance record with
    | .error e => (s,some (.store e))
    | .ok change =>
      match DirectoryStore.perform DirectoryStore.noFaults store s.files change with
      | (store,files,.ok ()) => (s.withStore store files,none)
      | (store,files,.error e) => (s.withStore store files,some (.store e))

def openCopy (s : Session) (map : MapId) : Session × Option Halt :=
  let guest := ParticipantId.ofNat (s.guests + 1)
  match s.world.createMap map {participant := guest, difficulty := .normal} with
  | (w,.error e) => ({s with world := w},some (if w.shutdown then .shutdown else .map e))
  | (w,.ok none) => ({s with world := w},none)
  | (w,.ok (some copy)) =>
    let entered := {s with world := w.queue copy.serial (.enter guest), guests := s.guests + 1}
    entered.save ⟨copy.instanceId,map,copy.difficulty,0⟩

def openCopies : Nat → Session → MapId → Session × Option Halt
  | 0,s,_ => (s,none)
  | count+1,s,map =>
    match s.openCopy map with
    | (s,some halt) => (s,some halt)
    | (s,none) => openCopies count s map

def openRoots (copies : Nat) : Session → List MapDefinition → Session × Option Halt
  | s,[] => (s,none)
  | s,d :: rest =>
    match s.world.createBase d.id with
    | (w,.error e) => ({s with world := w},some (.map e))
    | (w,.ok _) =>
      match openCopies (if d.kind.instanceable then copies else 0) {s with world := w} d.id with
      | (s,some halt) => (s,some halt)
      | (s,none) => openRoots copies s rest

def replay (s : Session) : Session × Except Halt (Option Nat) :=
  match s.store with
  | none => (s,.ok none)
  | some _ =>
    match s.world.replaySaved with
    | (w,.error e) => ({s with world := w},.error (.store (.replay e)))
    | (w,.ok count) => ({s with world := w},.ok (some count))

end Session

def tick (step : UInt32) (w : World) : World :=
  if w.shutdown then w else {(w.advance step ⟨0,0⟩).1 with journal := []}

def ticked (step : UInt32) : Nat → World → World
  | 0,w => w
  | count+1,w => ticked step count (tick step w)

structure Report where
  baseMaps : Nat
  workers : Nat
  passes : Nat
  instances : Nat
  participants : Nat
  kept : Nat
  exitCode : Nat
  deriving DecidableEq, Repr

def report (w : World) : Report where
  baseMaps := w.maps.length
  workers := w.schedule.workers
  passes := w.schedule.passes
  instances := w.instanceCount
  participants := w.participantCount
  kept := w.schedule.history.passes.length
  exitCode := w.exitCode?.getD 0

structure Result where
  files : FileTree
  replayed : Option Nat
  outcome : Except Halt Report

def roots (c : Catalog) : List MapDefinition :=
  c.definitions.filter (fun d => d.terrainParent.isNone)

def Session.start (catalog : Catalog) (config : WorldConfig) (tiles : Terrain.TileSource)
    (store : Option DirectoryStore) (files : FileTree) : Session where
  world := World.start catalog config tiles
    (match store with
      | none => .empty
      | some store => store.data)
  store := store
  files := files
  guests := 0

def run (plan : Simulation) (start : Session) : Result :=
  match start.replay with
  | (s,.error halt) => ⟨s.files,none,.error halt⟩
  | (s,.ok replayed) =>
    match s.openRoots plan.copies (roots s.world.catalog) with
    | (s,some halt) => ⟨s.files,replayed,.error halt⟩
    | (s,none) => ⟨s.files,replayed,.ok (report (ticked plan.step plan.ticks s.world))⟩

end Simulation
end LiveMaps
