import LiveMaps.Admission.Rules
import LiveMaps.CommandLine.Arguments
import LiveMaps.Documents
import LiveMaps.Simulation

namespace LiveMaps.CommandLine
open Number

-- How long the passes of a simulation took is known only from outside; the report is told.
structure Outcome where
  exitCode : Nat
  lines : PassTimes → List String
  error : Option String
  files : FileTree

namespace Outcome

def success (lines : List String) (files : FileTree) : Outcome := ⟨0,fun _ => lines,none,files⟩

def failure (lines : List String) (error : String) (files : FileTree) : Outcome :=
  ⟨1,fun _ => lines,some error,files⟩

def misuse (files : FileTree) : Outcome := ⟨2,fun _ => [],none,files⟩

end Outcome

def version : String := "v0.1.0"

def componentLine (component : String) : String := "shardmap-" ++ component ++ " " ++ version

def components : List String := ["common","kernel","admission","update","persist"]

def infoLines : List String :=
  componentLine "cli" :: components.map (fun c => c ++ ": " ++ componentLine c)

def shownLocale : String := "enUS"

def orDash (text : Option String) : String := text.getD "-"

def definitionLine (c : Catalog) (d : MapDefinition) : String :=
  padLeft 5 d.id.text ++ " " ++ padRight 12 d.kind.label ++
    " parent=" ++ padRight 5 (orDash (d.terrainParent.map MapId.text)) ++
    " max_players=" ++
      padRight 4 (orDash ((c.template? d.id).map (fun t => toString t.maxPlayers.toNat))) ++
    " " ++ d.displayName shownLocale

def catalogLines (c : Catalog) : List String :=
  (toString c.definitions.length ++ " maps") :: c.definitions.map (definitionLine c)

def loadCatalog (files : FileTree) (path : String) : Except String Catalog :=
  match Catalog.load files (Route.ofText path) with
  | .ok c => .ok c
  | .error _ => .error ("loading catalog " ++ path)

def loadConfig (files : FileTree) : Option String → Except String WorldConfig
  | none => .ok {}
  | some path =>
    match WorldConfig.load files (Route.ofText path) with
    | .ok config => .ok config
    | .error _ => .error ("loading config " ++ path)

def loadParticipant (files : FileTree) (fresh : ParticipantId) (path : String) :
    Except String ParticipantState :=
  if files.exist (Route.ofText path) then
    match (files.read? (Route.ofText path)).bind (ParticipantState.codec fresh).read? with
    | some p => .ok p
    | none => .error ("parsing " ++ path)
  else .error ("opening " ++ path)

def runCatalog (files : FileTree) (path : String) : Outcome :=
  match loadCatalog files path with
  | .error e => .failure [] e files
  | .ok c => .success (catalogLines c) files

def admitLine (p : ParticipantState) (map : MapId) : Decision → String
  | .allowed => p.name ++ " may enter map " ++ map.text
  | .denied reason => p.name ++ " denied entry to map " ++ map.text ++ ": " ++ reason.message

def attemptLine (files : FileTree) (fresh : ParticipantId) (catalog : String)
    (config : Option String) (participant : String) (map : MapId) (login : Bool) :
    Except String String := do
  let config ← loadConfig files config
  let p ← loadParticipant files fresh participant
  let c ← loadCatalog files catalog
  let world := World.start c config .none .empty
  return admitLine p map (world.evaluate map p login).1

def runAdmit (files : FileTree) (line : Except String String) : Outcome :=
  match line with
  | .error e => .failure [] e files
  | .ok line => .success [line] files

def positionText (map : MapId) (x y : Single) : String :=
  "map " ++ map.text ++ " (" ++ singleText x ++ ", " ++ singleText y ++ ")"

def probeLine (files : FileTree) (terrain : String) (map : MapId) (x y : Single) : String :=
  let source := Terrain.TileSource.directory files (Route.ofText terrain)
  match (Terrain.Cell.ofWorld x y).tile? with
  | some tile =>
    positionText map x y ++ " -> grid " ++ toString tile.gx ++ "," ++ toString tile.gy ++ ": " ++
      (if Terrain.exist source map x y then "present" else "missing")
  | none => positionText map x y ++ " is outside the grid"

def replayLines : Option Nat → List String
  | none => []
  | some count => ["Replayed " ++ toString count ++ " instance ids"]

def reportLines (plan : Simulation) (r : Simulation.Report) (times : PassTimes) : List String :=
  ["Simulating " ++ toString plan.ticks ++ " x " ++ toString plan.step.toNat ++ "ms over " ++
      toString r.baseMaps ++ " base maps (" ++ toString r.workers ++ " workers)",
    "Passes: " ++ toString r.passes ++ ", instances: " ++ toString r.instances ++
      ", participants in instances: " ++ toString r.participants,
    "Pass time over last " ++ toString r.kept ++ ": primary avg " ++ durationText times.primary ++
      ", delayed avg " ++ durationText times.delayed ++ ", slowest " ++
      durationText (times.primary + times.delayed)]

def haltOutcome (lines : List String) (files : FileTree) : Simulation.Halt → Outcome
  | .map cause => .failure lines cause.message files
  | .store cause => .failure lines cause.message files
  | .shutdown => ⟨1,fun _ => lines,none,files⟩

def simulationOutcome (plan : Simulation) (result : Simulation.Result) : Outcome :=
  match result.outcome with
  | .error halt => haltOutcome (replayLines result.replayed) result.files halt
  | .ok report =>
    ⟨report.exitCode,fun times => replayLines result.replayed ++ reportLines plan report times,
      none,result.files⟩

def openStore (files : FileTree) : Option String →
    Except String (Option DirectoryStore) × FileTree
  | none => (.ok none,files)
  | some path =>
    match DirectoryStore.openAt files (Route.ofText path) with
    | (.ok store,files) => (.ok (some store),files)
    | (.error e,files) => (.error e.message,files)

def tilesIn (files : FileTree) : Option String → Terrain.TileSource
  | none => .none
  | some path => .directory files (Route.ofText path)

def simulationInputs (files : FileTree) (catalog : String) (config : Option String)
    (threads : Option UInt64) : Except String (WorldConfig × Catalog) := do
  let config ← loadConfig files config
  let c ← loadCatalog files catalog
  return ({config with workerThreads := threads.getD config.workerThreads},c)

def runSimulate (files : FileTree) (inputs : Except String (WorldConfig × Catalog))
    (store terrain : Option String) (plan : Simulation) : Outcome :=
  match inputs with
  | .error e => .failure [] e files
  | .ok (config,c) =>
    match openStore files store with
    | (.error e,files) => .failure [] e files
    | (.ok store,files) =>
      simulationOutcome plan (plan.run (.start c config (tilesIn files terrain) store files))

def execute (files : FileTree) (fresh : ParticipantId) : Command → Outcome
  | .info => .success infoLines files
  | .catalog path => runCatalog files path
  | .simulate catalog config store terrain ticks step threads copies =>
    runSimulate files (simulationInputs files catalog config threads) store terrain
      ⟨ticks.toNat,step,copies.toNat⟩
  | .attempt catalog config participant map login =>
    runAdmit files (attemptLine files fresh catalog config participant ⟨map⟩ login)
  | .probe terrain map x y => .success [probeLine files terrain ⟨map⟩ x y] files

def namedRoutes : Command → List Route
  | .info => []
  | .catalog path => [.ofText path]
  | .simulate catalog config store _ _ _ _ _ =>
    (catalog :: config.toList).map Route.ofText ++
      store.toList.flatMap (fun path => DirectoryStore.routes (.ofText path))
  | .attempt catalog config participant _ _ =>
    (catalog :: participant :: config.toList).map Route.ofText
  | .probe _ _ _ _ => []

def tileRoutes (files : FileTree) : Command → List Route
  | .simulate catalog _ _ (some terrain) _ _ _ _ =>
    match loadCatalog files catalog with
    | .error _ => []
    | .ok c => c.definitions.flatMap (fun d =>
      Terrain.allTiles.map (fun tile => (Route.ofText terrain).join (Terrain.terrainPath d.id tile)))
  | .probe terrain map x y =>
    (Terrain.Cell.ofWorld x y).tile?.toList.flatMap (fun tile =>
      [(Route.ofText terrain).join (Terrain.terrainPath ⟨map⟩ tile),
        (Route.ofText terrain).join (Terrain.collisionPath ⟨map⟩ tile)])
  | _ => []

def run (arguments : List String) (fresh : ParticipantId) (files : FileTree) : Outcome :=
  match command? arguments with
  | none => .misuse files
  | some command => execute files fresh command

end LiveMaps.CommandLine
