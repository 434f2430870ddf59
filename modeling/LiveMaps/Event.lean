import LiveMaps.Catalog.Basic
import LiveMaps.Denial
import LiveMaps.IdTable

namespace LiveMaps

inductive MapError where
  | catalog (cause : CatalogError)
  | childNotInstalled (map : MapId)
  | notInstanceable (map : MapId)
  | instanceId (cause : IdError)
  deriving DecidableEq, Repr

namespace MapError

def message : MapError → String
  | .catalog cause => cause.message
  | .childNotInstalled map => "map " ++ map.text ++ " was not installed by its parent's creation"
  | .notInstanceable map => "map " ++ map.text ++ " is not instanceable"
  | .instanceId cause => cause.message

def isFatal : MapError → Bool
  | .catalog (.unknownMap _) => true
  | .childNotInstalled _ => true
  | .instanceId .exhausted => true
  | _ => false

end MapError

inductive Phase where
  | primary
  | delayed
  deriving DecidableEq, Repr

namespace Phase

def name : Phase → String
  | .primary => "primary"
  | .delayed => "delayed"

end Phase

inductive Event where
  | started (map : MapId) (id : InstanceId) (phase : Phase) (diff : UInt32)
  | finished (map : MapId) (id : InstanceId) (phase : Phase)
  | gridsDiscovered (map : MapId) (grids : Nat)
  | stateLoaded (map : MapId) (respawns corpses : Nat)
  | baseCreated (map : MapId) (instanceable : Bool) (children : Nat)
  | copyCreated (map : MapId) (id : InstanceId) (difficulty : Difficulty) (participant : ParticipantId)
  | copyDestroyed (map : MapId) (id : InstanceId)
  | releaseFailed (map : MapId) (id : InstanceId) (cause : IdError)
  | allUnloaded
  | idsExhausted (next : Nat)
  | idsReplayed (instances highest : Nat)
  | shutdownRequested (cause : MapError)
  | entryDenied (map : MapId) (participant rule : String) (reason : Denial)
  | ghostWithoutCorpse (participant : String)
  | ghostMayEnter (participant mapName : String)
  deriving DecidableEq, Repr

structure JournalLine where
  level : String
  message : String
  fields : List (String × String)
  deriving DecidableEq, Repr

namespace Event

def participantLabel (id : ParticipantId) : String := "ParticipantId(" ++ id.text ++ ")"

def boolText (value : Bool) : String := if value then "true" else "false"

def line? : Event → Option JournalLine
  | .started .. => none
  | .finished .. => none
  | .gridsDiscovered map grids =>
    some ⟨"DEBUG","discovered grid files",[("map",map.text),("grids",toString grids)]⟩
  | .stateLoaded map respawns corpses =>
    some ⟨"DEBUG","loaded persistent map state",
      [("map",map.text),("respawns",toString respawns),("corpses",toString corpses)]⟩
  | .baseCreated map instanceable children =>
    some ⟨"DEBUG","created base map",
      [("map",map.text),("instanceable",boolText instanceable),("children",toString children)]⟩
  | .copyCreated map id difficulty participant =>
    some ⟨"DEBUG","created instance",
      [("map",map.text),("instance",id.text),("difficulty",difficulty.label),
        ("participant",participantLabel participant)]⟩
  | .copyDestroyed map id =>
    some ⟨"DEBUG","destroyed idle instance",[("map",map.text),("instance",id.text)]⟩
  | .releaseFailed map id cause =>
    some ⟨"WARN","failed to release instance id",
      [("map",map.text),("instance",id.text),("error",cause.message)]⟩
  | .allUnloaded => some ⟨"INFO","unloaded all maps",[]⟩
  | .idsExhausted next =>
    some ⟨"ERROR","instance id overflow, cannot continue",[("next",toString next)]⟩
  | .idsReplayed instances highest =>
    some ⟨"INFO","instance ids replayed",
      [("instances",toString instances),("highest",toString highest)]⟩
  | .shutdownRequested cause =>
    some ⟨"ERROR","fatal map error, shutting down",[("error",cause.message)]⟩
  | .entryDenied map participant rule reason =>
    some ⟨"DEBUG","entry denied",
      [("map",map.text),("participant",participant),("rule",rule),("denial",reason.message)]⟩
  | .ghostWithoutCorpse participant =>
    some ⟨"DEBUG","participant is dead but has no corpse",[("participant",participant)]⟩
  | .ghostMayEnter participant mapName =>
    some ⟨"DEBUG","participant has corpse in linked instance and may enter",
      [("participant",participant),("map",mapName)]⟩

end Event
end LiveMaps
