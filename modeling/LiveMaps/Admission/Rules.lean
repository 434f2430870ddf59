import LiveMaps.Admission.Participant
import LiveMaps.World.State

namespace LiveMaps

structure Attempt where
  catalog : Catalog
  config : AdmissionConfig
  copy? : MapId → InstanceId → Option LiveMap
  definition : MapDefinition
  participant : ParticipantState
  login : Bool

namespace Attempt

def map (a : Attempt) : MapId := a.definition.id

def requested (a : Attempt) : Difficulty := a.participant.difficultyFor a.definition

def effective? (a : Attempt) : Option Difficulty := a.catalog.downscale a.map a.requested

def effective (a : Attempt) : Difficulty := a.effective?.getD .none

-- Whether the way from a map up through the enclosing instances leads to the
-- target. No way without repetition is longer than there are templates.
def leadsTo (a : Attempt) (start : MapId) : Bool :=
  (Ancestry.chain a.catalog.templateParent? a.catalog.templates.length start).contains a.map

def boundCopy? (a : Attempt) : Option LiveMap := do
  let group ← a.participant.group
  let id ← group.bound? a.map a.effective
  a.copy? a.map id

def permanentBind? (a : Attempt) : Option InstanceId :=
  ((a.participant.bind? a.map).filter
    (fun b => b.permanent && b.difficulty == a.effective)).map InstanceBind.instanceId

def entryRequest (a : Attempt) : EntryRequest where
  participant := a.participant.id
  isGameMaster := a.participant.gameMaster
  reconnecting := a.participant.reconnecting
  permanentBind := a.permanentBind?

def alreadyCounted (a : Attempt) : Bool :=
  match a.participant.bind? a.map with
  | none => false
  | some b => a.participant.recentInstances.contains b.instanceId

def underCap (a : Attempt) : Bool :=
  decide (a.participant.recentInstances.length < a.config.maxInstancesPerHour.toNat)

end Attempt

inductive Verdict where
  | pass
  | allow
  | deny (reason : Denial)
  deriving DecidableEq, Repr

namespace Verdict

def denyIf (refused : Bool) (reason : Denial) : Verdict := if refused then .deny reason else .pass

end Verdict

inductive Rule where
  | nonDungeon
  | instanceTemplate
  | difficulty
  | gameMaster
  | accessRequirement
  | raidGroup
  | corpseChain
  | boundInstance
  | instanceCap
  deriving DecidableEq, Repr

namespace Rule

def all : List Rule :=
  [.nonDungeon,.instanceTemplate,.difficulty,.gameMaster,.accessRequirement,.raidGroup,
    .corpseChain,.boundInstance,.instanceCap]

def name : Rule → String
  | .nonDungeon => "non_dungeon"
  | .instanceTemplate => "instance_template"
  | .difficulty => "difficulty"
  | .gameMaster => "game_master"
  | .accessRequirement => "access_requirement"
  | .raidGroup => "raid_group"
  | .corpseChain => "corpse_chain"
  | .boundInstance => "bound_instance"
  | .instanceCap => "instance_cap"

def verdict (a : Attempt) : Rule → Verdict
  | .nonDungeon => if a.definition.kind.isDungeon then .pass else .allow
  | .instanceTemplate => .denyIf (a.catalog.template? a.map).isNone .uninstancedDungeon
  | .difficulty => .denyIf a.effective?.isNone .difficultyUnavailable
  | .gameMaster => if a.participant.gameMaster then .allow else .pass
  | .accessRequirement =>
    .denyIf (!a.participant.satisfies (a.catalog.requirement? a.map a.effective)) .unspecifiedReason
  | .raidGroup =>
    .denyIf (a.definition.kind.isRaid && decide (a.config.activeExpansion ≤ a.definition.expansion) &&
      !a.participant.inRaid && !a.config.ignoreRaidRequirement) .notInRaid
  | .corpseChain =>
    match a.participant.alive,a.participant.corpse with
    | false,some corpse => .denyIf (!a.leadsTo corpse.map) .corpseInDifferentInstance
    | _,_ => .pass
  | .boundInstance =>
    if a.login then .pass else
    match a.boundCopy?.bind (fun copy => copy.denial? a.entryRequest) with
    | some reason => .deny reason
    | none => .pass
  | .instanceCap =>
    .denyIf (!a.participant.viaDungeonFinder && !a.underCap && !a.alreadyCounted &&
      a.participant.alive) .tooManyInstances

def remarks (a : Attempt) : Rule → List Event
  | .corpseChain =>
    match a.participant.alive,a.participant.corpse with
    | true,_ => []
    | false,none => [.ghostWithoutCorpse a.participant.name]
    | false,some _ =>
      [.ghostMayEnter a.participant.name (a.definition.displayName a.config.defaultLocale)]
  | _ => []

end Rule

namespace Attempt

def judge (a : Attempt) : List Rule → Decision × List Event
  | [] => (.allowed,[])
  | rule :: rest =>
    match rule.verdict a with
    | .pass => let (decision,events) := a.judge rest; (decision,rule.remarks a ++ events)
    | .allow => (.allowed,[])
    | .deny reason =>
      (.denied reason,[.entryDenied a.map a.participant.name rule.name reason])

end Attempt

namespace World

def attempt (w : World) (definition : MapDefinition) (participant : ParticipantState)
    (login : Bool) : Attempt where
  catalog := w.catalog
  config := w.config.admission
  copy? := w.find?
  definition := definition
  participant := participant
  login := login

def evaluate (w : World) (map : MapId) (participant : ParticipantState) (login : Bool) :
    Decision × List Event :=
  match w.catalog.definition? map with
  | none => (.denied .noEntry,[])
  | some d => (w.attempt d participant login).judge Rule.all

def judge (w : World) (map : MapId) (participant : ParticipantState) (login : Bool) :
    World × Decision :=
  let (decision,events) := w.evaluate map participant login
  (w.tell events,decision)

end World
end LiveMaps
