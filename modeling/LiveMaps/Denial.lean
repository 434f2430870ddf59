import LiveMaps.Json.Codec

namespace LiveMaps

inductive Denial where
  | noEntry
  | uninstancedDungeon
  | difficultyUnavailable
  | unspecifiedReason
  | notInRaid
  | corpseInDifferentInstance
  | tooManyInstances
  | maxPlayers
  | zoneInCombat
  | instanceBindMismatch
  deriving DecidableEq, Repr

namespace Denial

def all : List Denial :=
  [.noEntry,.uninstancedDungeon,.difficultyUnavailable,.unspecifiedReason,.notInRaid,
    .corpseInDifferentInstance,.tooManyInstances,.maxPlayers,.zoneInCombat,.instanceBindMismatch]

def name : Denial → String
  | .noEntry => "no_entry"
  | .uninstancedDungeon => "uninstanced_dungeon"
  | .difficultyUnavailable => "difficulty_unavailable"
  | .unspecifiedReason => "unspecified_reason"
  | .notInRaid => "not_in_raid"
  | .corpseInDifferentInstance => "corpse_in_different_instance"
  | .tooManyInstances => "too_many_instances"
  | .maxPlayers => "max_players"
  | .zoneInCombat => "zone_in_combat"
  | .instanceBindMismatch => "instance_bind_mismatch"

def message : Denial → String
  | .noEntry => "no such map"
  | .uninstancedDungeon => "dungeon has no instance template"
  | .difficultyUnavailable => "requested difficulty unavailable"
  | .unspecifiedReason => "entry denied"
  | .notInRaid => "must be in a raid group"
  | .corpseInDifferentInstance => "corpse is in a different instance"
  | .tooManyInstances => "too many instances entered recently"
  | .maxPlayers => "instance is full"
  | .zoneInCombat => "encounter in progress"
  | .instanceBindMismatch => "bound to a different instance"

def codec : Codec Denial := Codec.choice all name

end Denial

inductive Decision where
  | allowed
  | denied (reason : Denial)
  deriving DecidableEq, Repr

namespace Decision

def ofDenial? : Option Denial → Decision
  | none => .allowed
  | some reason => .denied reason

def denial? : Decision → Option Denial
  | .allowed => none
  | .denied reason => some reason

def encode : Decision → Json
  | .allowed => Json.text "Allowed"
  | .denied reason => Json.record [("Denied",Denial.codec.encode reason)]

def decode : Json → Option Decision
  | .string (some "Allowed") => some .allowed
  | .object [(some "Allowed",.null)] => some .allowed
  | .object [(some "Denied",reason)] => (Denial.codec.decode reason).map .denied
  | _ => none

def codec : Codec Decision := ⟨encode,decode⟩

end Decision
end LiveMaps
