import LiveMaps.Json.Codec

namespace LiveMaps

inductive Difficulty where
  | none
  | normal
  | heroic
  | mythic
  | raid10Normal
  | raid25Normal
  | raid10Heroic
  | raid25Heroic
  deriving DecidableEq, Repr, Inhabited

namespace Difficulty

def all : List Difficulty :=
  [.none,.normal,.heroic,.mythic,.raid10Normal,.raid25Normal,.raid10Heroic,.raid25Heroic]

def name : Difficulty → String
  | .none => "none"
  | .normal => "normal"
  | .heroic => "heroic"
  | .mythic => "mythic"
  | .raid10Normal => "raid10_normal"
  | .raid25Normal => "raid25_normal"
  | .raid10Heroic => "raid10_heroic"
  | .raid25Heroic => "raid25_heroic"

def label : Difficulty → String
  | .none => "None"
  | .normal => "Normal"
  | .heroic => "Heroic"
  | .mythic => "Mythic"
  | .raid10Normal => "Raid10Normal"
  | .raid25Normal => "Raid25Normal"
  | .raid10Heroic => "Raid10Heroic"
  | .raid25Heroic => "Raid25Heroic"

def fallback : Difficulty → Option Difficulty
  | .none => Option.none
  | .normal => Option.none
  | .raid10Normal => Option.none
  | .heroic => some .normal
  | .mythic => some .heroic
  | .raid25Normal => some .raid10Normal
  | .raid10Heroic => some .raid10Normal
  | .raid25Heroic => some .raid25Normal

-- How many steps down are left. Bounds every walk along `fallback`.
def rank : Difficulty → Nat
  | .none => 0
  | .normal => 0
  | .raid10Normal => 0
  | .heroic => 1
  | .raid25Normal => 1
  | .raid10Heroic => 1
  | .mythic => 2
  | .raid25Heroic => 2

def descend : Nat → Difficulty → List Difficulty
  | 0,d => [d]
  | fuel+1,d =>
    match d.fallback with
    | Option.none => [d]
    | some lower => d :: descend fuel lower

def descent (d : Difficulty) : List Difficulty := descend d.rank d

def codec : Codec Difficulty := Codec.choice all name

end Difficulty
end LiveMaps
