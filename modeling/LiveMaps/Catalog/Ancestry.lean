import LiveMaps.Ident

namespace LiveMaps.Ancestry

-- Every walk carries a bound on its steps. The callers take the number of maps that have a parent at all,
-- which no walk without repetition exceeds.
variable (parentOf : MapId → Option MapId)

def climb : Nat → MapId → Option MapId
  | 0,map => some map
  | n+1,map =>
    match parentOf map with
    | none => none
    | some parent => climb n parent

def chain : Nat → MapId → List MapId
  | 0,map => [map]
  | n+1,map =>
    match parentOf map with
    | none => [map]
    | some parent => map :: chain n parent

end LiveMaps.Ancestry
