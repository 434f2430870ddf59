import LiveMaps.Json.Codec

namespace LiveMaps
open Number

structure WorldLocation where
  map : MapId
  x : Single
  y : Single
  z : Single
  deriving DecidableEq, Repr

namespace WorldLocation

def isFinite (l : WorldLocation) : Bool := l.x.isFinite && l.y.isFinite && l.z.isFinite

def memberNames : List String := ["map","position"]

def encode (l : WorldLocation) : Json :=
  Json.record
    [("map",Codec.mapId.encode l.map),("position",Codec.single.list.encode [l.x,l.y,l.z])]

def decode (document : Json) : Option WorldLocation := do
  let members ← Codec.members? memberNames document
  let map ← Codec.mapId.required "map" members
  match ← Codec.single.list.required "position" members with
  | [x,y,z] => return ⟨map,x,y,z⟩
  | _ => none

def codec : Codec WorldLocation := ⟨encode,decode⟩

end WorldLocation
end LiveMaps
