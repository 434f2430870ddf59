import LiveMaps.Hex

namespace LiveMaps

structure MapId where
  number : UInt32
  deriving DecidableEq, Repr, Inhabited

-- Zero is carried by every base map and is never handed out for a copy.
structure InstanceId where
  number : UInt32
  deriving DecidableEq, Repr, Inhabited

structure ParticipantId where
  value : BitVec 128
  deriving DecidableEq, Repr, Inhabited

namespace MapId

def order (map : MapId) : Nat := map.number.toNat

theorem order_inj {x y : MapId} : x.order = y.order ↔ x = y := by
  cases x; cases y; simp [order,UInt32.toNat_inj]

def text (map : MapId) : String := toString map.order

end MapId

namespace InstanceId

def base : InstanceId := ⟨0⟩

def isBase (id : InstanceId) : Bool := id == base

def order (id : InstanceId) : Nat := id.number.toNat

theorem order_inj {x y : InstanceId} : x.order = y.order ↔ x = y := by
  cases x; cases y; simp [order,UInt32.toNat_inj]

def ofNat (n : Nat) : InstanceId := ⟨UInt32.ofNat n⟩

def text (id : InstanceId) : String := toString id.order

end InstanceId

namespace ParticipantId

def nil : ParticipantId := ⟨0⟩

def ofNat (n : Nat) : ParticipantId := ⟨BitVec.ofNat 128 n⟩

def order (id : ParticipantId) : Nat := id.value.toNat

theorem order_inj {x y : ParticipantId} : x.order = y.order ↔ x = y := by
  cases x; cases y; simp [order,BitVec.toNat_inj]

def groups : List Nat := [8,4,4,4,12]

def hyphenate : List Nat → List Char → List Char
  | [],_ => []
  | [size],digits => digits.take size
  | size :: rest,digits => digits.take size ++ '-' :: hyphenate rest (digits.drop size)

def unhyphenate : List Nat → List Char → Option (List Char)
  | [],chars => if chars = [] then some [] else none
  | [size],chars => if chars.length = size then some chars else none
  | size :: rest,chars =>
    match chars.drop size with
    | '-' :: tail => (unhyphenate rest tail).map (chars.take size ++ ·)
    | _ => none

def text (id : ParticipantId) : String := String.ofList (hyphenate groups (Hex.digits 32 id.order))

def ofText? (text : String) : Option ParticipantId := do
  let chars := text.toList
  let digits ←
    if chars.length = 32 then some chars
    else if chars.length = 36 then unhyphenate groups chars
    else if chars.length = 38 then
      if chars.head? = some '\x7b' ∧ chars.getLast? = some '\x7d' then
        unhyphenate groups (chars.drop 1).dropLast
      else none
    else if chars.length = 45 then
      if (chars.take 9).map Char.toLower = "urn:uuid:".toList then unhyphenate groups (chars.drop 9) else none
    else none
  let value ← Hex.ofDigits? digits
  return ofNat value

end ParticipantId
end LiveMaps
