import LiveMaps.Number.Rounding

namespace LiveMaps.Number

-- Held as its bits: one of sign, eight of exponent, twenty-three of fraction.
structure Single where
  bits : UInt32
  deriving DecidableEq, Repr, Inhabited

namespace Single

def exponentField (x : Single) : Nat := x.bits.toNat / 0x800000 % 0x100

def fractionField (x : Single) : Nat := x.bits.toNat % 0x800000

def isNegative (x : Single) : Bool := 0x80000000 ≤ x.bits.toNat

def isFinite (x : Single) : Bool := x.exponentField < 255

def isNaN (x : Single) : Bool := x.exponentField == 255 && x.fractionField != 0

def magnitude (x : Single) : Binary :=
  if x.exponentField = 0 then ⟨x.fractionField,-149⟩
  else ⟨0x800000 + x.fractionField,x.exponentField - 150⟩

def toRat (x : Single) : Rat :=
  if x.isNegative then -x.magnitude.toRat else x.magnitude.toRat

def infinityField : Nat := 0x7f800000

def withSign (negative : Bool) (field : Nat) : Single :=
  ⟨UInt32.ofNat (field + if negative then 0x80000000 else 0)⟩

def infinity (negative : Bool) : Single := withSign negative infinityField

def nan : Single := withSign false (infinityField + 0x400000)

-- Adding the fields carries a significand of `2 ^ 24` into the exponent, and a
-- value past the largest finite one into infinity.
def ofBinary (negative : Bool) (b : Binary) : Single :=
  withSign negative (min infinityField (b.significand + (b.exponent + 149).toNat * 0x800000))

def ofRatio (negative : Bool) (numerator denominator : Nat) : Single :=
  ofBinary negative (Format.single.round numerator denominator)

end Single
end LiveMaps.Number
