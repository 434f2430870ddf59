import LiveMaps.Number.Natural

namespace LiveMaps.Number

-- A format of binary fractions: significands below `2 ^ precision`, and no unit
-- in the last place finer than `2 ^ minExponent`. Range is checked by callers.
structure Format where
  precision : Nat
  minExponent : Int
  deriving DecidableEq, Repr

def Format.double : Format := ⟨53,-1074⟩
def Format.single : Format := ⟨24,-149⟩

-- `significand * 2 ^ exponent`
structure Binary where
  significand : Nat
  exponent : Int
  deriving DecidableEq, Repr

def scale (numerator denominator : Nat) (shift : Int) : Nat × Nat :=
  if 0 ≤ shift then (numerator * twoTo shift.toNat,denominator)
  else (numerator,denominator * twoTo (-shift).toNat)

inductive Tie where
  | even
  | up
  deriving DecidableEq, Repr

def Tie.choose (tie : Tie) (below : Nat) : Nat :=
  match tie with
  | .even => below + below % 2
  | .up => below + 1

def nearestEven (numerator denominator : Nat) : Nat :=
  let whole := numerator / denominator
  let rest := 2 * (numerator % denominator)
  if rest < denominator then whole
  else if rest = denominator then whole + whole % 2
  else whole + 1

-- The greatest `e` with `2 ^ e ≤ numerator / denominator`, for positive arguments.
def magnitude (numerator denominator : Nat) : Int :=
  let guess : Int := numerator.log2 - denominator.log2
  let (n,d) := scale numerator denominator (-guess)
  if d ≤ n then guess else guess - 1

-- The significand may come out as `2 ^ precision` itself, which denotes the right value.
def Format.round (format : Format) (numerator denominator : Nat) : Binary :=
  if numerator = 0 then ⟨0,format.minExponent⟩ else
  let exponent := max (magnitude numerator denominator - (format.precision - 1)) format.minExponent
  let (n,d) := scale numerator denominator (-exponent)
  ⟨nearestEven n d,exponent⟩

def Format.carried (format : Format) (b : Binary) : Binary :=
  if b.significand = twoTo format.precision then ⟨b.significand / 2,b.exponent + 1⟩ else b

def Format.isNarrow (format : Format) (b : Binary) : Bool :=
  b.significand = twoTo (format.precision - 1) && format.minExponent < b.exponent

def Format.digits (format : Format) : Nat := format.precision * 30103 / 100000 + 2

namespace Binary

def numerator (b : Binary) : Nat := b.significand * twoTo b.exponent.toNat

def denominator (b : Binary) : Nat := twoTo (-b.exponent).toNat

def toRat (b : Binary) : Rat := (b.numerator : Rat) / (b.denominator : Rat)

end Binary

def Format.roundRat (format : Format) (value : Rat) : Rat :=
  let rounded := (format.round value.num.natAbs value.den).toRat
  if value < 0 then -rounded else rounded

end LiveMaps.Number
