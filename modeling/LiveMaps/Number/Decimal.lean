import LiveMaps.Number.Single

namespace LiveMaps.Number

-- `digits * 10 ^ exponent`
structure Decimal where
  digits : Nat
  exponent : Int
  deriving DecidableEq, Repr

namespace Decimal

def digitsOf (n : Nat) : List Nat :=
  if n < 10 then [n] else digitsOf (n / 10) ++ [n % 10]
termination_by n
decreasing_by omega

def ofDigits (digits : List Nat) : Nat := digits.foldl (fun total d => 10 * total + d) 0

def padded (width n : Nat) : List Nat :=
  List.replicate (width - (digitsOf n).length) 0 ++ digitsOf n

def shift10 (numerator denominator : Nat) (shift : Int) : Nat × Nat :=
  if 0 ≤ shift then (numerator * tenTo shift.toNat,denominator)
  else (numerator,denominator * tenTo (-shift).toNat)

def normal : Nat → Decimal → Decimal
  | 0,d => d
  | fuel+1,d =>
    if d.digits ≠ 0 ∧ d.digits % 10 = 0 then normal fuel ⟨d.digits / 10,d.exponent + 1⟩ else d

-- A value with the ends of the interval of reals that round to it, all three as
-- multiples of `1 / unit`. The ends belong to it when `closed` is set.
structure Target where
  lower : Nat
  value : Nat
  upper : Nat
  unit : Nat
  closed : Bool
  deriving DecidableEq, Repr

namespace Target

def contains (t : Target) (n d : Nat) : Bool :=
  if t.closed then t.lower * d ≤ n * t.unit && n * t.unit ≤ t.upper * d
  else t.lower * d < n * t.unit && n * t.unit < t.upper * d

-- On the grid of step `10 ^ exponent` only the two neighbours of the value can
-- be nearest; of two that lie inside, the nearer wins.
def onGrid (t : Target) (tie : Tie) (exponent : Int) : Option Decimal :=
  let (n,d) := shift10 t.value t.unit (-exponent)
  let below := n / d
  let rest := 2 * (n % d)
  let inside (k : Nat) : Bool := let (a,b) := shift10 k 1 exponent; t.contains a b
  let nearer := if rest < d then below else if rest = d then tie.choose below else below + 1
  let other := if nearer = below then below + 1 else below
  if inside nearer then some ⟨nearer,exponent⟩
  else if inside other then some ⟨other,exponent⟩
  else none

-- The least power of ten above the value, looked for near the one that the binary magnitude tells.
def topExponent (t : Target) : Int :=
  let guess := magnitude t.value t.unit * 30103 / 100000
  let above (k : Nat) : Bool := let (n,d) := shift10 1 1 (guess + k - 1); t.value * d < n * t.unit
  guess + (((List.range 5).find? above).getD 5 : Nat) - 1

end Target

def target (format : Format) (b : Binary) : Target :=
  let (scaleUp,unit) := scale 1 1 (b.exponent - 2)
  ⟨(4 * b.significand - if format.isNarrow b then 1 else 2) * scaleUp,
    4 * b.significand * scaleUp,(4 * b.significand + 2) * scaleUp,unit,b.significand % 2 == 0⟩

def shortest (format : Format) (tie : Tie) (b : Binary) : Decimal :=
  if b.significand = 0 then ⟨0,0⟩ else
  let t := target format (format.carried b)
  let top := t.topExponent
  match (List.range format.digits).findSome? (fun (n : Nat) => t.onGrid tie (top - ((n : Int) + 1))) with
  | some d => normal format.digits d
  | none => ⟨0,0⟩

end Decimal

-- The whole part has no leading zero, so its value determines its digits.
structure Numeral where
  negative : Bool
  whole : Nat
  fraction : List Nat
  exponent : Option Int
  deriving DecidableEq, Repr

namespace Numeral

def ofNat (n : Nat) : Numeral := ⟨false,n,[],none⟩

def digitChar (d : Nat) : Char := Char.ofNat (48 + d)

def natChars (n : Nat) : List Char := (Decimal.digitsOf n).map digitChar

def signedChars (n : Int) : List Char := (if n < 0 then '-' else '+') :: natChars n.natAbs

def chars (n : Numeral) : List Char :=
  (if n.negative then ['-'] else []) ++ natChars n.whole ++
    (if n.fraction = [] then [] else '.' :: n.fraction.map digitChar) ++
    (match n.exponent with
      | none => []
      | some e => 'e' :: signedChars e)

structure Layout where
  mostDigits : Nat
  mostZeros : Nat
  deriving DecidableEq, Repr

def Layout.single : Layout := ⟨13,5⟩

def ofDecimal (layout : Layout) (negative : Bool) (d : Decimal) : Numeral :=
  let digits := Decimal.digitsOf d.digits
  let point := digits.length + d.exponent
  if d.digits = 0 then ⟨negative,0,[0],none⟩
  else if 0 ≤ d.exponent ∧ point ≤ layout.mostDigits then
    ⟨negative,d.digits * tenTo d.exponent.toNat,[0],none⟩
  else if 0 < point ∧ point ≤ layout.mostDigits then
    ⟨negative,Decimal.ofDigits (digits.take point.toNat),digits.drop point.toNat,none⟩
  else if point ≤ 0 ∧ -point ≤ layout.mostZeros then
    ⟨negative,0,List.replicate (-point).toNat 0 ++ digits,none⟩
  else ⟨negative,Decimal.ofDigits (digits.take 1),digits.drop 1,some (point - 1)⟩

def ofSingle (x : Single) : Numeral :=
  ofDecimal .single x.isNegative (Decimal.shortest .single .even x.magnitude)

def wordLimit : Nat := 0x10000000000000000

def fits (digits : List Nat) : Nat → Nat × List Nat := fun start =>
  match digits with
  | [] => (start,[])
  | d :: rest => if 10 * start + d < wordLimit then fits rest (10 * start + d) else (start,digits)

-- Whole digits past the limit count as powers of ten; fraction digits past it are dropped.
def parts (n : Numeral) : Nat × Int :=
  let (whole,skipped) := fits (Decimal.digitsOf n.whole) 0
  let (significand,dropped) := fits n.fraction whole
  (significand,(skipped.length : Int) - (n.fraction.length - dropped.length) + n.exponent.getD 0)

def doubleLimit : Nat := twoTo 1024

-- `none` past the largest double.
def double? (significand : Nat) (exponent : Int) : Option Binary :=
  let start := Format.double.round significand 1
  let power (k : Nat) := Format.double.round (tenTo k) 1
  let divided (b : Binary) (k : Nat) :=
    Format.double.round (b.numerator * (power k).denominator) (b.denominator * (power k).numerator)
  if 0 ≤ exponent then
    if exponent ≤ 308 then
      let p := power exponent.toNat
      let result := Format.double.round (start.numerator * p.numerator) (start.denominator * p.denominator)
      if result.numerator < doubleLimit * result.denominator then some result else none
    else if significand = 0 then some start else none
  else if -308 ≤ exponent then some (divided start (-exponent).toNat)
  else if -616 ≤ exponent then some (divided (divided start 308) (-exponent - 308).toNat)
  else some ⟨0,-1074⟩

def isWord (n : Numeral) : Bool :=
  n.fraction = [] && n.exponent = none &&
    (if n.negative then 0 < n.whole && n.whole ≤ 0x8000000000000000 else n.whole < wordLimit)

def single? (n : Numeral) : Option Single :=
  if n.isWord then some (Single.ofRatio n.negative n.whole 1)
  else
    let (significand,exponent) := n.parts
    (double? significand exponent).map (fun b => Single.ofRatio n.negative b.numerator b.denominator)

def natBelow? (bound : Nat) (n : Numeral) : Option Nat :=
  if n.negative ∨ n.fraction ≠ [] ∨ n.exponent ≠ none then none
  else if n.whole < bound then some n.whole else none

end Numeral
end LiveMaps.Number
