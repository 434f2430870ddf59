import LiveMaps.Json.Reader

namespace LiveMaps.CommandLine
open Number

def splitSign : List Char → Bool × List Char
  | '-' :: rest => (true,rest)
  | '+' :: rest => (false,rest)
  | chars => (false,chars)

def int? (text : String) : Option Int :=
  match Json.readSignedDigits (Json.symbols text) with
  | some (n,[]) => some n
  | _ => none

def intBelow? (bound : Nat) (text : String) : Option Nat :=
  match int? text with
  | some n => if 0 ≤ n ∧ n < bound then some n.toNat else none
  | none => none

def word? (text : String) : Option UInt32 := (intBelow? 0x100000000 text).map UInt32.ofNat

def count? (text : String) : Option UInt64 :=
  if text.toList.head? = some '-' then none else (intBelow? 0x10000000000000000 text).map UInt64.ofNat

-- What lies far outside the range of single precision is decided without the power of ten.
def singleOf (negative : Bool) (digits : Nat) (exponent : Int) : Single :=
  let places := (Decimal.digitsOf digits).length + exponent
  if digits = 0 ∨ places < -50 then Single.withSign negative 0
  else if 40 < places then Single.infinity negative
  else
    let (numerator,denominator) := Decimal.shift10 digits 1 exponent
    Single.ofRatio negative numerator denominator

def spanFraction : Json.Symbols → List Nat × Json.Symbols
  | some '.' :: rest => Json.spanDigits rest
  | rest => ([],rest)

def decimal? (negative : Bool) (input : Json.Symbols) : Option Single :=
  let (whole,rest) := Json.spanDigits input
  let (fraction,rest) := spanFraction rest
  if whole ++ fraction = [] then none else
  match Json.readExponent rest with
  | some (exponent,[]) =>
    some (singleOf negative (Decimal.ofDigits (whole ++ fraction))
      (exponent.getD 0 - fraction.length))
  | _ => none

def lowerCase (chars : List Char) : String := String.ofList (chars.map Char.toLower)

def single? (text : String) : Option Single :=
  let (negative,rest) := splitSign text.toList
  let word := lowerCase rest
  if word = "inf" ∨ word = "infinity" then some (.infinity negative)
  else if word = "nan" then some .nan
  else decimal? negative (rest.map some)

def decimalChars (d : Decimal) : List Char :=
  let digits := Numeral.natChars d.digits
  let point : Int := digits.length + d.exponent
  if 0 ≤ d.exponent then digits ++ List.replicate d.exponent.toNat '0'
  else if 0 < point then digits.take point.toNat ++ '.' :: digits.drop point.toNat
  else '0' :: '.' :: List.replicate (-point).toNat '0' ++ digits

def singleText (x : Single) : String :=
  if x.isNaN then "NaN"
  else
    (if x.isNegative then "-" else "") ++
      (if x.isFinite then String.ofList (decimalChars (Decimal.shortest .single .up x.magnitude))
        else "inf")

def fractionChars (digits : List Nat) : List Char :=
  match (digits.reverse.dropWhile (· == 0)).reverse with
  | [] => []
  | kept => '.' :: kept.map Numeral.digitChar

def inUnit (nanos places : Nat) (unit : String) : String :=
  String.ofList (Numeral.natChars (nanos / tenTo places) ++
    if places = 0 then [] else fractionChars (Decimal.padded places (nanos % tenTo places))) ++ unit

def durationText (nanos : Nat) : String :=
  if 1000000000 ≤ nanos then inUnit nanos 9 "s"
  else if 1000000 ≤ nanos then inUnit nanos 6 "ms"
  else if 1000 ≤ nanos then inUnit nanos 3 "µs"
  else inUnit nanos 0 "ns"

def padLeft (width : Nat) (text : String) : String :=
  String.ofList (List.replicate (width - text.length) ' ') ++ text

def padRight (width : Nat) (text : String) : String :=
  text ++ String.ofList (List.replicate (width - text.length) ' ')

end LiveMaps.CommandLine
