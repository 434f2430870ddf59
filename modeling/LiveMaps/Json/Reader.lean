import LiveMaps.Hex
import LiveMaps.Json.Value

namespace LiveMaps.Json
open Number

-- Characters, with `none` for each byte that belongs to no character.
abbrev Symbols := List (Option Char)

def symbols (text : String) : Symbols := text.toList.map some

def isBlank (symbol : Option Char) : Bool :=
  symbol == some ' ' || symbol == some '\n' || symbol == some '\t' || symbol == some '\r'

def skipBlanks (input : Symbols) : Symbols := input.dropWhile isBlank

def literal? (word : String) (input : Symbols) : Option Symbols :=
  let expected := symbols word
  if expected.isPrefixOf input then some (input.drop expected.length) else none

def digit? : Option Char → Option Nat
  | some c => if '0' ≤ c ∧ c ≤ '9' then some (c.toNat - 48) else none
  | none => none

def spanDigits : Symbols → List Nat × Symbols
  | [] => ([],[])
  | symbol :: rest =>
    match digit? symbol with
    | some d => let (digits,tail) := spanDigits rest; (d :: digits,tail)
    | none => ([],symbol :: rest)

def readWhole (input : Symbols) : Option (Nat × Symbols) :=
  match spanDigits input with
  | ([],_) => none
  | (0 :: _ :: _,_) => none
  | (digits,rest) => some (Decimal.ofDigits digits,rest)

def readFraction (input : Symbols) : Option (List Nat × Symbols) :=
  match input with
  | some '.' :: rest =>
    match spanDigits rest with
    | ([],_) => none
    | (digits,tail) => some (digits,tail)
  | _ => some ([],input)

def readSignedDigits (input : Symbols) : Option (Int × Symbols) :=
  let (negative,rest) := match input with
    | some '-' :: rest => (true,rest)
    | some '+' :: rest => (false,rest)
    | _ => (false,input)
  match spanDigits rest with
  | ([],_) => none
  | (digits,tail) =>
    let magnitude : Int := Decimal.ofDigits digits
    some (if negative then -magnitude else magnitude,tail)

def readExponent (input : Symbols) : Option (Option Int × Symbols) :=
  match input with
  | some 'e' :: rest => (readSignedDigits rest).map (fun (e,tail) => (some e,tail))
  | some 'E' :: rest => (readSignedDigits rest).map (fun (e,tail) => (some e,tail))
  | _ => some (none,input)

def readNumeral (input : Symbols) : Option (Numeral × Symbols) := do
  let (negative,rest) := match input with
    | some '-' :: rest => (true,rest)
    | _ => (false,input)
  let (whole,rest) ← readWhole rest
  let (fraction,rest) ← readFraction rest
  let (exponent,rest) ← readExponent rest
  return (⟨negative,whole,fraction,exponent⟩,rest)

inductive Piece where
  | char (c : Char)
  | unit (n : Nat)
  | stray
  deriving DecidableEq

def hexUnit? (a b c d : Option Char) : Option Nat := do
  Hex.ofDigits? [← a,← b,← c,← d]

def simpleEscape? : Option Char → Option Char
  | some '\x22' => some '\x22'
  | some '\x5c' => some '\x5c'
  | some '/' => some '/'
  | some 'b' => some '\x08'
  | some 'f' => some '\x0c'
  | some 'n' => some '\n'
  | some 'r' => some '\r'
  | some 't' => some '\t'
  | _ => none

def readPieces : Symbols → Option (List Piece × Symbols)
  | [] => none
  | none :: rest => (readPieces rest).map (fun (pieces,tail) => (.stray :: pieces,tail))
  | some c :: rest =>
    if c = '\x22' then some ([],rest)
    else if c = '\x5c' then
      match rest with
      | some 'u' :: a :: b :: c :: d :: rest => do
        let n ← hexUnit? a b c d
        let (pieces,tail) ← readPieces rest
        return (.unit n :: pieces,tail)
      | escape :: rest => do
        let c ← simpleEscape? escape
        let (pieces,tail) ← readPieces rest
        return (.char c :: pieces,tail)
      | [] => none
    else if c.toNat < 32 then none
    else (readPieces rest).map (fun (pieces,tail) => (.char c :: pieces,tail))

def isHighSurrogate (n : Nat) : Bool := 0xd800 ≤ n && n < 0xdc00

def isLowSurrogate (n : Nat) : Bool := 0xdc00 ≤ n && n < 0xe000

def pieceChars? : List Piece → Option (List Char)
  | [] => some []
  | .char c :: rest => (pieceChars? rest).map (c :: ·)
  | .stray :: _ => none
  | [.unit n] => if isHighSurrogate n || isLowSurrogate n then none else some [Char.ofNat n]
  | .unit n :: .unit m :: rest =>
    if isHighSurrogate n then
      if isLowSurrogate m then
        (pieceChars? rest).map (Char.ofNat (0x10000 + (n - 0xd800) * 0x400 + (m - 0xdc00)) :: ·)
      else none
    else if isLowSurrogate n then none
    else (pieceChars? (.unit m :: rest)).map (Char.ofNat n :: ·)
  | .unit n :: rest =>
    if isHighSurrogate n || isLowSurrogate n then none
    else (pieceChars? rest).map (Char.ofNat n :: ·)

def readString (input : Symbols) : Option (Option String × Symbols) :=
  (readPieces input).map (fun (pieces,rest) => ((pieceChars? pieces).map String.ofList,rest))

mutual
-- A value inside brackets stands two calls deeper and at least one symbol later,
-- so twice the length of the input bounds the depth and `read?` never runs short.
def readValue : Nat → Symbols → Option (Json × Symbols)
  | 0,_ => none
  | fuel+1,input =>
    match skipBlanks input with
    | some 'n' :: rest => (literal? "ull" rest).map (fun tail => (.null,tail))
    | some 't' :: rest => (literal? "rue" rest).map (fun tail => (.bool true,tail))
    | some 'f' :: rest => (literal? "alse" rest).map (fun tail => (.bool false,tail))
    | some '\x22' :: rest => (readString rest).map (fun (text,tail) => (.string text,tail))
    | some '[' :: rest =>
      match skipBlanks rest with
      | some ']' :: tail => some (.array [],tail)
      | _ => (readItems fuel rest).map (fun (items,tail) => (.array items,tail))
    | some '\x7b' :: rest =>
      match skipBlanks rest with
      | some '\x7d' :: tail => some (.object [],tail)
      | _ => (readMembers fuel rest).map (fun (members,tail) => (.object members,tail))
    | start => (readNumeral start).map (fun (n,tail) => (.number n,tail))

def readItems : Nat → Symbols → Option (List Json × Symbols)
  | 0,_ => none
  | fuel+1,input => do
    let (item,rest) ← readValue fuel input
    match skipBlanks rest with
    | some ',' :: rest =>
      let (items,tail) ← readItems fuel rest
      return (item :: items,tail)
    | some ']' :: tail => return ([item],tail)
    | _ => none

def readMembers : Nat → Symbols → Option (List (Option String × Json) × Symbols)
  | 0,_ => none
  | fuel+1,input =>
    match skipBlanks input with
    | some '\x22' :: rest => do
      let (key,rest) ← readString rest
      match skipBlanks rest with
      | some ':' :: rest =>
        let (value,rest) ← readValue fuel rest
        match skipBlanks rest with
        | some ',' :: rest =>
          let (members,tail) ← readMembers fuel rest
          return ((key,value) :: members,tail)
        | some '\x7d' :: tail => return ([(key,value)],tail)
        | _ => none
      | _ => none
    | _ => none
end

def read? (input : Symbols) : Option Json :=
  match readValue (2 * input.length + 1) input with
  | some (value,rest) => if skipBlanks rest = [] then some value else none
  | none => none

def readText? (text : String) : Option Json := read? (symbols text)

end LiveMaps.Json
