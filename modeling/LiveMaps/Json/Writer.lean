import LiveMaps.Hex
import LiveMaps.Json.Value

namespace LiveMaps.Json
open Number

def escapeChar (c : Char) : List Char :=
  if c = '\x22' then ['\x5c','\x22']
  else if c = '\x5c' then ['\x5c','\x5c']
  else if c = '\x08' then ['\x5c','b']
  else if c = '\x0c' then ['\x5c','f']
  else if c = '\n' then ['\x5c','n']
  else if c = '\r' then ['\x5c','r']
  else if c = '\t' then ['\x5c','t']
  else if c.toNat < 32 then ['\x5c','u'] ++ Hex.digits 4 c.toNat
  else [c]

def quotedChars (text : List Char) : List Char :=
  '\x22' :: text.flatMap escapeChar ++ ['\x22']

def stringChars (text : Option String) : List Char :=
  quotedChars (text.getD "").toList

mutual
def chars : Json → List Char
  | .null => "null".toList
  | .bool true => "true".toList
  | .bool false => "false".toList
  | .number n => n.chars
  | .string text => stringChars text
  | .array items => '[' :: itemChars items ++ [']']
  | .object members => '\x7b' :: memberChars members ++ ['\x7d']

def itemChars : List Json → List Char
  | [] => []
  | [item] => chars item
  | item :: next :: rest => chars item ++ ',' :: itemChars (next :: rest)

def memberChars : List (Option String × Json) → List Char
  | [] => []
  | [(key,value)] => stringChars key ++ ':' :: chars value
  | (key,value) :: next :: rest =>
    stringChars key ++ ':' :: chars value ++ ',' :: memberChars (next :: rest)
end

def line (depth : Nat) : List Char := '\n' :: List.replicate (2 * depth) ' '

mutual
def prettyChars (depth : Nat) : Json → List Char
  | .array [] => ['[',']']
  | .array items => '[' :: prettyItems (depth + 1) items ++ line depth ++ [']']
  | .object [] => ['\x7b','\x7d']
  | .object members => '\x7b' :: prettyMembers (depth + 1) members ++ line depth ++ ['\x7d']
  | .null => "null".toList
  | .bool true => "true".toList
  | .bool false => "false".toList
  | .number n => n.chars
  | .string text => stringChars text

def prettyItems (depth : Nat) : List Json → List Char
  | [] => []
  | [item] => line depth ++ prettyChars depth item
  | item :: next :: rest =>
    line depth ++ prettyChars depth item ++ ',' :: prettyItems depth (next :: rest)

def prettyMembers (depth : Nat) : List (Option String × Json) → List Char
  | [] => []
  | [(key,value)] => line depth ++ stringChars key ++ [':',' '] ++ prettyChars depth value
  | (key,value) :: next :: rest =>
    line depth ++ stringChars key ++ [':',' '] ++ prettyChars depth value ++
      ',' :: prettyMembers depth (next :: rest)
end

def compact (value : Json) : String := String.ofList value.chars

def pretty (value : Json) : String := String.ofList (value.prettyChars 0)

end LiveMaps.Json
