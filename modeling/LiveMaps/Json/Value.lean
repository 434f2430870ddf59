import LiveMaps.Number.Decimal

namespace LiveMaps

-- Numerals keep their written parts, members their order and their repetitions. `none` stands for a
-- string without a text, because of a lone surrogate or bytes that are no character.
inductive Json where
  | null
  | bool (value : Bool)
  | number (value : Number.Numeral)
  | string (value : Option String)
  | array (items : List Json)
  | object (members : List (Option String × Json))
  deriving Inhabited

namespace Json

def text (value : String) : Json := .string (some value)

def nat (value : Nat) : Json := .number (.ofNat value)

def record (members : List (String × Json)) : Json :=
  .object (members.map (fun member => (some member.1,member.2)))

end Json
end LiveMaps
