import LiveMaps.Json.Reader

namespace LiveMaps

-- Characters of a file, with `none` for each byte that belongs to no character.
abbrev Content := Json.Symbols

namespace Content

def text? (content : Content) : Option String := (content.mapM id).map String.ofList

def isTail (b : Nat) : Bool := 0x80 ≤ b && b < 0xc0

def headChar? : List Nat → Option (Char × Nat)
  | a :: rest =>
    if a < 0x80 then some (Char.ofNat a,1)
    else match rest with
      | b :: rest =>
        if 0xc2 ≤ a ∧ a < 0xe0 ∧ isTail b then some (Char.ofNat ((a - 0xc0) * 64 + (b - 0x80)),2)
        else match rest with
          | c :: rest =>
            let three := (a - 0xe0) * 4096 + (b - 0x80) * 64 + (c - 0x80)
            if 0xe0 ≤ a ∧ a < 0xf0 ∧ isTail b ∧ isTail c ∧ 0x800 ≤ three ∧ ¬(0xd800 ≤ three ∧ three < 0xe000)
            then some (Char.ofNat three,3)
            else match rest with
              | d :: _ =>
                let four := (a - 0xf0) * 262144 + (b - 0x80) * 4096 + (c - 0x80) * 64 + (d - 0x80)
                if 0xf0 ≤ a ∧ isTail b ∧ isTail c ∧ isTail d ∧ 0x10000 ≤ four ∧ four < 0x110000
                then some (Char.ofNat four,4) else none
              | [] => none
          | [] => none
      | [] => none
  | [] => none

-- `pending` bytes belong to the character before them.
def ofByteList (pending : Nat) : List Nat → Content
  | [] => []
  | b :: rest =>
    match pending with
    | n+1 => ofByteList n rest
    | 0 =>
      match headChar? (b :: rest) with
      | some (c,size) => some c :: ofByteList (size - 1) rest
      | none => none :: ofByteList 0 rest

def ofBytes (bytes : List UInt8) : Content := ofByteList 0 (bytes.map UInt8.toNat)

end Content

end LiveMaps
