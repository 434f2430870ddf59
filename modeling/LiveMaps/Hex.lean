namespace LiveMaps.Hex

def digit (n : Nat) : Char :=
  if n < 10 then Char.ofNat (48 + n) else Char.ofNat (87 + n)

def value? (c : Char) : Option Nat :=
  if '0' ≤ c ∧ c ≤ '9' then some (c.toNat - 48)
  else if 'a' ≤ c ∧ c ≤ 'f' then some (c.toNat - 87)
  else if 'A' ≤ c ∧ c ≤ 'F' then some (c.toNat - 55)
  else none

def digits : Nat → Nat → List Char
  | 0,_ => []
  | count+1,n => digits count (n / 16) ++ [digit (n % 16)]

def ofDigits? (chars : List Char) : Option Nat :=
  chars.foldlM (fun total c => (value? c).map (16 * total + ·)) 0

def bytes? : List Char → Option (List UInt8)
  | [] => some []
  | a :: b :: rest => do
    let byte ← ofDigits? [a,b]
    return UInt8.ofNat byte :: (← bytes? rest)
  | _ => none

end LiveMaps.Hex
