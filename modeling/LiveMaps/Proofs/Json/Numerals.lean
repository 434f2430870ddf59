import LiveMaps.Json.Reader
import LiveMaps.Json.Writer

namespace LiveMaps

namespace Number.Decimal

theorem digitsOf_small (n : Nat) : ∀ d ∈ digitsOf n, d < 10 := by
  induction n using digitsOf.induct with
  | case1 n small =>
    rw [digitsOf,if_pos small]
    simpa using small
  | case2 n large ih =>
    rw [digitsOf,if_neg large]
    intro d member
    rcases List.mem_append.mp member with earlier | last
    · exact ih d earlier
    · rw [List.mem_singleton.mp last]
      omega

theorem ofDigits_digitsOf (n : Nat) : ofDigits (digitsOf n) = n := by
  induction n using digitsOf.induct with
  | case1 n small =>
    rw [digitsOf,if_pos small]
    simp [ofDigits]
  | case2 n large ih =>
    rw [digitsOf,if_neg large]
    unfold ofDigits at ih ⊢
    rw [List.foldl_append,ih,List.foldl_cons,List.foldl_nil]
    omega

theorem digitsOf_head (n : Nat) : ∃ first rest, digitsOf n = first :: rest ∧ (first = 0 → n = 0 ∧ rest = []) := by
  induction n using digitsOf.induct with
  | case1 n small =>
    rw [digitsOf,if_pos small]
    exact ⟨n,[],rfl,fun zero => ⟨zero,rfl⟩⟩
  | case2 n large ih =>
    obtain ⟨first,rest,digits,leading⟩ := ih
    rw [digitsOf,if_neg large,digits]
    refine ⟨first,rest ++ [n % 10],rfl,fun zero => ?_⟩
    have := (leading zero).1
    omega

end Number.Decimal

namespace Json
open Number
variable {digits : List Nat} {rest : Symbols} {n : Numeral}

-- What may stand behind a numeral without being read as a part of it.
def EndsNumeral (rest : Symbols) : Prop :=
  ∀ symbol ∈ rest.head?, digit? symbol = none ∧ symbol ≠ some '.' ∧ symbol ≠ some 'e' ∧ symbol ≠ some 'E'

def written (chars : List Char) : Symbols := chars.map some

@[simp] theorem written_nil : written [] = [] := rfl

@[simp] theorem written_cons (c : Char) (chars : List Char) :
    written (c :: chars) = some c :: written chars := rfl

@[simp] theorem written_append (one two : List Char) :
    written (one ++ two) = written one ++ written two := List.map_append

theorem digit?_digitChar : ∀ d < 10, digit? (some (Numeral.digitChar d)) = some d := by decide

-- What may stand behind digits without being read as one of them.
def EndsDigits (rest : Symbols) : Prop := ∀ symbol ∈ rest.head?, digit? symbol = none

theorem EndsNumeral.endsDigits (ends : EndsNumeral rest) : EndsDigits rest :=
  fun symbol first => (ends symbol first).1

theorem endsDigits_cons {c : Char} (other : digit? (some c) = none) : EndsDigits (some c :: rest) := by
  rintro symbol first
  cases first
  exact other

theorem spanDigits_end (ends : EndsDigits rest) : spanDigits rest = ([],rest) := by
  cases rest with
  | nil => rfl
  | cons symbol rest => simp [spanDigits,ends symbol rfl]

theorem spanDigits_written (small : ∀ d ∈ digits, d < 10) (ends : EndsDigits rest) :
    spanDigits (written (digits.map Numeral.digitChar) ++ rest) = (digits,rest) := by
  induction digits with
  | nil => exact spanDigits_end ends
  | cons d digits ih =>
    have first := digit?_digitChar d (small d List.mem_cons_self)
    have later := ih fun d member => small d (List.mem_cons_of_mem _ member)
    simp [spanDigits,first,later]

theorem readWhole_written (whole : Nat) (ends : EndsDigits rest) :
    readWhole (written (Numeral.natChars whole) ++ rest) = some (whole,rest) := by
  have span := spanDigits_written (Decimal.digitsOf_small whole) ends
  obtain ⟨first,more,digits,leading⟩ := Decimal.digitsOf_head whole
  have value := Decimal.ofDigits_digitsOf whole
  unfold readWhole Numeral.natChars
  rw [span]
  rw [digits] at value ⊢
  split
  · simp_all
  · rename_i zero
    simp at zero
    simp_all
  · simp_all

theorem readFraction_none (ends : ∀ symbol ∈ rest.head?, symbol ≠ some '.') :
    readFraction rest = some ([],rest) := by
  unfold readFraction
  split
  · rename_i found
    exact absurd rfl (ends _ rfl)
  · rfl

theorem readFraction_written (some_digits : digits ≠ []) (small : ∀ d ∈ digits, d < 10) (ends : EndsDigits rest) :
    readFraction (some '.' :: (written (digits.map Numeral.digitChar) ++ rest)) = some (digits,rest) := by
  unfold readFraction
  cases digits with
  | nil => exact absurd rfl some_digits
  | cons first more => simp only [spanDigits_written small ends]

theorem readSignedDigits_written (e : Int) (ends : EndsDigits rest) :
    readSignedDigits (written (Numeral.signedChars e) ++ rest) = some (e,rest) := by
  have span := spanDigits_written (Decimal.digitsOf_small e.natAbs) ends
  obtain ⟨first,more,digits,_⟩ := Decimal.digitsOf_head e.natAbs
  have value := Decimal.ofDigits_digitsOf e.natAbs
  unfold readSignedDigits Numeral.signedChars Numeral.natChars
  rw [digits] at span value
  by_cases negative : e < 0
  · have magnitude : -(e.natAbs : Int) = e := by omega
    simp only [digits,negative,if_true,written_cons,List.cons_append,span,value,magnitude]
  · have magnitude : (e.natAbs : Int) = e := by omega
    simp only [digits,negative,if_false,written_cons,List.cons_append,span,value,magnitude,
      Bool.false_eq_true]

theorem readExponent_none (ends : EndsNumeral rest) : readExponent rest = some (none,rest) := by
  unfold readExponent
  split
  · exact absurd rfl (ends _ rfl).2.2.1
  · exact absurd rfl (ends _ rfl).2.2.2
  · rfl

def IsDecimal (n : Numeral) : Prop := ∀ d ∈ n.fraction, d < 10

def exponentChars : Option Int → List Char
  | none => []
  | some e => 'e' :: Numeral.signedChars e

theorem readExponent_written (exponent : Option Int) (ends : EndsNumeral rest) :
    readExponent (written (exponentChars exponent) ++ rest) = some (exponent,rest) := by
  cases exponent with
  | none => exact readExponent_none ends
  | some e => simp [exponentChars,readExponent,readSignedDigits_written e ends.endsDigits]

theorem exponent_ends (exponent : Option Int) (ends : EndsNumeral rest) :
    EndsDigits (written (exponentChars exponent) ++ rest) ∧
      ∀ symbol ∈ (written (exponentChars exponent) ++ rest).head?, symbol ≠ some '.' := by
  cases exponent with
  | none => exact ⟨ends.endsDigits,fun symbol first => (ends symbol first).2.1⟩
  | some e => exact ⟨endsDigits_cons (by decide),fun symbol first => by cases first; decide⟩

def fractionChars (fraction : List Nat) : List Char :=
  if fraction = [] then [] else '.' :: fraction.map Numeral.digitChar

theorem readFraction_chars (small : ∀ d ∈ digits, d < 10) (ends : EndsDigits rest)
    (pointless : ∀ symbol ∈ rest.head?, symbol ≠ some '.') :
    readFraction (written (fractionChars digits) ++ rest) = some (digits,rest) := by
  unfold fractionChars
  split
  · rename_i none
    subst none
    exact readFraction_none pointless
  · rename_i proper
    exact readFraction_written proper small ends

theorem fraction_ends (digits : List Nat) (ends : EndsDigits rest) :
    EndsDigits (written (fractionChars digits) ++ rest) := by
  unfold fractionChars
  split
  · exact ends
  · exact endsDigits_cons (by decide)

theorem chars_eq (n : Numeral) : n.chars = (if n.negative then ['-'] else []) ++ Numeral.natChars n.whole ++
    fractionChars n.fraction ++ exponentChars n.exponent := by
  cases n with
  | mk negative whole fraction exponent => cases exponent <;> rfl

theorem natChars_first (whole : Nat) : ∃ d < 10, ∃ chars, Numeral.natChars whole = Numeral.digitChar d :: chars := by
  obtain ⟨first,more,digits,_⟩ := Decimal.digitsOf_head whole
  refine ⟨first,Decimal.digitsOf_small whole first (digits ▸ List.mem_cons_self),
    more.map Numeral.digitChar,?_⟩
  rw [Numeral.natChars,digits]
  rfl

theorem digitChar_ne : ∀ d < 10, Numeral.digitChar d ≠ '-' := by decide

theorem readNumeral_written (decimal : IsDecimal n) (ends : EndsNumeral rest) :
    readNumeral (written n.chars ++ rest) = some (n,rest) := by
  obtain ⟨ended,pointless⟩ := exponent_ends n.exponent ends
  have exponent := readExponent_written n.exponent ends
  have fraction := readFraction_chars decimal ended pointless
  have whole := readWhole_written n.whole (fraction_ends n.fraction ended)
  obtain ⟨d,small,chars,first⟩ := natChars_first n.whole
  have unsigned : Numeral.digitChar d ≠ '-' := digitChar_ne d small
  rw [chars_eq]
  obtain ⟨negative,integer,digits,power⟩ := n
  cases negative with
  | true => simp [readNumeral,whole,fraction,exponent]
  | false =>
    dsimp only at whole first
    simp only [readNumeral,Bool.false_eq_true,if_false,List.nil_append,written_append,List.append_assoc]
    split
    · rename_i minus
      rw [first,written_cons,List.cons_append] at minus
      exact absurd (Option.some.inj (List.cons.inj minus).1) unsigned
    · simp [whole,fraction,exponent]

theorem ofNat_decimal (n : Nat) : IsDecimal (.ofNat n) := by
  intro d none
  cases none

theorem ofDecimal_decimal (layout : Numeral.Layout) (negative : Bool) (d : Decimal) :
    IsDecimal (.ofDecimal layout negative d) := by
  have small := Decimal.digitsOf_small d.digits
  have zero : ∀ digit ∈ [0], digit < 10 := by decide
  unfold IsDecimal Numeral.ofDecimal
  dsimp only
  split
  · exact zero
  · split
    · exact zero
    · split
      · exact fun digit member => small digit (List.mem_of_mem_drop member)
      · split
        · intro digit member
          rcases List.mem_append.mp member with padding | own
          · rw [List.eq_of_mem_replicate padding]
            decide
          · exact small digit own
        · exact fun digit member => small digit (List.mem_of_mem_drop member)

theorem ofSingle_decimal (x : Single) : IsDecimal (.ofSingle x) :=
  ofDecimal_decimal .single x.isNegative _

end Json
end LiveMaps
