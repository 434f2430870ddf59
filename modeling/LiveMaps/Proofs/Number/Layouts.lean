import LiveMaps.Proofs.Number.Values

namespace LiveMaps.Number.Numeral
open Decimal

theorem le_foldl_digits (digits : List Nat) (start : Nat) :
    start ≤ digits.foldl (fun total d => 10 * total + d) start := by
  induction digits generalizing start with
  | nil => exact le_refl _
  | cons d rest ih =>
    rw [List.foldl_cons]
    have later := ih (10 * start + d)
    omega

theorem fits_all {digits : List Nat} {start : Nat}
    (word : digits.foldl (fun total d => 10 * total + d) start < wordLimit) :
    fits digits start = (digits.foldl (fun total d => 10 * total + d) start,[]) := by
  induction digits generalizing start with
  | nil => rfl
  | cons d rest ih =>
    rw [List.foldl_cons] at word ⊢
    have room := (le_foldl_digits rest (10 * start + d)).trans_lt word
    rw [fits,if_pos room,ih word]

theorem parts_eq {n : Numeral} (word : n.fraction.foldl (fun total d => 10 * total + d) n.whole < wordLimit) :
    n.parts = (n.fraction.foldl (fun total d => 10 * total + d) n.whole,n.exponent.getD 0 - n.fraction.length) := by
  have value : (digitsOf n.whole).foldl (fun total d => 10 * total + d) 0 = n.whole := ofDigits_digitsOf n.whole
  have whole : fits (digitsOf n.whole) 0 = (n.whole,[]) := by
    have own : fits (digitsOf n.whole) 0 = _ := fits_all (by rw [value]; exact (le_foldl_digits _ _).trans_lt word)
    rwa [value] at own
  simp only [parts,whole,fits_all word,List.length_nil,Prod.mk.injEq,true_and]
  omega

theorem ofDecimal_negative (layout : Layout) (negative : Bool) (d : Decimal) :
    (ofDecimal layout negative d).negative = negative := by
  unfold ofDecimal
  dsimp only
  repeat' split
  all_goals rfl

theorem ofDecimal_parts (layout : Layout) (negative : Bool) {d : Decimal} (nonzero : d.digits ≠ 0)
    (short : d.digits < wordLimit) (room : 10 ^ (layout.mostDigits + 1) ≤ wordLimit) :
    (ofDecimal layout negative d).isWord = false ∧
      ((ofDecimal layout negative d).parts = (d.digits,d.exponent) ∨
        0 ≤ d.exponent ∧ d.digits * 10 ^ d.exponent.toNat < 10 ^ layout.mostDigits ∧
          (ofDecimal layout negative d).parts = (d.digits * 10 ^ d.exponent.toNat * 10,-1)) := by
  have digits := ofDigits_digitsOf d.digits
  have long := digitsOf_length_pos d.digits
  have below := lt_pow_length nonzero
  have cut (k : Nat) : ((digitsOf d.digits).drop k).foldl (fun total d => 10 * total + d)
      (ofDigits ((digitsOf d.digits).take k)) = d.digits := by
    rw [ofDigits,←List.foldl_append,List.take_append_drop]
    exact digits
  unfold ofDecimal
  dsimp only
  rw [if_neg nonzero]
  split
  · rename_i whole
    have fits : d.digits * 10 ^ d.exponent.toNat < 10 ^ layout.mostDigits := by
      calc d.digits * 10 ^ d.exponent.toNat < 10 ^ (digitsOf d.digits).length * 10 ^ d.exponent.toNat :=
            Nat.mul_lt_mul_of_pos_right below (Nat.pow_pos (by decide))
        _ = 10 ^ ((digitsOf d.digits).length + d.exponent.toNat) := (Nat.pow_add ..).symm
        _ ≤ 10 ^ layout.mostDigits := Nat.pow_le_pow_right (by decide) (by omega)
    refine ⟨rfl,.inr ⟨whole.1,fits,?_⟩⟩
    rw [parts_eq]
    · simp only [List.foldl_cons,List.foldl_nil,List.length_singleton,Option.getD_none,Prod.mk.injEq]
      exact ⟨Nat.mul_comm ..,rfl⟩
    · rw [Nat.pow_succ] at room
      simp only [List.foldl_cons,List.foldl_nil]
      change 10 * (d.digits * 10 ^ d.exponent.toNat) + 0 < wordLimit
      omega
  · rename_i fractional
    split
    · rename_i mixed
      have left : 0 < ((digitsOf d.digits).drop ((digitsOf d.digits).length + d.exponent).toNat).length := by
        rw [List.length_drop]
        omega
      have other : (digitsOf d.digits).drop ((digitsOf d.digits).length + d.exponent).toNat ≠ [] :=
        List.length_pos_iff.mp left
      refine ⟨?_,.inl ?_⟩
      · simp [isWord,other]
      · rw [parts_eq (by rw [cut]; exact short),cut,List.length_drop,Option.getD_none,Prod.mk.injEq]
        exact ⟨rfl,by omega⟩
    · split
      · rename_i small
        have value : (List.replicate (-((digitsOf d.digits).length + d.exponent)).toNat 0 ++
            digitsOf d.digits).foldl (fun total d => 10 * total + d) 0 = d.digits :=
          (ofDigits_zeros _ _).trans digits
        refine ⟨?_,.inl ?_⟩
        · simp [isWord,List.length_pos_iff.mp long]
        · rw [parts_eq (by rw [value]; exact short),value,List.length_append,List.length_replicate,Option.getD_none,
            Prod.mk.injEq]
          exact ⟨rfl,by omega⟩
      · refine ⟨?_,.inl ?_⟩
        · simp [isWord]
        · rw [parts_eq (by rw [cut]; exact short),cut,List.length_drop,Option.getD_some,Prod.mk.injEq]
          exact ⟨rfl,by omega⟩

end LiveMaps.Number.Numeral
