import LiveMaps.Proofs.Json.Numerals
import Mathlib.Algebra.Order.Field.Power
import Mathlib.Algebra.Order.Field.Rat
import Mathlib.Data.Nat.Cast.Order.Field
import Mathlib.Data.Nat.Digits.Lemmas
import Mathlib.Tactic.NormNum
import Mathlib.Tactic.Positivity

namespace LiveMaps.Number

theorem twoTo_cast (k : Nat) : (twoTo k : ℚ) = 2 ^ k := by simp [twoTo]

theorem tenTo_cast (k : Nat) : (tenTo k : ℚ) = 10 ^ k := by simp [tenTo]

theorem zpow_parts (base : ℚ) (e : Int) : base ^ e = base ^ e.toNat / base ^ (-e).toNat := by
  rcases le_total 0 e with up | down
  · have below : (-e).toNat = 0 := by omega
    rw [below,pow_zero,div_one,←zpow_natCast,Int.toNat_of_nonneg up]
  · have above : e.toNat = 0 := by omega
    rw [above,pow_zero,one_div,←zpow_natCast,Int.toNat_of_nonneg (by omega),zpow_neg,inv_inv]

theorem zpow_half (e : Int) : (2 : ℚ) ^ (e - 1) = 1 / 2 * 2 ^ e := by
  rw [zpow_sub_one₀ two_ne_zero,one_div,mul_comm]

theorem Binary.toRat_eq (b : Binary) : b.toRat = b.significand * 2 ^ b.exponent := by
  rw [toRat,numerator,denominator,Nat.cast_mul,twoTo_cast,twoTo_cast,zpow_parts,mul_div_assoc]

theorem Binary.toRat_nonneg (b : Binary) : 0 ≤ b.toRat := by
  rw [toRat_eq]
  positivity

theorem Binary.denominator_pos (b : Binary) : 0 < b.denominator := Nat.pow_pos (by decide)

theorem Binary.numerator_lt {b : Binary} {bound : Nat} (small : b.toRat < bound) :
    b.numerator < bound * b.denominator := by
  have positive : (0 : ℚ) < b.denominator := by exact_mod_cast b.denominator_pos
  exact_mod_cast (div_lt_iff₀ positive).mp small

theorem ratio_up {base n d : ℚ} {e : Int} (up : 0 ≤ e) : n * base ^ e.toNat / d = n / d * base ^ e := by
  have below : (-e).toNat = 0 := by omega
  rw [zpow_parts,below,pow_zero,div_one,mul_div_right_comm]

theorem ratio_down {base n d : ℚ} {e : Int} (down : ¬ 0 ≤ e) : n / (d * base ^ (-e).toNat) = n / d * base ^ e := by
  have above : e.toNat = 0 := by omega
  rw [zpow_parts,above,pow_zero,div_mul_div_comm,mul_one]

theorem scale_ratio (n d : Nat) (shift : Int) :
    ((scale n d shift).1 : ℚ) / (scale n d shift).2 = n / d * 2 ^ shift := by
  unfold scale
  split
  · rename_i up
    rw [Nat.cast_mul,twoTo_cast,ratio_up up]
  · rename_i down
    rw [Nat.cast_mul,twoTo_cast,ratio_down down]

theorem scale_pos {d : Nat} (positive : 0 < d) (n : Nat) (shift : Int) : 0 < (scale n d shift).2 := by
  unfold scale
  split
  · exact positive
  · exact Nat.mul_pos positive (Nat.pow_pos (by decide))

namespace Decimal

def toRat (d : Decimal) : ℚ := d.digits * 10 ^ d.exponent

theorem shift10_ratio (n d : Nat) (shift : Int) :
    ((shift10 n d shift).1 : ℚ) / (shift10 n d shift).2 = n / d * 10 ^ shift := by
  unfold shift10
  split
  · rename_i up
    rw [Nat.cast_mul,tenTo_cast,ratio_up up]
  · rename_i down
    rw [Nat.cast_mul,tenTo_cast,ratio_down down]

theorem shift10_pos {d : Nat} (positive : 0 < d) (n : Nat) (shift : Int) : 0 < (shift10 n d shift).2 := by
  unfold shift10
  split
  · exact positive
  · exact Nat.mul_pos positive (Nat.pow_pos (by decide))

theorem normal_toRat (fuel : Nat) (d : Decimal) : (normal fuel d).toRat = d.toRat := by
  induction fuel generalizing d with
  | zero => rfl
  | succ fuel ih =>
    rw [normal]
    split
    · rename_i whole
      have tens : (d.digits : ℚ) = (d.digits / 10 : Nat) * 10 := by exact_mod_cast (by omega)
      rw [ih,toRat,toRat,tens,zpow_add₀ (by norm_num)]
      simp only [zpow_one]
      ring
    · rfl

theorem digitsOf_digits {n : Nat} (positive : n ≠ 0) : digitsOf n = (Nat.digits 10 n).reverse := by
  induction n using digitsOf.induct with
  | case1 n small =>
    rw [digitsOf,if_pos small,Nat.digits_of_lt 10 n positive small,List.reverse_singleton]
  | case2 n large ih =>
    rw [digitsOf,if_neg large,ih (by omega),Nat.digits_def' (by decide) (Nat.pos_of_ne_zero positive),
      List.reverse_cons]

theorem digitsOf_length_pos (n : Nat) : 0 < (digitsOf n).length := by
  obtain ⟨first,rest,parts,_⟩ := digitsOf_head n
  rw [parts]
  exact Nat.succ_pos rest.length

theorem digitsOf_length_le {n k : Nat} (room : 0 < k) (below : n < 10 ^ k) : (digitsOf n).length ≤ k := by
  by_cases zero : n = 0
  · rw [zero,digitsOf]
    exact room
  · rw [digitsOf_digits zero,List.length_reverse]
    exact (Nat.digits_length_le_iff (by decide) n).mpr below

theorem lt_pow_length {n : Nat} (positive : n ≠ 0) : n < 10 ^ (digitsOf n).length := by
  rw [digitsOf_digits positive,List.length_reverse]
  exact Nat.lt_base_pow_length_digits (by decide)

theorem ofDigits_zeros (count : Nat) (digits : List Nat) :
    ofDigits (List.replicate count 0 ++ digits) = ofDigits digits := by
  induction count with
  | zero => rfl
  | succ count ih => exact ih

end Decimal

theorem Single.magnitude_bounds {x : Single} (finite : x.isFinite = true) :
    x.magnitude.significand < 2 ^ 24 ∧ x.magnitude.exponent ≤ 104 := by
  have fraction : x.fractionField < 0x800000 := Nat.mod_lt _ (by decide)
  have exponent : x.exponentField < 255 := by simpa [isFinite] using finite
  unfold magnitude
  split
  · simp only
    omega
  · simp only
    omega

end LiveMaps.Number
