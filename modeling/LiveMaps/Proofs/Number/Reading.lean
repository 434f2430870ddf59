import LiveMaps.Proofs.Number.Midpoints

namespace LiveMaps.Number
open Decimal

theorem Format.round_product (format : Format) (b c : Binary) :
    format.Rounds (b.toRat * c.toRat) (format.round (b.numerator * c.numerator) (b.denominator * c.denominator)) := by
  have rounds := format.round_rounds (b.numerator * c.numerator)
    (Nat.mul_pos b.denominator_pos c.denominator_pos).ne'
  rwa [Nat.cast_mul,Nat.cast_mul,mul_div_mul_comm] at rounds

theorem Format.round_quotient (format : Format) (b : Binary) {c : Binary} (positive : 0 < c.toRat) :
    format.Rounds (b.toRat / c.toRat) (format.round (b.numerator * c.denominator) (b.denominator * c.numerator)) := by
  have below : c.numerator ≠ 0 := by
    intro zero
    rw [Binary.toRat,zero,Nat.cast_zero,zero_div] at positive
    exact lt_irrefl 0 positive
  have rounds := format.round_rounds (b.numerator * c.denominator)
    (Nat.mul_pos b.denominator_pos (Nat.pos_of_ne_zero below)).ne'
  rw [Nat.cast_mul,Nat.cast_mul,mul_div_mul_comm,←inv_div (c.numerator : ℚ),←div_eq_mul_inv] at rounds
  exact rounds

namespace Numeral

theorem start_exact {d : Nat} (short : d < 2 ^ 53) : (Format.double.round d 1).toRat = d := by
  have rounds := Format.double.round_rounds d one_ne_zero
  have value : (d : ℚ) / (1 : Nat) = d * 2 ^ (0 : Int) := by
    rw [Nat.cast_one,div_one,zpow_zero,mul_one]
  rw [value] at rounds
  rw [rounds.exact short (by decide),zpow_zero,mul_one]

def power (n : Nat) : Binary := Format.double.round (tenTo n) 1

theorem power_close (n : Nat) : |(power n).toRat - 10 ^ n| ≤ 10 ^ n * (1 / 2 ^ 53) := by
  have rounds := Format.double.round_rounds (tenTo n) one_ne_zero
  rw [tenTo_cast,Nat.cast_one,div_one] at rounds
  have normal : (2 : ℚ) ^ (Format.double.minExponent + Format.double.precision - 1) ≤ 10 ^ n := by
    apply le_trans (zpow_le_one_of_nonpos₀ one_le_two (by decide))
    exact one_le_pow₀ (by norm_num)
  have close := rounds.close_relative normal
  apply close.trans (le_of_eq _)
  change (10 : ℚ) ^ n * 2 ^ (-(53 : Nat) : Int) = _
  rw [zpow_neg,zpow_natCast,one_div]

theorem power_exact {n : Nat} (small : n ≤ 22) : (power n).toRat = 10 ^ n := by
  have rounds := Format.double.round_rounds (tenTo n) one_ne_zero
  have value : (tenTo n : ℚ) / (1 : Nat) = (5 ^ n : Nat) * 2 ^ (n : Int) := by
    rw [tenTo_cast,Nat.cast_one,div_one,zpow_natCast,Nat.cast_pow,←mul_pow]
    norm_num
  rw [value] at rounds
  have short : 5 ^ n < 2 ^ 53 := (Nat.pow_le_pow_right (by decide) small).trans_lt (by decide)
  have coarse : Format.double.minExponent ≤ n := by
    have least : Format.double.minExponent ≤ 0 := by decide
    omega
  rw [power,rounds.exact short coarse,←value,tenTo_cast,Nat.cast_one,div_one]

theorem power_positive (n : Nat) : 0 < (power n).toRat := by
  have ten : (0 : ℚ) < 10 ^ n := by positivity
  have bounds := abs_le.mp (power_close n)
  linarith

theorem double?_up {d n : Nat} (short : d < 2 ^ 53) (near : n ≤ 40) :
    ∃ b, double? d n = some b ∧ Format.double.Rounds (d * (power n).toRat) b := by
  have rounds := Format.double.round_product (Format.double.round d 1) (power n)
  rw [start_exact short] at rounds
  refine ⟨_,?_,rounds⟩
  unfold double?
  dsimp only
  rw [if_pos (Int.natCast_nonneg n),if_pos (by omega),if_pos]
  · rfl
  · -- The result stays far below the largest double.
    apply Binary.numerator_lt
    have start : (d : ℚ) ≤ 2 ^ 53 := by exact_mod_cast short.le
    have tens : (10 : ℚ) ^ n ≤ 10 ^ 40 := pow_le_pow_right₀ (by norm_num) near
    have scale := (abs_le.mp (power_close n)).2
    have value : d * (power n).toRat ≤ 2 ^ 53 * (2 * 10 ^ 40) :=
      mul_le_mul start (by linarith) (power_positive n).le (by positivity)
    have small : d * (power n).toRat < 2 ^ (250 : Int) := value.trans_lt (by norm_num)
    have close := (abs_le.mp (rounds.close_below (.inl small) (by decide) (by decide))).2
    have last : (2 : ℚ) ^ ((250 : Int) - Format.double.precision - 1) = 2 ^ 196 := by
      rw [←zpow_natCast]
      rfl
    calc (Format.double.round ((Format.double.round d 1).numerator * (power n).numerator)
          ((Format.double.round d 1).denominator * (power n).denominator)).toRat
        ≤ 2 ^ 53 * (2 * 10 ^ 40) + 2 ^ 196 := by linarith
      _ < 2 ^ 251 := by norm_num
      _ ≤ doubleLimit := by
        rw [doubleLimit,twoTo_cast]
        exact pow_le_pow_right₀ one_le_two (by decide)

theorem double?_down {d n : Nat} (short : d < 2 ^ 53) (down : 0 < n) (near : n ≤ 308) :
    ∃ b, double? d (-n) = some b ∧ Format.double.Rounds (d / (power n).toRat) b := by
  have rounds := Format.double.round_quotient (Format.double.round d 1) (power_positive n)
  rw [start_exact short] at rounds
  refine ⟨_,?_,rounds⟩
  unfold double?
  dsimp only
  rw [if_neg (by omega),if_pos (by omega),neg_neg]
  rfl

-- Reading rounds a value close to the decimal, and the decimal itself if its power of ten is a double.
theorem double?_near {d : Nat} {k : Int} (short : d < 2 ^ 53) (fine : -60 ≤ k) (coarse : k ≤ 40) :
    ∃ b v, double? d k = some b ∧ Format.double.Rounds v b ∧
      |v - d * 10 ^ k| ≤ d * 10 ^ k * (1 / 2 ^ 53 * (1 + 1 / 2 ^ 52)) ∧ (-22 ≤ k → k ≤ 22 → v = d * 10 ^ k) := by
  have size : (0 : ℚ) ≤ d := d.cast_nonneg
  rcases le_or_gt 0 k with up | down
  · obtain ⟨n,rfl⟩ := Int.eq_ofNat_of_zero_le up
    obtain ⟨b,read,rounds⟩ := double?_up short (n := n) (by omega)
    refine ⟨b,_,read,rounds,?_,?_⟩
    · rw [zpow_natCast,←mul_sub,abs_mul,Nat.abs_cast,mul_assoc]
      apply mul_le_mul_of_nonneg_left _ size
      apply (power_close n).trans
      gcongr
      norm_num
    · intro _ small
      rw [zpow_natCast,power_exact (by omega)]
  · obtain ⟨n,rfl⟩ : ∃ n : Nat, k = -n := ⟨(-k).toNat,by omega⟩
    obtain ⟨b,read,rounds⟩ := double?_down short (n := n) (by omega) (by omega)
    have ten : (0 : ℚ) < 10 ^ n := by positivity
    have positive := power_positive n
    have close := power_close n
    refine ⟨b,_,read,rounds,?_,?_⟩
    · have split : (d : ℚ) / (power n).toRat - d * (10 ^ n)⁻¹ =
          d * (10 ^ n)⁻¹ * ((10 ^ n - (power n).toRat) / (power n).toRat) := by
        field_simp
      rw [zpow_neg,zpow_natCast,split,abs_mul,abs_of_nonneg (by positivity),abs_div,abs_sub_comm,abs_of_pos positive]
      apply mul_le_mul_of_nonneg_left _ (by positivity)
      have bounds := abs_le.mp close
      rw [div_le_iff₀ positive]
      linarith
    · intro small _
      rw [zpow_neg,zpow_natCast,power_exact (by omega),div_eq_mul_inv]

-- A decimal `q`, and the double `b` that a value `v` close to it is rounded to.
section Sides
variable {q v : ℚ} {b : Binary} {m : Nat} {s : Int}

theorem near_of_crossed (rounds : Format.double.Rounds v b) (close : |v - q| ≤ q * (1 / 2 ^ 53 * (1 + 1 / 2 ^ 52)))
    (short : m < 2 ^ 25) (fine : -150 ≤ s) (crossed : q < m * 2 ^ s ∧ m * 2 ^ s ≤ b.toRat ∨
      b.toRat ≤ m * 2 ^ s ∧ m * 2 ^ s < q) : |q - m * 2 ^ s| ≤ 2 ^ s * (1 / (5 * 2 ^ 25)) := by
  have unit : (0 : ℚ) < 2 ^ s := by positivity
  have digits : (m : ℚ) + 1 ≤ 2 ^ 25 := by exact_mod_cast short
  have most := mul_le_mul_of_nonneg_right digits unit.le
  have top : (2 : ℚ) ^ (25 + s) = 2 ^ 25 * 2 ^ s := zpow_add₀ two_ne_zero ..
  have last : (2 : ℚ) ^ (25 + s - (53 : Nat) - 1) = 2 ^ s / 2 ^ 29 := by
    rw [sub_sub,add_sub_right_comm,zpow_add₀ two_ne_zero]
    norm_num
    ring
  have room : Format.double.minExponent + Format.double.precision ≤ 25 + s := by
    change -1074 + (53 : Nat) ≤ 25 + s
    omega
  have lower := (abs_le.mp close).1
  have upper := (abs_le.mp close).2
  have small : v < 2 ^ (25 + s) ∨ b.toRat < 2 ^ (25 + s) := by
    rw [top]
    rcases crossed with ⟨below,_⟩ | ⟨below,_⟩
    · left
      norm_num at *
      linarith
    · right
      linarith
  have rounded := abs_le.mp (rounds.close_below small room (by decide))
  have width : Format.double.precision = 53 := rfl
  rw [width,last] at rounded
  rw [abs_le]
  rcases crossed with ⟨below,above⟩ | ⟨below,above⟩
  · constructor
    · norm_num at *
      linarith
    · norm_num at *
      linarith
  · constructor
    · norm_num at *
      linarith
    · norm_num at *
      linarith

theorem five_pow_le {a n : Nat} {t : Int} (nonzero : a ≠ 0) (same : a * (5 : ℚ) ^ n = m * 2 ^ t) : 5 ^ n ≤ m := by
  rw [zpow_parts,mul_div_assoc',eq_div_iff (by positivity)] at same
  have whole : a * 5 ^ n * 2 ^ (-t).toNat = m * 2 ^ t.toNat := by exact_mod_cast same
  have coprime : (5 ^ n).Coprime (2 ^ t.toNat) := Nat.Coprime.pow n t.toNat (by decide)
  have divides : 5 ^ n ∣ m :=
    coprime.dvd_of_dvd_mul_right ⟨a * 2 ^ (-t).toNat,by rw [←whole]; ring⟩
  apply Nat.le_of_dvd _ divides
  by_contra zero
  rw [Nat.eq_zero_of_not_pos zero,Nat.zero_mul] at whole
  have positive : 0 < a * 5 ^ n * 2 ^ (-t).toNat := by positivity
  omega

theorem power_small {d : Nat} {k : Int} (nonzero : d ≠ 0) (few : d < 2 ^ 31) (short : m < 2 ^ 25)
    (same : d * (10 : ℚ) ^ k = m * 2 ^ s) : -22 ≤ k ∧ k ≤ 22 := by
  have large : 2 ^ 31 < 5 ^ 23 := by decide
  have factors (n : Nat) : (10 : ℚ) ^ n = 5 ^ n * 2 ^ n := by
    rw [←mul_pow]
    norm_num
  have below {n a : Nat} (bound : 5 ^ n ≤ a) (word : a < 2 ^ 31) : n ≤ 22 := by
    by_contra more
    have power : 5 ^ 23 ≤ 5 ^ n := Nat.pow_le_pow_right (by decide) (by omega)
    omega
  have unit : (2 : ℚ) ^ s ≠ 0 := by positivity
  rcases le_total 0 k with up | down
  · obtain ⟨n,rfl⟩ := Int.eq_ofNat_of_zero_le up
    have split : d * (5 : ℚ) ^ n = m * 2 ^ (s - n) := by
      rw [zpow_natCast,factors] at same
      rw [zpow_sub₀ two_ne_zero,zpow_natCast,←mul_div_assoc,←same]
      field_simp
    have bound := below (five_pow_le nonzero split) (by omega)
    omega
  · obtain ⟨n,rfl⟩ : ∃ n : Nat, k = -n := ⟨(-k).toNat,by omega⟩
    have some : m ≠ 0 := by
      intro zero
      rw [zero,Nat.cast_zero,zero_mul] at same
      have positive : d * (10 : ℚ) ^ (-n : Int) ≠ 0 := mul_ne_zero (by exact_mod_cast nonzero) (by positivity)
      exact positive same
    have split : m * (5 : ℚ) ^ n = d * 2 ^ (-s - n) := by
      rw [zpow_neg,zpow_natCast,factors] at same
      rw [zpow_sub₀ two_ne_zero,zpow_neg,zpow_natCast]
      field_simp at same ⊢
      linarith
    have bound := below (five_pow_le some split) few
    omega

theorem keepsApart_within {k : Int} (fine : -150 ≤ s) (coarse : (2 : ℚ) ^ s * (1 - 1 / 2 ^ 27) ≤ 10 ^ k)
    (small : k ≤ 38) : keepsApart k = true := by
  have least : -45 ≤ k := by
    by_contra less
    have unit : (2 : ℚ) ^ (-150 : Int) ≤ 2 ^ s := zpow_le_zpow_right₀ one_le_two fine
    have ten : (10 : ℚ) ^ k ≤ 10 ^ (-46 : Int) := zpow_le_zpow_right₀ (by norm_num) (by omega)
    norm_num at unit ten coarse
    linarith
  obtain ⟨i,rfl⟩ : ∃ i : Nat, k = i - 45 := ⟨(k + 45).toNat,by omega⟩
  exact keepsApart_all i (by omega)

-- A decimal and its double lie to the same side of a number of twenty-five bits.
theorem side_kept {d : Nat} {k : Int} (rounds : Format.double.Rounds v b)
    (close : |v - d * 10 ^ k| ≤ d * 10 ^ k * (1 / 2 ^ 53 * (1 + 1 / 2 ^ 52)))
    (exactly : -22 ≤ k → k ≤ 22 → v = d * 10 ^ k) (nonzero : d ≠ 0) (few : d < 2 ^ 31) (small : k ≤ 38)
    (short : m < 2 ^ 25) (fine : -150 ≤ s)
    (coarse : |(d : ℚ) * 10 ^ k - m * 2 ^ s| ≤ 2 ^ s * (1 / (5 * 2 ^ 25)) → (2 : ℚ) ^ s * (1 - 1 / 2 ^ 27) ≤ 10 ^ k) :
    isDirect d k = true ∨ compare b.toRat (m * 2 ^ s) = compare ((d : ℚ) * 10 ^ k) (m * 2 ^ s) := by
  have apart (different : (d : ℚ) * 10 ^ k ≠ m * 2 ^ s) (crossed : (d : ℚ) * 10 ^ k < m * 2 ^ s ∧ m * 2 ^ s ≤ b.toRat ∨
      b.toRat ≤ m * 2 ^ s ∧ m * 2 ^ s < (d : ℚ) * 10 ^ k) : isDirect d k = true := by
    have near := near_of_crossed rounds close short fine crossed
    have kept := keepsApart_within fine (coarse near) small
    exact (equal_of_near kept nonzero short (coarse near) near).resolve_left different
  rcases lt_trichotomy ((d : ℚ) * 10 ^ k) (m * 2 ^ s) with below | same | above
  · rcases lt_or_ge b.toRat (m * 2 ^ s) with alike | crossed
    · exact .inr (by rw [compare_lt_iff_lt.mpr below,compare_lt_iff_lt.mpr alike])
    · exact .inl (apart below.ne (.inl ⟨below,crossed⟩))
  · obtain ⟨least,most⟩ := power_small nonzero few short same
    have value := exactly least most
    rw [same] at value
    subst value
    have result := rounds.exact (short.trans (by decide)) (le_trans (by decide) fine)
    exact .inr (by rw [same,result])
  · rcases lt_or_ge ((m : ℚ) * 2 ^ s) b.toRat with alike | crossed
    · exact .inr (by rw [compare_gt_iff_gt.mpr above]; exact compare_gt_iff_gt.mpr alike)
    · exact .inl (apart above.ne' (.inr ⟨crossed,above⟩))

end Sides

end Numeral

end LiveMaps.Number
