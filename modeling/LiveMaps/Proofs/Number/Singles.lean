import LiveMaps.Proofs.Number.Shortest

namespace LiveMaps.Number.Single
variable {x : Single} {q : ℚ}
open Decimal

theorem withSign_parts (finite : x.isFinite = true) :
    withSign x.isNegative (min infinityField (x.fractionField + x.exponentField * 0x800000)) = x := by
  have size := x.bits.toNat_lt
  have exponent : x.exponentField < 255 := by simpa [isFinite] using finite
  have bits : min infinityField (x.fractionField + x.exponentField * 0x800000) +
      (if x.isNegative then 0x80000000 else 0) = x.bits.toNat := by
    simp only [isNegative,infinityField,exponentField,fractionField,decide_eq_true_eq] at *
    split <;> omega
  rw [withSign,bits,UInt32.ofNat_toNat]

theorem ofBinary_magnitude (finite : x.isFinite = true) : ofBinary x.isNegative x.magnitude = x := by
  have field : x.magnitude.significand + (x.magnitude.exponent + 149).toNat * 0x800000 =
      x.fractionField + x.exponentField * 0x800000 := by
    unfold magnitude
    split
    · rename_i zero
      have least : ((-149 : Int) + 149).toNat = 0 := by decide
      rw [zero,least,Nat.zero_mul]
    · dsimp only
      omega
  rw [ofBinary,field]
  exact withSign_parts finite

theorem ofBinary_carried {e : Int} (negative : Bool) (fine : -149 < e) :
    ofBinary negative ⟨2 ^ 24,e - 1⟩ = ofBinary negative ⟨2 ^ 23,e⟩ := by
  have field : 2 ^ 24 + (e - 1 + 149).toNat * 0x800000 = 2 ^ 23 + (e + 149).toNat * 0x800000 := by omega
  rw [ofBinary,field]
  rfl

theorem magnitude_normal (fine : -149 < x.magnitude.exponent) : 2 ^ 23 ≤ x.magnitude.significand := by
  by_cases zero : x.exponentField = 0
  · rw [magnitude,if_pos zero] at fine
    exact absurd fine (lt_irrefl _)
  · rw [magnitude,if_neg zero]
    exact Nat.le_add_right _ _

theorem held_nearest {format : Format} {b : Binary} (nonzero : b.significand ≠ 0) (held : (target format b).Holds q) :
    IsNearest (q * 2 ^ (-b.exponent)) b.significand := by
  have unit : (0 : ℚ) < 2 ^ b.exponent := by positivity
  have scaled := (Format.Rounds.value_eq q b.exponent).symm
  have high := target_high format b
  have low := target_low format nonzero
  have least := held.low_le
  have most := held.le_high
  obtain ⟨_,share⟩ := lowShare_bounds format b
  rw [Binary.toRat_eq,zpow_half] at high
  rw [Binary.toRat_eq] at low
  generalize q * 2 ^ (-b.exponent) = r at scaled ⊢
  have even : (target format b).closed = true → b.significand % 2 = 0 := by
    intro closed
    simpa [target] using closed
  refine ⟨?_,?_,?_⟩
  · apply le_of_mul_le_mul_right _ unit
    linarith
  · apply le_of_mul_le_mul_right _ unit
    linarith
  · rintro (bottom | top)
    · rcases held.above with inside | ⟨closed,_⟩
      · rw [bottom,add_mul] at low
        linarith
      · exact even closed
    · rcases held.below with inside | ⟨closed,_⟩
      · rw [top,add_mul] at scaled
        linarith
      · exact even closed

-- Right below a power of two, values are rounded in the finer unit, up to the power.
theorem rounds_narrow (power : x.magnitude.significand = 2 ^ 23) (fine : -149 < x.magnitude.exponent)
    (held : (target .single x.magnitude).Holds q) (short : q < x.magnitude.toRat) :
    Format.single.Rounds q ⟨2 ^ 24,x.magnitude.exponent - 1⟩ := by
  have narrow : lowShare .single x.magnitude = 2 := if_pos (by
    rw [Format.isNarrow,power,Bool.and_eq_true,decide_eq_true_eq,decide_eq_true_eq]
    exact ⟨rfl,fine⟩)
  have low := target_low .single (b := x.magnitude) (by omega)
  have least := held.low_le
  rw [low,narrow,Binary.toRat_eq,power] at least
  rw [Binary.toRat_eq,power] at short
  generalize x.magnitude.exponent = e at *
  have unit : (0 : ℚ) < 2 ^ (e - 1) := by positivity
  have half := zpow_half e
  have quarter : (2 : ℚ) ^ (e - 2) = 1 / 2 * 2 ^ (e - 1) := by
    rw [←zpow_half,sub_sub]
    rfl
  have scaled := (Format.Rounds.value_eq q (e - 1)).symm
  rw [quarter] at least
  refine ⟨⟨?_,?_,fun _ => by norm_num⟩,?_,?_,.inr ?_⟩
  · apply le_of_mul_le_mul_right _ unit
    dsimp only
    push_cast at least ⊢
    linarith
  · apply le_of_mul_le_mul_right _ unit
    dsimp only
    push_cast at short ⊢
    linarith
  · change q < 2 ^ (e - 1 + (24 : Nat))
    rw [zpow_add₀ two_ne_zero,zpow_natCast]
    push_cast at short
    linarith
  · change -149 ≤ e - 1
    omega
  · change (2 : ℚ) ^ (e - 1 + (24 : Nat) - 1) ≤ q
    rw [add_sub_assoc,zpow_add₀ two_ne_zero]
    push_cast at least
    norm_num
    linarith

theorem held_lt (finite : x.isFinite = true) (held : (target .single x.magnitude).Holds q) :
    q < 2 ^ (x.magnitude.exponent + (24 : Nat)) := by
  have unit : (0 : ℚ) < 2 ^ x.magnitude.exponent := by positivity
  have digits : (x.magnitude.significand : ℚ) + 1 ≤ 2 ^ 24 := by exact_mod_cast (magnitude_bounds finite).1
  have top := mul_le_mul_of_nonneg_right digits unit.le
  have most := held.le_high
  rw [target_high,Binary.toRat_eq,zpow_half] at most
  rw [zpow_add₀ two_ne_zero,zpow_natCast]
  linarith

theorem rounds_held (finite : x.isFinite = true) (nonzero : x.magnitude.significand ≠ 0)
    (held : (target .single x.magnitude).Holds q) :
    Format.single.Rounds q x.magnitude ∨
      x.magnitude.significand = 2 ^ 23 ∧ -149 < x.magnitude.exponent ∧
        Format.single.Rounds q ⟨2 ^ 24,x.magnitude.exponent - 1⟩ := by
  have fine := x.magnitude_least
  have value := Binary.toRat_eq x.magnitude
  have plain (coarse : x.magnitude.exponent = -149 ∨ (2 : ℚ) ^ (x.magnitude.exponent + (24 : Nat) - 1) ≤ q) :
      Format.single.Rounds q x.magnitude := ⟨held_nearest nonzero held,held_lt finite held,fine,coarse⟩
  rcases fine.eq_or_lt with finest | normal
  · exact .inl (plain (.inl finest.symm))
  · have least := held.low_le
    have bottom : (2 : ℚ) ^ (x.magnitude.exponent + (24 : Nat) - 1) = 2 ^ 23 * 2 ^ x.magnitude.exponent := by
      rw [add_sub_assoc,add_comm,zpow_add₀ two_ne_zero]
      norm_num
    rcases (magnitude_normal normal).eq_or_lt with power | more
    · rcases lt_or_ge q x.magnitude.toRat with below | reached
      · exact .inr ⟨power.symm,normal,rounds_narrow power.symm normal held below⟩
      · rw [value,←power] at reached
        exact .inl (plain (.inr (by rw [bottom]; exact_mod_cast reached)))
    · have unit : (0 : ℚ) < 2 ^ x.magnitude.exponent := by positivity
      have digits : (2 : ℚ) ^ 23 + 1 ≤ x.magnitude.significand := by exact_mod_cast more
      have room := mul_le_mul_of_nonneg_right digits unit.le
      obtain ⟨_,share⟩ := lowShare_bounds .single x.magnitude
      rw [target_low _ nonzero,value] at least
      exact .inl (plain (.inr (by rw [bottom]; linarith)))

theorem ofRatio_held (finite : x.isFinite = true) (nonzero : x.magnitude.significand ≠ 0) {n d : Nat}
    (below : d ≠ 0) (held : (target .single x.magnitude).Holds (n / d)) : ofRatio x.isNegative n d = x := by
  have rounds := Format.single.round_rounds n below
  rw [ofRatio]
  rcases rounds_held finite nonzero held with plain | ⟨power,fine,carried⟩
  · rw [rounds.unique plain]
    exact ofBinary_magnitude finite
  · rw [rounds.unique carried,ofBinary_carried x.isNegative fine,←power]
    exact ofBinary_magnitude finite

end LiveMaps.Number.Single
