import LiveMaps.Proofs.Number.Values
import Mathlib.Tactic.FieldSimp
import Mathlib.Tactic.GCongr
import Mathlib.Tactic.Linarith

namespace LiveMaps.Number

structure IsNearest (value : ℚ) (k : Nat) : Prop where
  above : (k : ℚ) ≤ value + 1 / 2
  below : value ≤ k + 1 / 2
  tie : (k : ℚ) = value + 1 / 2 ∨ value = k + 1 / 2 → k % 2 = 0

namespace IsNearest
variable {value other : ℚ} {k m : Nat}

theorem of_nat (k : Nat) : IsNearest k k := by
  refine ⟨by linarith,by linarith,?_⟩
  rintro (up | down)
  · linarith
  · linarith

-- What is nearest to a greater value is not less. Where it would be, both values were one and the
-- same half, between two even neighbours.
theorem mono (near : IsNearest value k) (also : IsNearest other m) (ordered : value ≤ other) : k ≤ m := by
  by_contra less
  have step : (m : ℚ) + 1 ≤ k := by exact_mod_cast Nat.lt_of_not_le less
  have above := near.above
  have below := also.below
  have even := near.tie (.inl (by linarith))
  have odd := also.tie (.inr (by linarith))
  have next : (k : ℚ) = m + 1 := by linarith
  have next : k = m + 1 := by exact_mod_cast next
  omega

theorem unique (near : IsNearest value k) (also : IsNearest value m) : k = m :=
  Nat.le_antisymm (near.mono also (le_refl value)) (also.mono near (le_refl value))

theorem le_nat (near : IsNearest value k) (bound : value ≤ m) : k ≤ m := near.mono (of_nat m) bound

theorem nat_le (near : IsNearest value k) (bound : (m : ℚ) ≤ value) : m ≤ k := (of_nat m).mono near bound

theorem dropped {part : ℚ} (start : 0 ≤ part) (small : part < 1 / 2) : IsNearest (k + part) k := by
  refine ⟨by linarith,by linarith,?_⟩
  rintro (up | down)
  · linarith
  · linarith

theorem filled {part : ℚ} (large : 1 / 2 < part) (short : part < 1) : IsNearest (k + part) (k + 1) := by
  have next : ((k + 1 : Nat) : ℚ) = k + 1 := Nat.cast_succ k
  refine ⟨by linarith,by linarith,?_⟩
  rintro (up | down)
  · linarith
  · linarith

theorem halved (k : Nat) : IsNearest (k + 1 / 2) (k + k % 2) := by
  rcases Nat.mod_two_eq_zero_or_one k with even | odd
  · rw [even,Nat.add_zero]
    exact ⟨by linarith,le_refl _,fun _ => even⟩
  · rw [odd]
    have next : ((k + 1 : Nat) : ℚ) = k + 1 := Nat.cast_succ k
    exact ⟨by linarith,by linarith,fun _ => by omega⟩

end IsNearest

theorem nearestEven_nearest (n : Nat) {d : Nat} (below : d ≠ 0) : IsNearest (n / d) (nearestEven n d) := by
  have positive : (0 : ℚ) < d := by exact_mod_cast Nat.pos_of_ne_zero below
  have parts : (n : ℚ) / d = (n / d : Nat) + (n % d : Nat) / d := by
    rw [div_eq_iff positive.ne',add_mul,div_mul_cancel₀ _ positive.ne']
    exact_mod_cast (Nat.div_add_mod' n d).symm
  rw [parts,nearestEven]
  split
  · rename_i less
    apply IsNearest.dropped (by positivity)
    rw [div_lt_div_iff₀ positive two_pos,one_mul,mul_comm]
    exact_mod_cast less
  · split
    · rename_i same
      have half : ((n % d : Nat) : ℚ) / d = 1 / 2 := by
        rw [div_eq_div_iff positive.ne' two_ne_zero,one_mul,mul_comm]
        exact_mod_cast same
      rw [half]
      exact IsNearest.halved (n / d)
    · rename_i notless different
      apply IsNearest.filled
      · rw [div_lt_div_iff₀ two_pos positive,one_mul,mul_comm]
        exact_mod_cast (by omega : d < 2 * (n % d))
      · rw [div_lt_one positive]
        exact_mod_cast Nat.mod_lt n (Nat.pos_of_ne_zero below)

theorem magnitude_bounds {n d : Nat} (above : n ≠ 0) (below : d ≠ 0) :
    (2 : ℚ) ^ magnitude n d ≤ n / d ∧ (n / d : ℚ) < 2 ^ (magnitude n d + 1) := by
  have positive : (0 : ℚ) < d := by exact_mod_cast Nat.pos_of_ne_zero below
  have low : (2 : ℚ) ^ n.log2 ≤ n := by exact_mod_cast Nat.log2_self_le above
  have high : (n : ℚ) < 2 ^ n.log2 * 2 := by exact_mod_cast (pow_succ 2 n.log2) ▸ Nat.lt_log2_self (n := n)
  have least : (2 : ℚ) ^ d.log2 ≤ d := by exact_mod_cast Nat.log2_self_le below
  have most : (d : ℚ) < 2 ^ d.log2 * 2 := by exact_mod_cast (pow_succ 2 d.log2) ▸ Nat.lt_log2_self (n := d)
  generalize guess : (n.log2 : Int) - d.log2 = g
  have power : (2 : ℚ) ^ g = 2 ^ n.log2 / 2 ^ d.log2 := by
    rw [←guess,zpow_sub₀ two_ne_zero,zpow_natCast,zpow_natCast]
  have ratio := scale_ratio n d (-g)
  have proper : (0 : ℚ) < (scale n d (-g)).2 := by
    exact_mod_cast scale_pos (Nat.pos_of_ne_zero below) n (-g)
  have reached : (scale n d (-g)).2 ≤ (scale n d (-g)).1 ↔ (2 : ℚ) ^ g ≤ n / d := by
    rw [←@Nat.cast_le ℚ,←one_le_div proper,ratio,zpow_neg,←div_eq_mul_inv,one_le_div (by positivity)]
  have under : (n : ℚ) / d < 2 ^ (g + 1) := by
    rw [zpow_add_one₀ two_ne_zero,power,div_mul_eq_mul_div]
    exact div_lt_div₀ high least (by positivity) (by positivity)
  have reach : (2 : ℚ) ^ (g - 1) ≤ n / d := by
    rw [zpow_sub_one₀ two_ne_zero,power,←div_eq_mul_inv,div_div]
    exact div_le_div₀ (by positivity) low positive most.le
  simp only [magnitude,guess]
  split
  · rename_i large
    exact ⟨reached.mp large,under⟩
  · rename_i small
    rw [sub_add_cancel]
    exact ⟨reach,lt_of_not_ge (mt reached.mpr small)⟩

-- What a format holds in the place of a value: the nearest multiple of a unit that is as fine as the
-- precision and the format allow.
structure Format.Rounds (format : Format) (value : ℚ) (b : Binary) : Prop where
  nearest : IsNearest (value * 2 ^ (-b.exponent)) b.significand
  fits : value < 2 ^ (b.exponent + format.precision)
  least : format.minExponent ≤ b.exponent
  finest : b.exponent = format.minExponent ∨ (2 : ℚ) ^ (b.exponent + format.precision - 1) ≤ value

namespace Format
variable {format : Format} {value other : ℚ} {b c : Binary}

theorem round_rounds (format : Format) (n : Nat) {d : Nat} (below : d ≠ 0) :
    format.Rounds (n / d) (format.round n d) := by
  unfold round
  split
  · rename_i zero
    subst zero
    rw [Nat.cast_zero,zero_div]
    refine ⟨?_,by positivity,le_refl _,.inl rfl⟩
    rw [zero_mul]
    exact_mod_cast IsNearest.of_nat 0
  · rename_i above
    obtain ⟨reached,under⟩ := magnitude_bounds above below
    dsimp only
    generalize exponent : max (magnitude n d - ((format.precision : Int) - 1)) format.minExponent = e
    refine ⟨?_,?_,?_,?_⟩
    · rw [←scale_ratio]
      exact nearestEven_nearest _ (scale_pos (Nat.pos_of_ne_zero below) n (-e)).ne'
    · apply lt_of_lt_of_le under
      apply zpow_le_zpow_right₀ one_le_two
      dsimp only
      omega
    · dsimp only
      omega
    · rcases max_choice (magnitude n d - ((format.precision : Int) - 1)) format.minExponent with coarse | finest
      · right
        apply le_trans _ reached
        apply zpow_le_zpow_right₀ one_le_two
        dsimp only
        omega
      · left
        dsimp only
        omega

namespace Rounds

theorem value_eq (value : ℚ) (e : Int) : value * 2 ^ (-e) * 2 ^ e = value := by
  rw [mul_assoc,←zpow_add₀ two_ne_zero,neg_add_cancel,zpow_zero,mul_one]

theorem close (rounds : format.Rounds value b) : |b.toRat - value| ≤ 2 ^ (b.exponent - 1) := by
  have unit : (0 : ℚ) < 2 ^ b.exponent := by positivity
  have above := mul_le_mul_of_nonneg_right rounds.nearest.above unit.le
  have below := mul_le_mul_of_nonneg_right rounds.nearest.below unit.le
  rw [add_mul,value_eq] at above below
  rw [Binary.toRat_eq,zpow_half,abs_le]
  constructor
  · linarith
  · linarith

-- Up from the power of two where its unit is taken, a value fills the precision.
theorem normal (rounds : format.Rounds value b) (coarse : (2 : ℚ) ^ (b.exponent + format.precision - 1) ≤ value)
    (proper : 0 < format.precision) : 2 ^ (format.precision - 1) ≤ b.significand := by
  apply rounds.nearest.nat_le
  have power := mul_le_mul_of_nonneg_right coarse (by positivity : (0 : ℚ) ≤ 2 ^ (-b.exponent))
  rw [←zpow_add₀ two_ne_zero] at power
  apply le_trans (le_of_eq _) power
  rw [Nat.cast_pow,Nat.cast_ofNat,←zpow_natCast]
  congr 1
  omega

theorem mono (rounds : format.Rounds value b) (also : format.Rounds other c) (ordered : value ≤ other)
    (proper : 0 < format.precision) : b.toRat ≤ c.toRat := by
  rw [Binary.toRat_eq,Binary.toRat_eq]
  rcases lt_trichotomy b.exponent c.exponent with finer | same | coarser
  · -- The greater value is at least the power of two up to which the lesser one is rounded.
    have coarse : (2 : ℚ) ^ (c.exponent + format.precision - 1) ≤ other :=
      also.finest.resolve_left (by have := rounds.least; omega)
    have bottom := also.normal coarse proper
    have top : b.significand ≤ 2 ^ format.precision := by
      apply rounds.nearest.le_nat
      have power := mul_le_mul_of_nonneg_right rounds.fits.le (by positivity : (0 : ℚ) ≤ 2 ^ (-b.exponent))
      rw [←zpow_add₀ two_ne_zero] at power
      apply le_trans power (le_of_eq _)
      rw [Nat.cast_pow,Nat.cast_ofNat,←zpow_natCast]
      congr 1
      omega
    calc (b.significand : ℚ) * 2 ^ b.exponent
        ≤ 2 ^ format.precision * 2 ^ b.exponent := by
          gcongr
          exact_mod_cast top
      _ = 2 ^ ((format.precision : Int) + b.exponent) := by rw [zpow_add₀ two_ne_zero,zpow_natCast]
      _ ≤ 2 ^ (((format.precision - 1 : Nat) : Int) + c.exponent) := by
          apply zpow_le_zpow_right₀ one_le_two
          omega
      _ = 2 ^ (format.precision - 1) * 2 ^ c.exponent := by rw [zpow_add₀ two_ne_zero,zpow_natCast]
      _ ≤ c.significand * 2 ^ c.exponent := by
          gcongr
          exact_mod_cast bottom
  · have significands : b.significand ≤ c.significand := by
      apply rounds.nearest.mono also.nearest
      rw [same]
      gcongr
    rw [same]
    gcongr
  · -- A coarser unit is only taken for a greater value.
    have coarse : (2 : ℚ) ^ (b.exponent + format.precision - 1) ≤ value :=
      rounds.finest.resolve_left (by have := also.least; omega)
    have less := lt_of_le_of_lt (coarse.trans ordered) also.fits
    have exponents := (zpow_lt_zpow_iff_right₀ one_lt_two).mp less
    omega

theorem unique (rounds : format.Rounds value b) (also : format.Rounds value c) : b = c := by
  have finer {b c : Binary} (rounds : format.Rounds value b) (also : format.Rounds value c) :
      c.exponent ≤ b.exponent := by
    rcases also.finest with least | coarse
    · have := rounds.least
      omega
    · have exponents := (zpow_lt_zpow_iff_right₀ one_lt_two).mp (coarse.trans_lt rounds.fits)
      omega
  have exponent := le_antisymm (finer also rounds) (finer rounds also)
  have nearest := also.nearest
  rw [←exponent] at nearest
  obtain ⟨significand,e⟩ := b
  obtain ⟨other,f⟩ := c
  rw [Binary.mk.injEq]
  exact ⟨rounds.nearest.unique nearest,exponent⟩

-- The unit is no coarser than value and result call for.
theorem unit_le (rounds : format.Rounds value b) {top : Int} (small : value < 2 ^ top ∨ b.toRat < 2 ^ top)
    (room : format.minExponent + format.precision ≤ top) (proper : 0 < format.precision) :
    b.exponent + format.precision ≤ top := by
  rcases rounds.finest with least | coarse
  · omega
  · have reached : (2 : ℚ) ^ (b.exponent + format.precision - 1) ≤ b.toRat := by
      have digits : (2 : ℚ) ^ (format.precision - 1 : Nat) ≤ b.significand := by
        exact_mod_cast rounds.normal coarse proper
      rw [Binary.toRat_eq]
      calc (2 : ℚ) ^ (b.exponent + format.precision - 1)
          = 2 ^ (format.precision - 1 : Nat) * 2 ^ b.exponent := by
            rw [←zpow_natCast,←zpow_add₀ two_ne_zero]
            congr 1
            omega
        _ ≤ b.significand * 2 ^ b.exponent := by gcongr
    have bounded : (2 : ℚ) ^ (b.exponent + format.precision - 1) < 2 ^ top := by
      rcases small with value | result
      · exact coarse.trans_lt value
      · exact reached.trans_lt result
    have exponents := (zpow_lt_zpow_iff_right₀ one_lt_two).mp bounded
    omega

theorem close_below (rounds : format.Rounds value b) {top : Int} (small : value < 2 ^ top ∨ b.toRat < 2 ^ top)
    (room : format.minExponent + format.precision ≤ top) (proper : 0 < format.precision) :
    |b.toRat - value| ≤ 2 ^ (top - format.precision - 1) := by
  have unit := rounds.unit_le small room proper
  apply rounds.close.trans
  apply zpow_le_zpow_right₀ one_le_two
  omega

theorem close_relative (rounds : format.Rounds value b)
    (normal : (2 : ℚ) ^ (format.minExponent + format.precision - 1) ≤ value) :
    |b.toRat - value| ≤ value * 2 ^ (-(format.precision : Int)) := by
  have coarse : (2 : ℚ) ^ (b.exponent + format.precision - 1) ≤ value := by
    rcases rounds.finest with least | coarse
    · rwa [least]
    · exact coarse
  calc |b.toRat - value| ≤ 2 ^ (b.exponent - 1) := rounds.close
    _ = 2 ^ (b.exponent + format.precision - 1) * 2 ^ (-(format.precision : Int)) := by
      rw [←zpow_add₀ two_ne_zero]
      congr 1
      omega
    _ ≤ value * 2 ^ (-(format.precision : Int)) := by gcongr

theorem exact {m : Nat} {e : Int} (rounds : format.Rounds (m * 2 ^ e) b) (short : m < 2 ^ format.precision)
    (coarse : format.minExponent ≤ e) : b.toRat = m * 2 ^ e := by
  have finer : b.exponent ≤ e := by
    rcases rounds.finest with least | reached
    · omega
    · have digits : (m : ℚ) < 2 ^ format.precision := by exact_mod_cast short
      have power : (m : ℚ) * 2 ^ e < 2 ^ (format.precision + e : Int) := by
        rw [zpow_add₀ two_ne_zero,zpow_natCast]
        gcongr
      have exponents := (zpow_lt_zpow_iff_right₀ one_lt_two).mp (reached.trans_lt power)
      omega
  have whole : ((m * 2 ^ (e - b.exponent).toNat : Nat) : ℚ) = m * 2 ^ e * 2 ^ (-b.exponent) := by
    rw [Nat.cast_mul,Nat.cast_pow,Nat.cast_ofNat,←zpow_natCast,Int.toNat_of_nonneg (by omega),mul_assoc,
      ←zpow_add₀ two_ne_zero]
    rfl
  have nearest := rounds.nearest
  rw [←whole] at nearest
  rw [Binary.toRat_eq,nearest.unique (.of_nat _),whole,value_eq]

end Rounds

theorem round_magnitude (format : Format) (value : ℚ) :
    format.Rounds |value| (format.round value.num.natAbs value.den) := by
  have rounds := format.round_rounds value.num.natAbs value.den_ne_zero
  rwa [Nat.cast_natAbs,Int.cast_abs,←Nat.abs_cast value.den,←abs_div,Rat.num_div_den] at rounds

theorem roundRat_nonneg (format : Format) (nonneg : 0 ≤ value) :
    ∃ b, format.Rounds value b ∧ format.roundRat value = b.toRat := by
  have rounds := format.round_magnitude value
  rw [abs_of_nonneg nonneg] at rounds
  exact ⟨_,rounds,if_neg (not_lt.mpr nonneg)⟩

theorem roundRat_neg (format : Format) (negative : value < 0) :
    ∃ b, format.Rounds (-value) b ∧ format.roundRat value = -b.toRat := by
  have rounds := format.round_magnitude value
  rw [abs_of_neg negative] at rounds
  exact ⟨_,rounds,if_pos negative⟩

theorem roundRat_mono (proper : 0 < format.precision) : Monotone format.roundRat := by
  intro value other ordered
  rcases lt_or_ge value 0 with negative | nonneg
  · obtain ⟨b,low,same⟩ := roundRat_neg format negative
    rcases lt_or_ge other 0 with alike | above
    · obtain ⟨c,high,equal⟩ := roundRat_neg format alike
      rw [same,equal]
      exact neg_le_neg (high.mono low (neg_le_neg ordered) proper)
    · obtain ⟨c,_,equal⟩ := roundRat_nonneg format above
      rw [same,equal]
      exact (neg_nonpos.mpr b.toRat_nonneg).trans c.toRat_nonneg
  · obtain ⟨b,low,same⟩ := roundRat_nonneg format nonneg
    obtain ⟨c,high,equal⟩ := roundRat_nonneg format (nonneg.trans ordered)
    rw [same,equal]
    exact low.mono high ordered proper

end Format
end LiveMaps.Number
