import LiveMaps.Proofs.Number.Layouts
import LiveMaps.Proofs.Number.Reading
import LiveMaps.Proofs.Number.Singles

namespace LiveMaps.Number
open Decimal

theorem Binary.toRat_finer (b : Binary) (share : Nat) :
    b.toRat = (b.significand * 2 ^ share : Nat) * 2 ^ (b.exponent - share) := by
  rw [toRat_eq,Nat.cast_mul,Nat.cast_pow,Nat.cast_ofNat,mul_assoc,←zpow_natCast,←zpow_add₀ two_ne_zero,
    add_sub_cancel]

namespace Single
variable {x : Single} {q v : ℚ} {b : Binary}

-- A number of twenty-five bits whose unit is its distance from `x`.
structure Borders (x : Single) (q : ℚ) (m : Nat) (s : Int) : Prop where
  value : q = m * 2 ^ s
  short : m < 2 ^ 25
  fine : -150 ≤ s
  distance : |q - x.magnitude.toRat| = 2 ^ s

theorem high_borders (finite : x.isFinite = true) : ∃ m s, x.Borders (target .single x.magnitude).high m s := by
  have short : x.magnitude.significand < 2 ^ 24 := (magnitude_bounds finite).1
  have fine := x.magnitude_least
  have high : x.magnitude.toRat + 2 ^ (x.magnitude.exponent - 1) =
      ((x.magnitude.significand * 2 ^ 1 + 1 : Nat) : ℚ) * 2 ^ (x.magnitude.exponent - (1 : Nat)) := by
    rw [x.magnitude.toRat_finer 1]
    push_cast
    ring
  refine ⟨_,_,(target_high ..).trans high,?_,?_,?_⟩
  · omega
  · omega
  · rw [target_high,add_sub_cancel_left,abs_of_pos (by positivity)]
    rfl

theorem low_borders (finite : x.isFinite = true) (nonzero : x.magnitude.significand ≠ 0) :
    ∃ m s, x.Borders (target .single x.magnitude).low m s := by
  have short : x.magnitude.significand < 2 ^ 24 := (magnitude_bounds finite).1
  have fine := x.magnitude_least
  obtain ⟨share,same,room,least⟩ : ∃ share : Nat, lowShare .single x.magnitude = share ∧
      x.magnitude.significand * 2 ^ share ≤ 2 ^ 25 ∧ -150 ≤ x.magnitude.exponent - share := by
    unfold lowShare
    split
    · rename_i narrow
      simp only [Format.isNarrow,Bool.and_eq_true,decide_eq_true_eq] at narrow
      obtain ⟨power,coarse⟩ := narrow
      change -149 < x.magnitude.exponent at coarse
      exact ⟨2,rfl,by rw [power]; decide,by omega⟩
    · exact ⟨1,rfl,by omega,by omega⟩
  have some : 0 < x.magnitude.significand * 2 ^ share := by positivity
  have low : x.magnitude.toRat - 2 ^ (x.magnitude.exponent - share) =
      ((x.magnitude.significand * 2 ^ share - 1 : Nat) : ℚ) * 2 ^ (x.magnitude.exponent - share) := by
    rw [x.magnitude.toRat_finer share,Nat.cast_pred some,sub_one_mul]
  have value := target_low .single nonzero
  rw [same] at value
  refine ⟨_,_,value.trans low,?_,least,?_⟩
  · omega
  · rw [value,sub_sub_cancel_left,abs_neg,abs_of_pos (by positivity)]

-- A decimal within one unit in its last place from `x`, near to a border of `x`, has no finer unit than the border.
theorem Borders.coarse {m : Nat} {s : Int} {k : Int} (borders : x.Borders q m s) {r : ℚ}
    (close : |r - x.magnitude.toRat| ≤ 10 ^ k) (near : |r - q| ≤ 2 ^ s * (1 / (5 * 2 ^ 25))) :
    (2 : ℚ) ^ s * (1 - 1 / 2 ^ 27) ≤ 10 ^ k := by
  have unit : (0 : ℚ) < 2 ^ s := by positivity
  have way := abs_sub_le q r x.magnitude.toRat
  rw [borders.distance,abs_sub_comm q r] at way
  norm_num at near ⊢
  linarith

theorem low_least (finite : x.isFinite = true) (nonzero : x.magnitude.significand ≠ 0) :
    (2 : ℚ) ^ (-150 : Int) ≤ (target .single x.magnitude).low := by
  obtain ⟨reach,_⟩ := magnitude_around finite nonzero
  obtain ⟨_,share⟩ := lowShare_bounds .single x.magnitude
  calc (2 : ℚ) ^ (-150 : Int) ≤ 2 ^ (x.magnitude.exponent - 1) := by
        apply zpow_le_zpow_right₀ one_le_two
        have least := x.magnitude_least
        omega
    _ = 1 / 2 * 2 ^ x.magnitude.exponent := zpow_half _
    _ ≤ x.magnitude.toRat - 2 ^ (x.magnitude.exponent - lowShare .single x.magnitude) := by linarith
    _ = (target .single x.magnitude).low := (target_low _ nonzero).symm

theorem held_digits (finite : x.isFinite = true) (nonzero : x.magnitude.significand ≠ 0) {d : Decimal}
    (held : (target .single x.magnitude).Holds d.toRat) : d.digits ≠ 0 := by
  have positive : 0 < d.toRat := ((zpow_pos two_pos _).trans_le (low_least finite nonzero)).trans_le held.low_le
  intro zero
  rw [Decimal.toRat,zero,Nat.cast_zero,zero_mul] at positive
  exact lt_irrefl 0 positive

theorem held_exponent (finite : x.isFinite = true) (nonzero : x.magnitude.significand ≠ 0) {d : Decimal}
    (held : (target .single x.magnitude).Holds d.toRat) (few : d.digits < 2 ^ 31) :
    -60 ≤ d.exponent ∧ d.exponent ≤ 38 := by
  constructor
  · by_contra less
    have power : (10 : ℚ) ^ d.exponent ≤ 10 ^ (-61 : Int) := zpow_le_zpow_right₀ (by norm_num) (by omega)
    have digits : (d.digits : ℚ) ≤ 2 ^ 31 := by exact_mod_cast few.le
    have least := (low_least finite nonzero).trans held.low_le
    have most : d.toRat ≤ 2 ^ 31 * 10 ^ (-61 : Int) := mul_le_mul digits power (by positivity) (by positivity)
    norm_num at least most
    linarith
  · have one : (1 : ℚ) ≤ d.digits := by
      exact_mod_cast Nat.pos_of_ne_zero (held_digits finite nonzero held)
    have limit : (2 : ℚ) ^ (x.magnitude.exponent + (24 : Nat)) ≤ 2 ^ (128 : Int) := by
      apply zpow_le_zpow_right₀ one_le_two
      have coarse := (magnitude_bounds finite).2
      omega
    have power : (10 : ℚ) ^ d.exponent < 10 ^ (39 : Int) := by
      calc (10 : ℚ) ^ d.exponent ≤ d.digits * 10 ^ d.exponent := le_mul_of_one_le_left (by positivity) one
        _ < 2 ^ (128 : Int) := (held_lt finite held).trans_le limit
        _ < 10 ^ (39 : Int) := by norm_num
    have exponent := (zpow_lt_zpow_iff_right₀ (by norm_num)).mp power
    omega

theorem double?_held (finite : x.isFinite = true) (nonzero : x.magnitude.significand ≠ 0) :
    let d := shortest .single .even x.magnitude
    ∃ b, Numeral.double? d.digits d.exponent = some b ∧
      (Numeral.isDirect d.digits d.exponent = true ∨ (target .single x.magnitude).Holds b.toRat) := by
  intro d
  obtain ⟨held,close,few⟩ := shortest_held finite nonzero
  have some := held_digits finite nonzero held
  obtain ⟨fine,coarse⟩ := held_exponent finite nonzero held few
  obtain ⟨b,v,read,rounds,near,exactly⟩ := Numeral.double?_near (few.trans (by decide)) fine (by omega)
  have side {q : ℚ} {m : Nat} {s : Int} (borders : x.Borders q m s) : Numeral.isDirect d.digits d.exponent = true ∨
      compare b.toRat q = compare d.toRat q := by
    rw [borders.value]
    apply Numeral.side_kept rounds near exactly some few coarse borders.short borders.fine
    intro next
    apply borders.coarse close
    rw [borders.value]
    exact next
  obtain ⟨_,_,low⟩ := low_borders finite nonzero
  obtain ⟨_,_,high⟩ := high_borders finite
  refine ⟨b,read,?_⟩
  rcases side low with direct | above
  · exact .inl direct
  · rcases side high with direct | below
    · exact .inl direct
    · exact .inr (held.same_side above below)

theorem ofRatio_read (finite : x.isFinite = true) (nonzero : x.magnitude.significand ≠ 0) {d : Decimal}
    (held : (target .single x.magnitude).Holds d.toRat) (read : Numeral.double? d.digits d.exponent = some b)
    (either : Numeral.isDirect d.digits d.exponent = true ∨ (target .single x.magnitude).Holds b.toRat) :
    ofRatio x.isNegative b.numerator b.denominator = x := by
  rcases either with direct | inside
  · have ratio := shift10_ratio d.digits 1 d.exponent
    rw [Nat.cast_one,div_one] at ratio
    have own : (target .single x.magnitude).Holds
        ((shift10 d.digits 1 d.exponent).1 / (shift10 d.digits 1 d.exponent).2) := by
      rw [ratio]
      exact held
    rw [Numeral.isDirect,read] at direct
    rw [ofRatio,beq_iff_eq.mp direct]
    exact ofRatio_held finite nonzero (shift10_pos one_pos d.digits d.exponent).ne' own
  · exact ofRatio_held finite nonzero b.denominator_pos.ne' inside

theorem double?_whole {d : Nat} (short : d < 10 ^ 13) : ∃ b, Numeral.double? (d * 10) (-1) = some b ∧ b.toRat = d := by
  obtain ⟨b,v,read,rounds,_,exactly⟩ := Numeral.double?_near (d := d * 10) (k := -1) (by omega) (by decide) (by decide)
  have value : v = d * 2 ^ (0 : Int) := by
    rw [exactly (by decide) (by decide)]
    push_cast
    ring
  subst value
  refine ⟨b,read,(rounds.exact (short.trans (by decide)) (by decide)).trans ?_⟩
  rw [zpow_zero,mul_one]

theorem single?_zero (finite : x.isFinite = true) (zero : x.magnitude.significand = 0) :
    (Numeral.ofSingle x).single? = some x := by
  have least : x.magnitude = ⟨0,-149⟩ := by
    unfold magnitude at zero ⊢
    split
    · rename_i field
      rw [if_pos field] at zero
      rw [Binary.mk.injEq]
      exact ⟨zero,rfl⟩
    · rename_i field
      rw [if_neg field] at zero
      dsimp only at zero
      omega
  have written : Numeral.ofSingle x = ⟨x.isNegative,0,[0],none⟩ := by
    rw [Numeral.ofSingle,least]
    rfl
  have read : Numeral.double? 0 (-1) = some ⟨0,-1074⟩ := by decide
  have own := ofBinary_magnitude finite
  rw [least] at own
  have parts : (⟨x.isNegative,0,[0],none⟩ : Numeral).parts = (0,-1) :=
    Numeral.parts_eq (show 0 < Numeral.wordLimit by decide)
  have notword : (⟨x.isNegative,0,[0],none⟩ : Numeral).isWord = false := rfl
  rw [written,Numeral.single?,notword,if_neg Bool.false_ne_true,parts]
  dsimp only
  rw [read]
  exact congrArg some own

-- What is written of a number is read back as it, though it is read as a double first.
theorem single?_written (finite : x.isFinite = true) : (Numeral.ofSingle x).single? = some x := by
  by_cases zero : x.magnitude.significand = 0
  · exact single?_zero finite zero
  · obtain ⟨held,_,few⟩ := shortest_held finite zero
    obtain ⟨b,read,either⟩ := double?_held finite zero
    have own := ofRatio_read finite zero held read either
    generalize written : shortest .single .even x.magnitude = d at *
    have negative := Numeral.ofDecimal_negative .single x.isNegative d
    obtain ⟨notword,parts⟩ := Numeral.ofDecimal_parts .single x.isNegative (held_digits finite zero held)
      (few.trans (by decide)) (by decide)
    rw [Numeral.ofSingle,written,Numeral.single?,notword]
    dsimp only
    rw [if_neg Bool.false_ne_true,negative]
    rcases parts with plain | ⟨up,short,whole⟩
    · rw [plain,read]
      exact congrArg some own
    · obtain ⟨c,read,value⟩ := double?_whole (d := d.digits * 10 ^ d.exponent.toNat) short
      have same : (c.numerator : ℚ) / c.denominator = d.toRat := by
        rw [←Binary.toRat,value,Decimal.toRat,←Int.toNat_of_nonneg up,Int.toNat_natCast,zpow_natCast,Nat.cast_mul,
          Nat.cast_pow]
        rfl
      rw [whole,read]
      rw [←same] at held
      exact congrArg some (ofRatio_held finite zero c.denominator_pos.ne' held)

end Single
end LiveMaps.Number
