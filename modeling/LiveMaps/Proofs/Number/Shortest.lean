import LiveMaps.Proofs.Number.Nearest

namespace LiveMaps.Number

theorem zpow_le_iff {a b : Nat} (first : 0 < a) (second : 0 < b) (i j : Int) :
    (a : ℚ) ^ i ≤ b ^ j ↔ a ^ i.toNat * b ^ (-j).toNat ≤ b ^ j.toNat * a ^ (-i).toNat := by
  have below : (0 : ℚ) < a := by exact_mod_cast first
  have above : (0 : ℚ) < b := by exact_mod_cast second
  rw [zpow_parts,zpow_parts (b : ℚ),div_le_div_iff₀ (by positivity) (by positivity)]
  exact_mod_cast Iff.rfl

namespace Decimal

namespace Target
variable {t : Target} {q : ℚ}

def low (t : Target) : ℚ := t.lower / t.unit
def middle (t : Target) : ℚ := t.value / t.unit
def high (t : Target) : ℚ := t.upper / t.unit

structure Holds (t : Target) (q : ℚ) : Prop where
  above : t.low < q ∨ t.closed = true ∧ q = t.low
  below : q < t.high ∨ t.closed = true ∧ q = t.high

theorem Holds.low_le (held : t.Holds q) : t.low ≤ q := by
  rcases held.above with inside | ⟨_,last⟩
  · exact inside.le
  · exact last.ge

theorem Holds.le_high (held : t.Holds q) : q ≤ t.high := by
  rcases held.below with inside | ⟨_,last⟩
  · exact inside.le
  · exact last.le

-- What lies to the ends as something of the interval does is in it.
theorem Holds.same_side {r : ℚ} (held : t.Holds q) (least : compare r t.low = compare q t.low)
    (most : compare r t.high = compare q t.high) : t.Holds r := by
  constructor
  · rcases held.above with inside | ⟨closed,last⟩
    · rw [compare_gt_iff_gt.mpr inside,compare_gt_iff_gt] at least
      exact .inl least
    · rw [compare_eq_iff_eq.mpr last,compare_eq_iff_eq] at least
      exact .inr ⟨closed,least⟩
  · rcases held.below with inside | ⟨closed,last⟩
    · rw [compare_lt_iff_lt.mpr inside,compare_lt_iff_lt] at most
      exact .inl most
    · rw [compare_eq_iff_eq.mpr last,compare_eq_iff_eq] at most
      exact .inr ⟨closed,most⟩

theorem contains_iff (proper : 0 < t.unit) {n d : Nat} (below : 0 < d) :
    t.contains n d = true ↔ t.Holds (n / d) := by
  have unit : (0 : ℚ) < t.unit := by exact_mod_cast proper
  have positive : (0 : ℚ) < d := by exact_mod_cast below
  have least : t.lower * d ≤ n * t.unit ↔ t.low ≤ n / d := by
    rw [low,div_le_div_iff₀ unit positive]
    exact_mod_cast Iff.rfl
  have most : n * t.unit ≤ t.upper * d ↔ (n / d : ℚ) ≤ t.high := by
    rw [high,div_le_div_iff₀ positive unit]
    exact_mod_cast Iff.rfl
  have beyond : t.lower * d < n * t.unit ↔ t.low < n / d := by
    rw [low,div_lt_div_iff₀ unit positive]
    exact_mod_cast Iff.rfl
  have under : n * t.unit < t.upper * d ↔ (n / d : ℚ) < t.high := by
    rw [high,div_lt_div_iff₀ positive unit]
    exact_mod_cast Iff.rfl
  unfold contains
  split
  · rename_i closed
    rw [Bool.and_eq_true,decide_eq_true_eq,decide_eq_true_eq,least,most]
    constructor
    · rintro ⟨first,last⟩
      exact ⟨first.lt_or_eq.imp_right fun same => ⟨closed,same.symm⟩,last.lt_or_eq.imp_right fun same => ⟨closed,same⟩⟩
    · intro held
      exact ⟨held.low_le,held.le_high⟩
  · rename_i opened
    rw [Bool.and_eq_true,decide_eq_true_eq,decide_eq_true_eq,beyond,under]
    constructor
    · rintro ⟨first,last⟩
      exact ⟨.inl first,.inl last⟩
    · intro held
      exact ⟨held.above.resolve_right fun ⟨closed,_⟩ => opened closed,
        held.below.resolve_right fun ⟨closed,_⟩ => opened closed⟩

theorem grid_toRat (k : Nat) (e : Int) : (⟨k,e⟩ : Decimal).toRat = k * 10 ^ e := rfl

theorem inside_iff (proper : 0 < t.unit) (k : Nat) (e : Int) :
    t.contains (shift10 k 1 e).1 (shift10 k 1 e).2 = true ↔ t.Holds (⟨k,e⟩ : Decimal).toRat := by
  have ratio := shift10_ratio k 1 e
  rw [Nat.cast_one,div_one] at ratio
  rw [contains_iff proper (shift10_pos one_pos k e),ratio,grid_toRat]

theorem grid_apart (t : Target) (k : Nat) (e : Int) {r : ℚ} (near : |k - t.middle * 10 ^ (-e)| ≤ r) :
    |(⟨k,e⟩ : Decimal).toRat - t.middle| ≤ r * 10 ^ e := by
  have power : (0 : ℚ) < 10 ^ e := by positivity
  have back : t.middle * 10 ^ (-e) * 10 ^ e = t.middle := by
    rw [mul_assoc,←zpow_add₀ (by norm_num),neg_add_cancel,zpow_zero,mul_one]
  calc |(⟨k,e⟩ : Decimal).toRat - t.middle| = |(k - t.middle * 10 ^ (-e)) * 10 ^ e| := by
        rw [sub_mul,back,grid_toRat]
    _ = |k - t.middle * 10 ^ (-e)| * 10 ^ e := by rw [abs_mul,abs_of_pos power]
    _ ≤ r * 10 ^ e := by gcongr

theorem onGrid_chosen (proper : 0 < t.unit) {e : Int} {d : Decimal} (chosen : t.onGrid .even e = some d) :
    d.exponent = e ∧ t.Holds d.toRat ∧ |d.toRat - t.middle| ≤ 10 ^ e := by
  have ratio : ((shift10 t.value t.unit (-e)).1 : ℚ) / (shift10 t.value t.unit (-e)).2 = t.middle * 10 ^ (-e) :=
    shift10_ratio ..
  have positive := shift10_pos proper t.value (-e)
  unfold onGrid at chosen
  dsimp only at chosen
  generalize shift10 t.value t.unit (-e) = fraction at chosen ratio positive
  obtain ⟨n,m⟩ := fraction
  dsimp only at chosen ratio positive
  have neighbour (k : Nat) (either : k = n / m ∨ k = n / m + 1)
      (inside : t.contains (shift10 k 1 e).1 (shift10 k 1 e).2 = true) :
      t.Holds (⟨k,e⟩ : Decimal).toRat ∧ |(⟨k,e⟩ : Decimal).toRat - t.middle| ≤ 10 ^ e := by
    refine ⟨(inside_iff proper k e).mp inside,?_⟩
    have start : ((n / m : Nat) : ℚ) ≤ n / m := Nat.cast_div_le
    have next : (n / m : ℚ) < (n / m : Nat) + 1 := by
      rw [div_lt_iff₀ (by exact_mod_cast positive)]
      exact_mod_cast Nat.lt_mul_of_div_lt (Nat.lt_succ_self _) positive
    rw [←one_mul ((10 : ℚ) ^ e)]
    apply t.grid_apart
    rw [←ratio,abs_le]
    rcases either with rfl | rfl
    · constructor
      · linarith
      · linarith
    · rw [Nat.cast_add,Nat.cast_one]
      constructor
      · linarith
      · linarith
  have nearer : nearestEven n m = n / m ∨ nearestEven n m = n / m + 1 := by
    simp only [nearestEven]
    split
    · exact .inl rfl
    · split
      · omega
      · exact .inr rfl
  change (if t.contains (shift10 (nearestEven n m) 1 e).1 (shift10 (nearestEven n m) 1 e).2 = true then _ else _) = _
    at chosen
  rcases ite_eq_iff.mp chosen with ⟨inside,found⟩ | ⟨_,rest⟩
  · cases found
    exact ⟨rfl,neighbour _ nearer inside⟩
  · rcases ite_eq_iff.mp rest with ⟨inside,found⟩ | ⟨_,missing⟩
    · cases found
      exact ⟨rfl,neighbour _ (ite_eq_or_eq _ _ _).symm inside⟩
    · cases missing

theorem onGrid_found (proper : 0 < t.unit) {e : Int} (room : ∀ q, |q - t.middle| ≤ 1 / 2 * 10 ^ e → t.Holds q) :
    ∃ d, t.onGrid .even e = some d := by
  have ratio : ((shift10 t.value t.unit (-e)).1 : ℚ) / (shift10 t.value t.unit (-e)).2 = t.middle * 10 ^ (-e) :=
    shift10_ratio ..
  have positive := shift10_pos proper t.value (-e)
  unfold onGrid
  dsimp only
  generalize shift10 t.value t.unit (-e) = fraction at ratio positive ⊢
  obtain ⟨n,m⟩ := fraction
  dsimp only at ratio positive ⊢
  have nearest := nearestEven_nearest n positive.ne'
  have inside : t.contains (shift10 (nearestEven n m) 1 e).1 (shift10 (nearestEven n m) 1 e).2 = true := by
    apply (inside_iff proper _ e).mpr
    apply room
    apply t.grid_apart
    rw [←ratio,abs_le]
    have above := nearest.above
    have below := nearest.below
    constructor
    · linarith
    · linarith
  exact ⟨⟨nearestEven n m,e⟩,if_pos inside⟩

end Target

def guess (k : Int) : Int := k * 30103 / 100000

theorem guess_reach : ∀ i : Nat, i < 280 →
    10 ^ (guess (i - 150) - 2).toNat * 2 ^ (-(i - 150) : Int).toNat ≤
      2 ^ (i - 150 : Int).toNat * 10 ^ (-(guess (i - 150) - 2)).toNat := by
  decide +kernel

theorem guess_room : ∀ i : Nat, i < 280 →
    2 ^ (i - 150 + 1 : Int).toNat * 10 ^ (-(guess (i - 150) + 3)).toNat ≤
      10 ^ (guess (i - 150) + 3).toNat * 2 ^ (-(i - 150 + 1) : Int).toNat := by
  decide +kernel

theorem guess_around {k : Int} (fine : -150 ≤ k) (coarse : k < 130) :
    (10 : ℚ) ^ (guess k - 2) ≤ 2 ^ k ∧ (2 : ℚ) ^ (k + 1) ≤ 10 ^ (guess k + 3) := by
  obtain ⟨i,rfl⟩ : ∃ i : Nat, k = i - 150 := ⟨(k + 150).toNat,by omega⟩
  have small : i < 280 := by omega
  exact ⟨(zpow_le_iff (by decide : 0 < 10) two_pos _ _).mpr (guess_reach i small),
    (zpow_le_iff two_pos (by decide : 0 < 10) _ _).mpr (guess_room i small)⟩

def Target.isBelow (t : Target) (e : Int) : Bool := t.value * (shift10 1 1 e).2 < (shift10 1 1 e).1 * t.unit

theorem Target.isBelow_iff {t : Target} (proper : 0 < t.unit) (e : Int) : t.isBelow e = true ↔ t.middle < 10 ^ e := by
  have ratio := shift10_ratio 1 1 e
  rw [Nat.cast_one,div_one,one_mul] at ratio
  rw [isBelow,decide_eq_true_eq,middle,←ratio,div_lt_div_iff₀ (by exact_mod_cast proper)
    (by exact_mod_cast shift10_pos one_pos 1 e)]
  exact_mod_cast Iff.rfl

theorem topExponent_around {t : Target} (proper : 0 < t.unit) (positive : 0 < t.value)
    (fine : (2 : ℚ) ^ (-149 : Int) ≤ t.middle) (coarse : t.middle < 2 ^ (129 : Int)) :
    (10 : ℚ) ^ (t.topExponent - 1) ≤ t.middle ∧ t.middle < 10 ^ t.topExponent := by
  obtain ⟨least,most⟩ := magnitude_bounds positive.ne' proper.ne'
  have low := (zpow_lt_zpow_iff_right₀ one_lt_two).mp (fine.trans_lt most)
  have high := (zpow_lt_zpow_iff_right₀ one_lt_two).mp (least.trans_lt coarse)
  obtain ⟨reach,room⟩ := guess_around (k := magnitude t.value t.unit) (by omega) (by omega)
  have top : t.topExponent = guess (magnitude t.value t.unit) + (((List.range 5).find? fun k =>
      t.isBelow (guess (magnitude t.value t.unit) + (k : Nat) - 1)).getD 5 : Nat) - 1 := rfl
  generalize guess (magnitude t.value t.unit) = start at reach room top
  rw [top]
  cases search : (List.range 5).find? fun k => t.isBelow (start + (k : Nat) - 1) with
  | none =>
    have missed := List.find?_eq_none.mp search 4 (by decide)
    have last : start + (4 : Nat) - 1 = start + 3 := by omega
    rw [Target.isBelow_iff proper,last] at missed
    exact absurd (most.trans_le room) missed
  | some k =>
    obtain ⟨inside,_,earlier⟩ := List.find?_range_eq_some.mp search
    refine ⟨?_,(Target.isBelow_iff proper _).mp inside⟩
    rw [Option.getD_some]
    cases k with
    | zero =>
      have first : start + (0 : Nat) - 1 - 1 = start - 2 := by omega
      rw [first]
      exact reach.trans least
    | succ k =>
      have before := earlier k (Nat.lt_succ_self k)
      have step : start + (k + 1 : Nat) - 1 - 1 = start + k - 1 := by omega
      rw [Bool.not_eq_true',←Bool.not_eq_true,Target.isBelow_iff proper,not_lt] at before
      rw [step]
      exact before

theorem normal_parts (fuel : Nat) (d : Decimal) :
    d.exponent ≤ (normal fuel d).exponent ∧ (normal fuel d).digits ≤ d.digits := by
  induction fuel generalizing d with
  | zero => exact ⟨le_refl _,le_refl _⟩
  | succ fuel ih =>
    rw [normal]
    split
    · obtain ⟨coarser,shorter⟩ := ih ⟨d.digits / 10,d.exponent + 1⟩
      dsimp only at coarser shorter
      exact ⟨by omega,by omega⟩
    · exact ⟨le_refl _,le_refl _⟩

def lowShare (format : Format) (b : Binary) : Int := if format.isNarrow b then 2 else 1

theorem target_unit (format : Format) (b : Binary) : 0 < (target format b).unit := scale_pos one_pos _ _

theorem target_middle (format : Format) (b : Binary) : (target format b).middle = b.toRat := by
  have ratio := scale_ratio 1 1 (b.exponent - 2)
  rw [Nat.cast_one,div_one,one_mul,zpow_sub₀ two_ne_zero] at ratio
  simp only [Target.middle,target]
  rw [Nat.cast_mul,mul_div_assoc,ratio,Binary.toRat_eq]
  push_cast
  ring

theorem target_high (format : Format) (b : Binary) : (target format b).high = b.toRat + 2 ^ (b.exponent - 1) := by
  have ratio := scale_ratio 1 1 (b.exponent - 2)
  rw [Nat.cast_one,div_one,one_mul,zpow_sub₀ two_ne_zero] at ratio
  simp only [Target.high,target]
  rw [Nat.cast_mul,mul_div_assoc,ratio,Binary.toRat_eq,zpow_half]
  push_cast
  ring

theorem target_low (format : Format) {b : Binary} (nonzero : b.significand ≠ 0) :
    (target format b).low = b.toRat - 2 ^ (b.exponent - lowShare format b) := by
  have ratio := scale_ratio 1 1 (b.exponent - 2)
  rw [Nat.cast_one,div_one,one_mul,zpow_sub₀ two_ne_zero] at ratio
  simp only [Target.low,target]
  rw [Nat.cast_mul,mul_div_assoc,ratio,Binary.toRat_eq,lowShare]
  split
  · rw [Nat.cast_sub (by omega),zpow_sub₀ two_ne_zero]
    push_cast
    ring
  · rw [Nat.cast_sub (by omega),zpow_sub₀ two_ne_zero]
    push_cast
    ring

theorem lowShare_bounds (format : Format) (b : Binary) :
    1 / 4 * (2 : ℚ) ^ b.exponent ≤ 2 ^ (b.exponent - lowShare format b) ∧
      (2 : ℚ) ^ (b.exponent - lowShare format b) ≤ 1 / 2 * 2 ^ b.exponent := by
  have quarter : (2 : ℚ) ^ (b.exponent - 2) = 1 / 4 * 2 ^ b.exponent := by
    rw [zpow_sub₀ two_ne_zero]
    ring
  rw [←quarter,←zpow_half]
  constructor
  · apply zpow_le_zpow_right₀ one_le_two
    unfold lowShare
    split <;> omega
  · apply zpow_le_zpow_right₀ one_le_two
    unfold lowShare
    split <;> omega

end Decimal

namespace Single
variable {x : Single}
open Decimal

theorem magnitude_least (x : Single) : -149 ≤ x.magnitude.exponent := by
  unfold magnitude
  split
  · exact le_refl _
  · dsimp only
    omega

theorem magnitude_around (finite : x.isFinite = true) (nonzero : x.magnitude.significand ≠ 0) :
    2 ^ x.magnitude.exponent ≤ x.magnitude.toRat ∧ x.magnitude.toRat < 2 ^ 24 * 2 ^ x.magnitude.exponent := by
  have unit : (0 : ℚ) < 2 ^ x.magnitude.exponent := by positivity
  have least : (1 : ℚ) ≤ x.magnitude.significand := by exact_mod_cast Nat.pos_of_ne_zero nonzero
  have most : (x.magnitude.significand : ℚ) < 2 ^ 24 := by exact_mod_cast (magnitude_bounds finite).1
  rw [Binary.toRat_eq]
  exact ⟨le_mul_of_one_le_left unit.le least,mul_lt_mul_of_pos_right most unit⟩

theorem topExponent_magnitude (finite : x.isFinite = true) (nonzero : x.magnitude.significand ≠ 0) :
    (10 : ℚ) ^ ((target .single x.magnitude).topExponent - 1) ≤ x.magnitude.toRat ∧
      x.magnitude.toRat < 10 ^ (target .single x.magnitude).topExponent := by
  obtain ⟨reach,room⟩ := magnitude_around finite nonzero
  have fine := x.magnitude_least
  have coarse := (magnitude_bounds finite).2
  have proper := target_unit .single x.magnitude
  have middle := target_middle .single x.magnitude
  have positive : 0 < (target .single x.magnitude).value := by
    by_contra zero
    rw [Target.middle,Nat.eq_zero_of_not_pos zero,Nat.cast_zero,zero_div] at middle
    exact absurd (reach.trans middle.ge) (not_le.mpr (by positivity))
  rw [←middle] at reach room ⊢
  apply topExponent_around proper positive
  · apply le_trans _ reach
    exact zpow_le_zpow_right₀ one_le_two fine
  · apply room.trans_le
    rw [←zpow_natCast,←zpow_add₀ two_ne_zero]
    apply zpow_le_zpow_right₀ one_le_two
    omega

-- Nine digits suffice: their last place is much shorter than the interval.
theorem onGrid_nine (finite : x.isFinite = true) (nonzero : x.magnitude.significand ≠ 0) :
    ∃ d, (target .single x.magnitude).onGrid .even ((target .single x.magnitude).topExponent - 9) = some d := by
  obtain ⟨_,room⟩ := magnitude_around finite nonzero
  obtain ⟨least,_⟩ := topExponent_magnitude finite nonzero
  obtain ⟨below,_⟩ := lowShare_bounds .single x.magnitude
  have step : (10 : ℚ) ^ ((target .single x.magnitude).topExponent - 9) =
      10 ^ ((target .single x.magnitude).topExponent - 1) / 100000000 := by
    have split : (target .single x.magnitude).topExponent - 9 = (target .single x.magnitude).topExponent - 1 - 8 := by
      omega
    rw [split,zpow_sub₀ (by norm_num : (10 : ℚ) ≠ 0) _ 8]
    norm_num
  apply Target.onGrid_found (target_unit .single x.magnitude)
  intro q near
  rw [step,target_middle,abs_le] at near
  norm_num at room
  constructor
  · left
    rw [target_low _ nonzero]
    linarith
  · left
    rw [target_high,zpow_half]
    linarith

theorem shortest_held (finite : x.isFinite = true) (nonzero : x.magnitude.significand ≠ 0) :
    let d := shortest .single .even x.magnitude
    (target .single x.magnitude).Holds d.toRat ∧ |d.toRat - x.magnitude.toRat| ≤ 10 ^ d.exponent ∧
      d.digits < 2 ^ 31 := by
  obtain ⟨reach,_⟩ := magnitude_around finite nonzero
  obtain ⟨_,top⟩ := topExponent_magnitude finite nonzero
  have plain : Format.single.carried x.magnitude = x.magnitude := if_neg (Nat.ne_of_lt (magnitude_bounds finite).1)
  have nine : Format.single.digits = 9 := by decide
  unfold shortest
  rw [if_neg nonzero]
  dsimp only
  rw [plain,nine]
  split
  · rename_i d found
    obtain ⟨_,n,_,listed,chosen,_⟩ := List.findSome?_eq_some_iff.mp found
    obtain ⟨exponent,held,near⟩ := Target.onGrid_chosen (target_unit .single x.magnitude) chosen
    obtain ⟨coarser,shorter⟩ := normal_parts 9 d
    rw [target_middle] at near
    rw [normal_toRat]
    refine ⟨held,?_,shorter.trans_lt ?_⟩
    · apply near.trans
      apply zpow_le_zpow_right₀ (by norm_num)
      omega
    · -- The value is less than nine places above the last digit, and the decimal not much more.
      have last : n < 9 := List.mem_range.mp (by simp [listed])
      have scale : (10 : ℚ) ^ (target .single x.magnitude).topExponent ≤ 10 ^ d.exponent * 10 ^ (9 : Int) := by
        rw [←zpow_add₀ (by norm_num)]
        apply zpow_le_zpow_right₀ (by norm_num)
        omega
      have most := held.le_high
      have power : (0 : ℚ) < 10 ^ d.exponent := by positivity
      rw [target_high,zpow_half,Decimal.toRat] at most
      norm_num at scale
      have bound : (d.digits : ℚ) * 10 ^ d.exponent < 2 ^ 31 * 10 ^ d.exponent := by linarith
      exact_mod_cast lt_of_mul_lt_mul_right bound power.le
  · rename_i missing
    obtain ⟨d,chosen⟩ := onGrid_nine finite nonzero
    have missed := List.findSome?_eq_none_iff.mp missing 8 (by decide)
    cases missed.symm.trans chosen

end Single
end LiveMaps.Number
