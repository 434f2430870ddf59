import LiveMaps.Proofs.Number.Nearest

namespace LiveMaps.Number
open Decimal

namespace Numeral

-- Reading a decimal by way of a double comes to what it would be rounded to at once.
def isDirect (d : Nat) (k : Int) : Bool :=
  match double? d k with
  | some b => Format.single.round b.numerator b.denominator ==
      Format.single.round (shift10 d 1 k).1 (shift10 d 1 k).2
  | none => false

end Numeral

def mantissa (k : Int) : Nat × Nat :=
  let (n,d) := shift10 1 1 k
  scale n d (-magnitude n d)

-- The last convergent of `n / d` whose denominator is below the limit; `p / q` and `r / s` are the
-- two before.
def convergent (limit : Nat) : Nat → Nat → Nat → Nat → Nat → Nat → Nat → Nat × Nat
  | 0,_,_,_,_,r,s => (r,s)
  | fuel+1,n,d,p,q,r,s =>
    if d = 0 ∨ limit ≤ n / d * s + q then (r,s)
    else convergent limit fuel d (n % d) r s (n / d * r + p) (n / d * s + q)

-- A fraction `p / q` near to a mantissa `n / d`, by which decimals of at most twenty-five bits keep away
-- from whole numbers: all that are no multiple of `q`, and the multiples as well, unless they are few and
-- each of them is read directly.
def keepsApart (k : Int) : Bool :=
  let (n,d) := mantissa k
  let (p,q) := convergent (2 ^ 26) 60 n d 0 1 1 0
  let gap := (q * n - p * d : Int).natAbs
  decide (d ≤ n) && decide (n * 2 ^ 19 ≤ d * (2 ^ 20 - 1)) && decide (0 < q) && decide (p.Coprime q) &&
    decide (5 * 2 ^ 25 * (2 ^ 25 * gap) + q * d < 5 * 2 ^ 25 * d) &&
    (decide (gap = 0) || decide (d < 5 * 2 ^ 25 * gap) ||
      (List.range (2 ^ 25 / q + 1)).all fun j => (List.range 26).all fun t =>
        decide (j = 0) || decide (¬ 2 ^ t ∣ j * q) || Numeral.isDirect (j * q / 2 ^ t) k)

theorem keepsApart_all : ∀ i : Nat, i < 84 → keepsApart (i - 45) = true := by decide +kernel

theorem mantissa_ratio (k : Int) : ((mantissa k).1 : ℚ) / (mantissa k).2 =
    10 ^ k * 2 ^ (-magnitude (shift10 1 1 k).1 (shift10 1 1 k).2) := by
  have ratio := shift10_ratio 1 1 k
  rw [Nat.cast_one,div_one,one_mul] at ratio
  rw [mantissa,scale_ratio,ratio]

theorem mantissa_pos (k : Int) : 0 < (mantissa k).2 := scale_pos (shift10_pos one_pos 1 k) _ _

-- A multiple of a ratio near to a fraction is itself near to a whole number only if it is a multiple of
-- the fraction's denominator.
theorem multiple_of_near {α η : ℚ} {p q a m : Nat} (coprime : p.Coprime q) (proper : 0 < q)
    (near : |a * α - m| ≤ η) (apart : a * |q * α - p| + q * η < 1) : ∃ j, a = j * q ∧ m = j * p := by
  have positive : (0 : ℚ) < q := by exact_mod_cast proper
  have same : a * p = m * q := by
    by_contra different
    have integers : 1 ≤ |(a : Int) * p - m * q| := Int.one_le_abs (sub_ne_zero.mpr (by exact_mod_cast different))
    have whole : (1 : ℚ) ≤ |(a : ℚ) * p - m * q| := by exact_mod_cast integers
    have bound : |(a : ℚ) * p - m * q| ≤ q * |a * α - m| + a * |q * α - p| := by
      have split : (a : ℚ) * p - m * q = q * (a * α - m) - a * (q * α - p) := by ring
      rw [split]
      apply (abs_sub _ _).trans
      rw [abs_mul,abs_mul,Nat.abs_cast,Nat.abs_cast]
    have scaled := mul_le_mul_of_nonneg_left near positive.le
    linarith
  obtain ⟨j,rfl⟩ : q ∣ a := coprime.symm.dvd_of_dvd_mul_right ⟨m,by rw [same,Nat.mul_comm]⟩
  refine ⟨j,Nat.mul_comm .., ?_⟩
  apply Nat.eq_of_mul_eq_mul_right proper
  rw [←same]
  ring

structure Apart (k : Int) (α : ℚ) (p q : Nat) : Prop where
  least : 1 ≤ α
  most : α * 2 ^ 19 ≤ 2 ^ 20 - 1
  proper : 0 < q
  coprime : p.Coprime q
  tight : 2 ^ 25 * |q * α - p| + q * (1 / (5 * 2 ^ 25)) < 1
  multiples : q * α = p ∨ 1 / (5 * 2 ^ 25) < |q * α - p| ∨ ∀ j ≤ 2 ^ 25 / q, ∀ t < 26,
    j ≠ 0 → 2 ^ t ∣ j * q → Numeral.isDirect (j * q / 2 ^ t) k = true

theorem keepsApart_apart {k : Int} (kept : keepsApart k = true) :
    ∃ α top p q, (10 : ℚ) ^ k = α * 2 ^ (top : Int) ∧ Apart k α p q := by
  have ratio := mantissa_ratio k
  have proper := mantissa_pos k
  simp only [keepsApart] at kept
  generalize magnitude (shift10 1 1 k).1 (shift10 1 1 k).2 = top at ratio
  generalize mantissa k = fraction at kept ratio proper
  obtain ⟨n,c⟩ := fraction
  generalize convergent (2 ^ 26) 60 n c 0 1 1 0 = approximation at kept
  obtain ⟨p,q⟩ := approximation
  simp only [Bool.and_eq_true,Bool.or_eq_true,decide_eq_true_eq] at kept
  obtain ⟨⟨⟨⟨⟨least,most⟩,above⟩,coprime⟩,tight⟩,multiples⟩ := kept
  dsimp only at ratio proper
  have positive : (0 : ℚ) < c := by exact_mod_cast proper
  have distance : |q * (n / c : ℚ) - p| = ((q * n - p * c : Int).natAbs : Nat) / c := by
    have split : q * (n / c : ℚ) - p = (q * n - p * c) / c := by
      field_simp
    rw [split,abs_div,abs_of_pos positive,Nat.cast_natAbs]
    push_cast
    rfl
  generalize (q * n - p * c : Int).natAbs = gap at distance tight multiples
  refine ⟨n / c,top,p,q,?_,?_,?_,above,coprime,?_,?_⟩
  · rw [ratio,mul_assoc,←zpow_add₀ two_ne_zero,neg_add_cancel,zpow_zero,mul_one]
  · rw [one_le_div positive]
    exact_mod_cast least
  · rw [div_mul_eq_mul_div,div_le_iff₀ positive,mul_comm (2 ^ 20 - 1 : ℚ)]
    norm_num at most ⊢
    exact_mod_cast most
  · have cast : (5 * 2 ^ 25 * (2 ^ 25 * gap) + q * c : ℚ) < 5 * 2 ^ 25 * c := by exact_mod_cast tight
    have scaled := mul_lt_mul_of_pos_right cast (by positivity : (0 : ℚ) < 1 / (5 * 2 ^ 25 * c))
    rw [distance]
    field_simp at scaled ⊢
    linarith
  · rcases multiples with (none | large) | listed
    · left
      rw [none,Nat.cast_zero,zero_div,abs_eq_zero] at distance
      exact sub_eq_zero.mp distance
    · right; left
      have cast : (c : ℚ) < 5 * 2 ^ 25 * gap := by exact_mod_cast large
      rw [distance,div_lt_div_iff₀ (by positivity) positive]
      linarith
    · right; right
      intro j few t short nonzero divides
      have first := List.all_eq_true.mp listed j (List.mem_range.mpr (Nat.lt_succ_of_le few))
      have direct := List.all_eq_true.mp first t (List.mem_range.mpr short)
      simp only [Bool.or_eq_true,decide_eq_true_eq] at direct
      exact direct.resolve_left (not_or.mpr ⟨nonzero,not_not.mpr divides⟩)

namespace Apart
variable {k s top : Int} {α : ℚ} {p q d m t : Nat}

theorem exponent_le (apart : Apart k α p q) (power : (10 : ℚ) ^ k = α * 2 ^ top)
    (coarse : (2 : ℚ) ^ s * (1 - 1 / 2 ^ 27) ≤ 10 ^ k) : s ≤ top := by
  by_contra beyond
  have double : 2 * (2 : ℚ) ^ top ≤ 2 ^ s := by
    rw [←zpow_one_add₀ two_ne_zero]
    apply zpow_le_zpow_right₀ one_le_two
    omega
  have positive : (0 : ℚ) < 2 ^ top := by positivity
  have bound := mul_le_mul_of_nonneg_right apart.most positive.le
  rw [power] at coarse
  linarith

theorem shift_lt (apart : Apart k α p q) (small : m < 2 ^ 25)
    (near : |((d * 2 ^ t : Nat) : ℚ) * α - m| ≤ 1 / (5 * 2 ^ 25)) : d * 2 ^ t < 2 ^ 25 := by
  have stretched : ((d * 2 ^ t : Nat) : ℚ) ≤ (d * 2 ^ t : Nat) * α := le_mul_of_one_le_right (by positivity) apart.least
  have most := (abs_le.mp near).2
  have bound : (m : ℚ) + 1 ≤ 2 ^ 25 := by exact_mod_cast small
  have cast : ((d * 2 ^ t : Nat) : ℚ) < (2 ^ 25 : Nat) := by
    push_cast at stretched most ⊢
    linarith
  exact_mod_cast cast

theorem equal_of_near (apart : Apart k α p q) (nonzero : d ≠ 0) (small : m < 2 ^ 25)
    (near : |((d * 2 ^ t : Nat) : ℚ) * α - m| ≤ 1 / (5 * 2 ^ 25)) :
    ((d * 2 ^ t : Nat) : ℚ) * α = m ∨ Numeral.isDirect d k = true := by
  have short := apart.shift_lt small near
  have positive : d * 2 ^ t ≠ 0 := Nat.mul_ne_zero nonzero (by positivity)
  generalize whole : d * 2 ^ t = a at near short positive ⊢
  have tight : a * |q * α - p| + q * (1 / (5 * 2 ^ 25)) < 1 := by
    have cast : (a : ℚ) ≤ 2 ^ 25 := by exact_mod_cast short.le
    have part := mul_le_mul_of_nonneg_right cast (abs_nonneg (q * α - p))
    have room := apart.tight
    linarith
  obtain ⟨j,rfl,rfl⟩ := multiple_of_near apart.coprime apart.proper near tight
  have factored : ((j * q : Nat) : ℚ) * α - (j * p : Nat) = j * (q * α - p) := by
    push_cast
    ring
  have some : j ≠ 0 := left_ne_zero_of_mul positive
  rcases apart.multiples with same | large | listed
  · left
    rw [same,sub_self,mul_zero] at factored
    exact sub_eq_zero.mp factored
  · rw [factored,abs_mul,Nat.abs_cast] at near
    have one : (1 : ℚ) ≤ j := by exact_mod_cast Nat.pos_of_ne_zero some
    have more := le_mul_of_one_le_left (abs_nonneg (q * α - p)) one
    linarith
  · right
    have few : j ≤ 2 ^ 25 / q := (Nat.le_div_iff_mul_le apart.proper).mpr short.le
    have last : t < 26 := by
      have power : 2 ^ t ≤ d * 2 ^ t := Nat.le_mul_of_pos_left _ (Nat.pos_of_ne_zero nonzero)
      have exponent := (Nat.pow_lt_pow_iff_right (by decide)).mp (power.trans_lt (whole.trans_lt short))
      omega
    have direct := listed j few t last some ⟨d,by rw [←whole,Nat.mul_comm]⟩
    rw [←whole,Nat.mul_div_cancel _ (by positivity)] at direct
    exact direct

end Apart

-- A decimal is a number of at most twenty-five bits, or it is not near to it, or it is one of those that are
-- read directly.
theorem equal_of_near {k : Int} (kept : keepsApart k = true) {d m : Nat} {s : Int} (nonzero : d ≠ 0)
    (small : m < 2 ^ 25) (coarse : (2 : ℚ) ^ s * (1 - 1 / 2 ^ 27) ≤ 10 ^ k)
    (near : |d * (10 : ℚ) ^ k - m * 2 ^ s| ≤ 2 ^ s * (1 / (5 * 2 ^ 25))) :
    d * (10 : ℚ) ^ k = m * 2 ^ s ∨ Numeral.isDirect d k = true := by
  obtain ⟨α,top,p,q,power,apart⟩ := keepsApart_apart kept
  have unit : (0 : ℚ) < 2 ^ s := by positivity
  have reach := apart.exponent_le power coarse
  obtain ⟨t,shift⟩ : ∃ t : Nat, top = t + s := ⟨(top - s).toNat,by omega⟩
  have value : d * (10 : ℚ) ^ k = ((d * 2 ^ t : Nat) : ℚ) * α * 2 ^ s := by
    rw [power,shift,zpow_add₀ two_ne_zero,zpow_natCast]
    push_cast
    ring
  rw [value] at near ⊢
  rw [←sub_mul,abs_mul,abs_of_pos unit,mul_comm] at near
  rcases apart.equal_of_near nonzero small (le_of_mul_le_mul_left near unit) with same | direct
  · exact .inl (congrArg (· * (2 : ℚ) ^ s) same)
  · exact .inr direct

end LiveMaps.Number
