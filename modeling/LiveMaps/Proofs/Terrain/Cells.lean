import LiveMaps.Proofs.Number.Nearest
import LiveMaps.Terrain.Grid
import Mathlib.Data.Rat.Floor
import Mathlib.Order.Interval.Set.Basic

namespace LiveMaps.Terrain
open Number
variable {x y : ℚ} {n : Int}

theorem gridSize_eq : gridSize = 2345624805907473 / 4398046511104 := by decide +kernel

theorem gridSize_pos : 0 < gridSize := by
  rw [gridSize_eq]
  norm_num

theorem truncate_nonneg (nonneg : 0 ≤ x) : truncate x = ⌊x⌋ := by
  rw [truncate,Int.tdiv_eq_ediv_of_nonneg (Rat.num_nonneg.mpr nonneg),Rat.floor_def']

theorem truncate_nonpos (nonpos : x ≤ 0) : truncate x = ⌈x⌉ := by
  have mirrored := truncate_nonneg (neg_nonneg.mpr nonpos)
  rw [truncate,Rat.neg_num,Rat.neg_den,Int.neg_tdiv,Int.floor_neg,neg_inj] at mirrored
  exact mirrored

theorem truncate_lt (positive : 0 < n) : truncate x < n ↔ x < n := by
  rcases le_total 0 x with nonneg | nonpos
  · rw [truncate_nonneg nonneg,Int.floor_lt]
  · have least : ⌈x⌉ ≤ 0 := Int.ceil_le.mpr (by exact_mod_cast nonpos)
    have bound : (0 : ℚ) < n := by exact_mod_cast positive
    rw [truncate_nonpos nonpos]
    exact iff_of_true (least.trans_lt positive) (nonpos.trans_lt bound)

theorem lt_truncate (negative : n < 0) : n < truncate x ↔ n < x := by
  rcases le_total x 0 with nonpos | nonneg
  · rw [truncate_nonpos nonpos,Int.lt_ceil]
  · have most : 0 ≤ ⌊x⌋ := Int.floor_nonneg.mpr nonneg
    have bound : (n : ℚ) < 0 := by exact_mod_cast negative
    rw [truncate_nonneg nonneg]
    exact iff_of_true (negative.trans_le most) (bound.trans_le nonneg)

-- Which values are cut off to `n`: to zero those of two units, and to any other number those of one.
def cutTo (n : Int) : Set ℚ :=
  if 0 < n then Set.Ico n (n + 1) else if n < 0 then Set.Ioc (n - 1) n else Set.Ioo (-1) 1

theorem truncate_eq_iff : truncate x = n ↔ x ∈ cutTo n := by
  have inner : truncate x = n ↔ n - 1 < truncate x ∧ truncate x < n + 1 := by omega
  unfold cutTo
  split
  · rename_i positive
    have least : n - 1 < truncate x ↔ (n : ℚ) ≤ x := by
      rw [←not_lt,←truncate_lt positive]
      omega
    have next := truncate_lt (x := x) (by omega : 0 < n + 1)
    rw [inner,least,next,Set.mem_Ico,Int.cast_add,Int.cast_one]
  · split
    · rename_i negative
      have most : truncate x < n + 1 ↔ x ≤ n := by
        rw [←not_lt,←lt_truncate negative]
        omega
      have last := lt_truncate (x := x) (by omega : n - 1 < 0)
      rw [inner,most,last,Set.mem_Ioc,Int.cast_sub,Int.cast_one]
    · have zero : n = 0 := by omega
      have next := truncate_lt (x := x) Int.one_pos
      have last := lt_truncate (x := x) (by decide : (-1 : Int) < 0)
      rw [zero] at inner ⊢
      rw [inner,zero_sub,zero_add,next,last,Set.mem_Ioo,Int.cast_neg,Int.cast_one]

def indexAt (rounding : ℚ → ℚ) (x : ℚ) : Int := clamp (truncate (gridOffset rounding x))

def Cell.exact (x y : ℚ) : Cell := ⟨indexAt id x,indexAt id y⟩

theorem Cell.tile?_isSome {cell : Cell} : cell.tile?.isSome = true ↔
    (0 ≤ cell.x ∧ cell.x < gridCount) ∧ (0 ≤ cell.y ∧ cell.y < gridCount) := by
  rw [Cell.tile?,Option.isSome_ite]
  simp only [flipped,gridCount]
  omega

-- An axis begins one grid lower than it should, since there the fraction is cut off upward.
theorem indexAt_within (rounding : ℚ → ℚ) (x : ℚ) :
    (0 ≤ indexAt rounding x ∧ indexAt rounding x < gridCount) ↔
      (-1 < gridOffset rounding x ∧ gridOffset rounding x < 64) := by
  have first := lt_truncate (x := gridOffset rounding x) (by decide : (-1 : Int) < 0)
  have last := truncate_lt (x := gridOffset rounding x) (by decide : (0 : Int) < 64)
  rw [Int.cast_neg,Int.cast_one] at first
  rw [Int.cast_ofNat] at last
  rw [←first,←last]
  simp only [indexAt,clamp,wordMin,wordMax,gridCount]
  omega

theorem gridOffset_exact (x : ℚ) : gridOffset id x = x / gridSize + 32 := by
  have proper := gridSize_pos.ne'
  simp only [gridOffset,id_eq]
  field_simp
  ring

theorem le_offset {c : ℚ} : c ≤ gridOffset id x ↔ (c - 32) * gridSize ≤ x := by
  rw [gridOffset_exact,←sub_le_iff_le_add,le_div_iff₀ gridSize_pos]

theorem lt_offset {c : ℚ} : c < gridOffset id x ↔ (c - 32) * gridSize < x := by
  rw [gridOffset_exact,←sub_lt_iff_lt_add,lt_div_iff₀ gridSize_pos]

theorem offset_le {c : ℚ} : gridOffset id x ≤ c ↔ x ≤ (c - 32) * gridSize := by
  rw [←not_lt,lt_offset,not_lt]

theorem offset_lt {c : ℚ} : gridOffset id x < c ↔ x < (c - 32) * gridSize := by
  rw [←not_le,le_offset,not_le]

def extent (n : Int) : Set ℚ :=
  if 0 < n then Set.Ico ((n - 32) * gridSize) ((n - 31) * gridSize)
  else if n < 0 then Set.Ioc ((n - 33) * gridSize) ((n - 32) * gridSize)
  else Set.Ioo (-33 * gridSize) (-31 * gridSize)

theorem mem_extent : x ∈ extent n ↔ gridOffset id x ∈ cutTo n := by
  unfold extent cutTo
  split
  · rw [Set.mem_Ico,Set.mem_Ico,le_offset,offset_lt]
    ring_nf
  · split
    · rw [Set.mem_Ioc,Set.mem_Ioc,lt_offset,offset_le]
      ring_nf
    · rw [Set.mem_Ioo,Set.mem_Ioo,lt_offset,offset_lt]
      ring_nf

theorem indexAt_exact (above : wordMin < n) (below : n < wordMax) : indexAt id x = n ↔ x ∈ extent n := by
  rw [mem_extent,←truncate_eq_iff]
  simp only [indexAt,clamp,wordMin,wordMax] at *
  omega

def OnMap (x : ℚ) : Prop := -32 * gridSize ≤ x ∧ x < 32 * gridSize
def BelowMap (x : ℚ) : Prop := -33 * gridSize < x ∧ x < -32 * gridSize

instance : DecidablePred OnMap := fun x => inferInstanceAs (Decidable (-32 * gridSize ≤ x ∧ x < 32 * gridSize))
instance : DecidablePred BelowMap := fun x => inferInstanceAs (Decidable (-33 * gridSize < x ∧ x < -32 * gridSize))

theorem covered_iff : OnMap x ∨ BelowMap x ↔ -33 * gridSize < x ∧ x < 32 * gridSize := by
  have positive := gridSize_pos
  constructor
  · rintro (⟨least,most⟩ | ⟨least,most⟩)
    · exact ⟨by linarith,most⟩
    · exact ⟨least,by linarith⟩
  · rintro ⟨least,most⟩
    rcases lt_or_ge x (-32 * gridSize) with below | inside
    · exact .inr ⟨least,below⟩
    · exact .inl ⟨inside,most⟩

theorem index_covered : (0 ≤ indexAt id x ∧ indexAt id x < gridCount) ↔ OnMap x ∨ BelowMap x := by
  rw [indexAt_within,lt_offset,offset_lt,covered_iff]
  norm_num

end LiveMaps.Terrain

namespace LiveMaps.Number.Single
variable {a : Single}

theorem abs_toRat (a : Single) : |a.toRat| = a.magnitude.toRat := by
  unfold toRat
  split
  · rw [abs_neg,abs_of_nonneg a.magnitude.toRat_nonneg]
  · exact abs_of_nonneg a.magnitude.toRat_nonneg

-- So far out, a position is a whole multiple of a coarse unit.
theorem whole_units (finite : a.isFinite = true) (far : 2 ^ 14 ≤ |a.toRat|) : ∃ m : Int, a.toRat = m / 512 := by
  obtain ⟨small,_⟩ := magnitude_bounds finite
  rw [abs_toRat,Binary.toRat_eq] at far
  have coarse : -9 ≤ a.magnitude.exponent := by
    by_contra fine
    have power : (2 : ℚ) ^ a.magnitude.exponent ≤ 2 ^ (-10 : Int) := by
      apply zpow_le_zpow_right₀ one_le_two
      omega
    have digits : (a.magnitude.significand : ℚ) < 2 ^ 24 := by
      rw [←twoTo_cast]
      exact_mod_cast small
    have short : (a.magnitude.significand : ℚ) * 2 ^ a.magnitude.exponent < 2 ^ 24 * 2 ^ (-10 : Int) := by
      apply mul_lt_mul digits power (by positivity) (by positivity)
    norm_num at short far
    linarith
  have units : a.magnitude.toRat = (a.magnitude.significand * 2 ^ (a.magnitude.exponent + 9).toNat : Int) / 512 := by
    have power : (2 : ℚ) ^ (a.magnitude.exponent + 9).toNat = 2 ^ a.magnitude.exponent * 512 := by
      rw [←zpow_natCast,Int.toNat_of_nonneg (by omega),zpow_add₀ two_ne_zero]
      norm_num
    rw [Binary.toRat_eq]
    push_cast
    rw [power,←mul_assoc,mul_div_cancel_right₀ _ (by norm_num)]
  unfold toRat
  split
  · exact ⟨_,by rw [units,Int.cast_neg,neg_div]⟩
  · exact ⟨_,units⟩

theorem apart (finite : a.isFinite = true) {m : Int} (far : 2 ^ 23 ≤ m ∨ m + 1 ≤ -2 ^ 23) :
    a.toRat ≤ m / 512 ∨ (m + 1) / 512 ≤ a.toRat := by
  by_contra between
  rw [not_or,not_le,not_le] at between
  obtain ⟨above,below⟩ := between
  have reach : 2 ^ 14 ≤ |a.toRat| := by
    rcases far with high | low
    · have bound : (2 ^ 23 : ℚ) ≤ m := by exact_mod_cast high
      rw [le_abs]
      left
      linarith
    · have bound : (m : ℚ) + 1 ≤ -2 ^ 23 := by exact_mod_cast low
      rw [le_abs]
      right
      linarith
  obtain ⟨k,units⟩ := whole_units finite reach
  rw [units,div_lt_div_iff_of_pos_right (by norm_num)] at above below
  have first : m < k := by exact_mod_cast above
  have last : k < m + 1 := by exact_mod_cast below
  omega

end LiveMaps.Number.Single

namespace LiveMaps.Terrain
open Number
variable {a b : Single}

theorem axisCell_finite (finite : a.isFinite = true) : axisCell a = indexAt Format.double.roundRat a.toRat := by
  have number : a.isNaN = false := by
    simp only [Single.isFinite,Single.isNaN,decide_eq_true_eq,Bool.and_eq_false_iff,beq_eq_false_iff_ne] at *
    omega
  simp only [axisCell,number,finite,Bool.false_eq_true,if_false,if_true,indexAt]

theorem gridOffset_mono : Monotone (gridOffset Format.double.roundRat) := by
  have rounding : Monotone Format.double.roundRat := Format.roundRat_mono (by decide)
  intro x y ordered
  have positive := gridSize_pos
  unfold gridOffset
  dsimp only
  apply rounding
  apply add_le_add_left
  apply rounding
  apply add_le_add_left
  apply rounding
  apply div_le_div_of_nonneg_right _ positive.le
  apply rounding
  linarith

theorem rounded_top (finite : a.isFinite = true) :
    gridOffset Format.double.roundRat a.toRat < 64 ↔ a.toRat < 32 * gridSize := by
  have inside : gridOffset Format.double.roundRat (8738133 / 512) < 64 := by decide +kernel
  have outside : 64 ≤ gridOffset Format.double.roundRat (8738134 / 512) := by decide +kernel
  have neighbours := a.apart finite (m := 8738133) (.inl (by norm_num))
  norm_num at outside neighbours
  rw [gridSize_eq]
  rcases neighbours with low | high
  · exact iff_of_true ((gridOffset_mono low).trans_lt inside) (low.trans_lt (by norm_num))
  · exact iff_of_false (outside.trans (gridOffset_mono high)).not_gt (le_trans (by norm_num) high).not_gt

theorem rounded_bottom (finite : a.isFinite = true) :
    -1 < gridOffset Format.double.roundRat a.toRat ↔ -33 * gridSize < a.toRat := by
  have outside : gridOffset Format.double.roundRat (-9011200 / 512) ≤ -1 := by decide +kernel
  have inside : -1 < gridOffset Format.double.roundRat (-9011199 / 512) := by decide +kernel
  have neighbours := a.apart finite (m := -9011200) (.inr (by norm_num))
  norm_num at outside inside neighbours
  rw [gridSize_eq]
  rcases neighbours with low | high
  · exact iff_of_false ((gridOffset_mono low).trans outside).not_gt (low.trans (by norm_num)).not_gt
  · exact iff_of_true (inside.trans_le (gridOffset_mono high)) (lt_of_lt_of_le (by norm_num) high)

theorem axisCell_covered (finite : a.isFinite = true) :
    (0 ≤ axisCell a ∧ axisCell a < gridCount) ↔ OnMap a.toRat ∨ BelowMap a.toRat := by
  rw [axisCell_finite finite,indexAt_within,rounded_top finite,rounded_bottom finite,covered_iff]

-- On either axis there are tiles for the whole map and for a strip below it, as wide as a grid, which shares
-- its index with the first grid of the map. Rounding moves no position of single precision across the ends.
theorem tile_positions (x y : ℚ) :
    ((Cell.exact x y).tile?.isSome = true ↔ (OnMap x ∨ BelowMap x) ∧ (OnMap y ∨ BelowMap y)) ∧
    (∀ n, wordMin < n → n < wordMax →
      ((Cell.exact x y).x = n ↔ x ∈ extent n) ∧ ((Cell.exact x y).y = n ↔ y ∈ extent n)) ∧
    ∀ a b : Single, a.isFinite = true → b.isFinite = true →
      ((Cell.ofWorld a b).tile?.isSome = true ↔ (Cell.exact a.toRat b.toRat).tile?.isSome = true) := by
  have exact (x y : ℚ) : (Cell.exact x y).tile?.isSome = true ↔ (OnMap x ∨ BelowMap x) ∧ (OnMap y ∨ BelowMap y) := by
    rw [Cell.tile?_isSome,Cell.exact,index_covered,index_covered]
  refine ⟨exact x y,?_,?_⟩
  · intro n above below
    exact ⟨indexAt_exact above below,indexAt_exact above below⟩
  · intro a b finite also
    rw [exact,Cell.tile?_isSome,Cell.ofWorld,axisCell_covered finite,axisCell_covered also]

-- The first position of single precision in the strip and the last one below it.
theorem tile_positions_edge :
    let first : Single := ⟨0xc6897fff⟩
    let last : Single := ⟨0xc6898000⟩
    first.isFinite = true ∧ last.isFinite = true ∧ first.toRat = -9011199 / 512 ∧ last.toRat = -9011200 / 512 ∧
    (Cell.ofWorld first ⟨0⟩).tile?.isSome = true ∧ (Cell.ofWorld last ⟨0⟩).tile?.isSome ≠ true ∧
    wordMin < -1 ∧ -1 < wordMax ∧ (-9011200 / 512 : ℚ) ∈ extent (-1) := by
  intro first last
  have finite : first.isFinite = true ∧ last.isFinite = true ∧ (⟨0⟩ : Single).isFinite = true := by decide
  have values : first.toRat = -9011199 / 512 ∧ last.toRat = -9011200 / 512 := by decide +kernel
  obtain ⟨tiled,_,rounded⟩ := tile_positions first.toRat (⟨0⟩ : Single).toRat
  obtain ⟨bare,indexed,_⟩ := tile_positions last.toRat (⟨0⟩ : Single).toRat
  refine ⟨finite.1,finite.2.1,values.1,values.2,?_,?_,by decide,by decide,?_⟩
  · apply (rounded first ⟨0⟩ finite.1 finite.2.2).mpr
    apply tiled.mpr
    decide +kernel
  · intro found
    have covered := bare.mp ((rounded last ⟨0⟩ finite.2.1 finite.2.2).mp found)
    revert covered
    decide +kernel
  · rw [←values.2]
    apply (indexed (-1) (by decide) (by decide)).1.mp
    decide +kernel

-- A position a quarter of a grid off the map has a tile, and two grids share one index.
theorem tile_below_map :
    let outside : Single := ⟨0xc6866000⟩
    let inside : Single := ⟨0xc681b000⟩
    outside.isFinite = true ∧ outside.toRat = -17200 ∧ inside.toRat = -16600 ∧
    ¬ OnMap outside.toRat ∧ OnMap inside.toRat ∧ gridSize < inside.toRat - outside.toRat ∧
    (Cell.exact outside.toRat 0).tile? = some ⟨63,31⟩ ∧ (Cell.exact inside.toRat 0).tile? = some ⟨63,31⟩ ∧
    (Cell.ofWorld outside ⟨0⟩).tile? = some ⟨63,31⟩ := by
  decide +kernel

end LiveMaps.Terrain
