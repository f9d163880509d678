import LogicTree.Proofs.Decimal.Reading
import LogicTree.Proofs.Float64.Accumulation

/-! # Products of doubles between zero and one

Doubles between zero and one multiply to the rounded exact product, and rounding keeps the order.
So a product of them lies between zero and one again and is at most each of its factors, also where
it is subnormal. It is zero exactly where the exact product is no more than half of the least
positive double, even if neither factor is zero.
-/

namespace LogicTree.Float64

open Float.Model Float.Model.UnpackedFloat

variable {f g : Float}

/-! ## Rounding below a double -/

theorem toRat_one : toRat 1.0 = 1 := by
  have hparts : parts 1.0 = .finite .positive (2 ^ 52) (-52) (by decide) := rfl
  rw [toRat, hparts, value_positive]
  norm_num

theorem roundedValue_toRat (hf : 0.0 ≤ f) : roundedValue (toRat f) = toRat f := by
  have hf' := zero_le_iff.1 hf
  rw [toRat]
  cases hu : parts f with
  | notANumber | infinity | zero => exact roundedValue_zero
  | finite s m e hm =>
      obtain rfl : s = .positive := by simpa [hu, sign?] using hf'
      rw [value_positive]
      exact roundedValue_canonical (canonical_of_parts hu)

theorem roundedValue_le_toRat {q : ℚ} (hq : 0 ≤ q) (hf : 0.0 ≤ f) (h : q ≤ toRat f) :
    roundedValue q ≤ toRat f :=
  (roundedValue_mono hq h).trans (roundedValue_toRat hf).le

theorem half_least : (2 : ℚ) ^ (-1075 : Int) = 1 / 2 * 2 ^ (-1074 : Int) := by
  rw [show (-1075 : Int) = -1 + -1074 by norm_num, zpow_add₀ (by norm_num), zpow_neg_one, one_div]

/-- Half of the least positive double lies between it and zero, and zero is even. -/
theorem roundedValue_half_least : roundedValue (2 ^ (-1075 : Int)) = 0 := by
  have log : Int.log 2 ((2 : ℚ) ^ (-1075 : Int)) = -1075 :=
    log_eq le_rfl (zpow_lt_zpow_right₀ (by norm_num) (by norm_num))
  have grid : gridExponent ((2 : ℚ) ^ (-1075 : Int)) = -1074 := by
    rw [gridExponent, log]
    rfl
  have scaled : (2 : ℚ) ^ (-1075 : Int) / 2 ^ (-1074 : Int) = 1 / 2 := by
    rw [half_least, mul_div_cancel_right₀ _ (by positivity)]
  have floor : ⌊(1 / 2 : ℚ)⌋₊ = 0 := Nat.floor_eq_zero.2 (by norm_num)
  have even : nearestEven (1 / 2) = 0 := by
    rw [nearestEven, floor, (cmp_eq_eq_iff _ _).2 (by norm_num)]
  rw [roundedValue, grid, scaled, even, Nat.cast_zero, zero_mul]

theorem roundedValue_pos_iff {q : ℚ} (hq : 0 ≤ q) :
    0 < roundedValue q ↔ 2 ^ (-1075 : Int) < q := by
  constructor
  · intro positive
    by_contra small
    have le := roundedValue_mono hq (not_lt.1 small)
    rw [roundedValue_half_least] at le
    exact absurd positive (not_lt.2 le)
  · intro large
    have hpos : 0 < q := lt_trans (by positivity) large
    by_cases grid : gridExponent q = -1074
    · -- within half a unit of the last place, which is less than the number itself
      have near := abs_roundedValue_sub_le hq
      rw [grid, ← half_least] at near
      linarith [(abs_le.1 near).1]
    · exact lt_of_lt_of_le (by positivity) (le_roundedValue hpos grid)

/-! ## Doubles between zero and one -/

/-- A double between zero and one. Negative zero is one of them. -/
structure InUnitInterval (f : Float) : Prop where
  zero_le : 0.0 ≤ f
  le_one : f ≤ 1.0

namespace InUnitInterval

theorem isFinite (hf : InUnitInterval f) : f.isFinite = true :=
  isFinite_of_le hf.zero_le hf.le_one (by decide)

theorem toRat_nonneg (hf : InUnitInterval f) : 0 ≤ toRat f :=
  Float64.toRat_nonneg hf.zero_le

theorem toRat_le_one (hf : InUnitInterval f) : toRat f ≤ 1 := by
  rw [← toRat_one]
  exact (le_iff_toRat hf.isFinite (by decide)).1 hf.le_one

theorem isNaN_eq_false (hf : InUnitInterval f) : f.isNaN = false :=
  not_isNaN_iff.2 (isNumber_of_isFinite hf.isFinite)

theorem zero_lt_iff (hf : InUnitInterval f) : 0.0 < f ↔ 0 < toRat f := by
  rw [lt_iff_toRat (by decide) hf.isFinite, toRat_of_zero parts_zero]

end InUnitInterval

theorem inUnitInterval_one : InUnitInterval 1.0 :=
  ⟨by decide, by decide⟩

/-! ## One multiplication -/

theorem parts_mul (f g : Float) :
    parts (f * g) = parts (ofParts (UnpackedFloat.mul Format.binary64 (parts f) (parts g))) := rfl

theorem InUnitInterval.zero_or_holds (hf : InUnitInterval f) :
    (∃ s, parts f = .zero s) ∨ Holds f (toRat f) := by
  have hsign := zero_le_iff.1 hf.zero_le
  have finite := isFinite_iff_parts.1 hf.isFinite
  cases hu : parts f with
  | notANumber | infinity => simp [hu, UnpackedFloat.isFinite] at finite
  | zero s => exact .inl ⟨s, rfl⟩
  | finite s m e hm =>
      obtain rfl : s = .positive := by simpa [hu, sign?] using hsign
      have hvalue : toRat f = m * 2 ^ e := by rw [toRat, hu, value_positive]
      exact .inr ⟨m, e, hm, hu, hvalue.symm⟩

/-- A product is a zero because a factor is, or the nearest double to the exact product. -/
theorem InUnitInterval.mul_cases (hf : InUnitInterval f) (hg : InUnitInterval g) :
    (∃ s, parts (f * g) = .zero s) ∧ toRat f * toRat g = 0 ∨
      f * g = nearest (toRat f * toRat g) := by
  rcases hf.zero_or_holds with ⟨s, hu⟩ | hvalue
  · refine .inl ⟨?_, by rw [toRat_of_zero hu, zero_mul]⟩
    rcases hg.zero_or_holds with ⟨t, hv⟩ | ⟨n, e, hn, hv, -⟩
    · rw [parts_mul, hu, hv]
      exact ⟨_, parts_ofParts (u := .zero _) trivial⟩
    · rw [parts_mul, hu, hv]
      exact ⟨_, parts_ofParts (u := .zero _) trivial⟩
  · rcases hg.zero_or_holds with ⟨t, hv⟩ | hvalue'
    · refine .inl ⟨?_, by rw [toRat_of_zero hv, mul_zero]⟩
      obtain ⟨m, d, hm, hu, -⟩ := hvalue
      rw [parts_mul, hu, hv]
      exact ⟨_, parts_ofParts (u := .zero _) trivial⟩
    · exact .inr (hvalue.mul hvalue')

namespace InUnitInterval

variable (hf : InUnitInterval f) (hg : InUnitInterval g)
include hf hg

theorem toRat_mul_toRat_nonneg : 0 ≤ toRat f * toRat g :=
  mul_nonneg hf.toRat_nonneg hg.toRat_nonneg

theorem roundedValue_mul_lt : roundedValue (toRat f * toRat g) < 2 ^ (1024 : Int) := by
  have le := roundedValue_le_toRat (f := 1.0) (hf.toRat_mul_toRat_nonneg hg) (by decide)
    (toRat_one ▸ mul_le_one₀ hf.toRat_le_one hg.toRat_nonneg hg.toRat_le_one)
  rw [toRat_one] at le
  exact le.trans_lt (one_lt_zpow₀ (by norm_num) (by norm_num))

theorem toRat_mul : toRat (f * g) = roundedValue (toRat f * toRat g) := by
  rcases hf.mul_cases hg with ⟨⟨s, hzero⟩, hproduct⟩ | hproduct
  · rw [toRat_of_zero hzero, hproduct, roundedValue_zero]
  · rw [hproduct, toRat_nearest (hf.toRat_mul_toRat_nonneg hg) (hf.roundedValue_mul_lt hg)]

theorem zero_le_mul : 0.0 ≤ f * g := by
  rcases hf.mul_cases hg with ⟨⟨s, hzero⟩, -⟩ | hproduct
  · rcases eq_zero_of_parts hzero with h | h
    · rw [h]
      decide
    · rw [h]
      decide
  · rw [hproduct]
    exact zero_le_nearest (hf.toRat_mul_toRat_nonneg hg)

theorem isFinite_mul : (f * g).isFinite = true := by
  rcases hf.mul_cases hg with ⟨⟨s, hzero⟩, -⟩ | hproduct
  · rw [isFinite_iff_parts, hzero]
    rfl
  · rw [hproduct]
    exact isFinite_nearest (hf.toRat_mul_toRat_nonneg hg) (hf.roundedValue_mul_lt hg)

theorem mul_le_left : f * g ≤ f := by
  rw [le_iff_toRat (hf.isFinite_mul hg) hf.isFinite, hf.toRat_mul hg]
  refine roundedValue_le_toRat (hf.toRat_mul_toRat_nonneg hg) hf.zero_le ?_
  exact mul_le_of_le_one_right hf.toRat_nonneg hg.toRat_le_one

theorem mul_le_right : f * g ≤ g := by
  rw [le_iff_toRat (hf.isFinite_mul hg) hg.isFinite, hf.toRat_mul hg]
  refine roundedValue_le_toRat (hf.toRat_mul_toRat_nonneg hg) hg.zero_le ?_
  exact mul_le_of_le_one_left hg.toRat_nonneg hf.toRat_le_one

theorem mul : InUnitInterval (f * g) :=
  ⟨hf.zero_le_mul hg, le_of_le_of_le (hf.mul_le_left hg) hf.le_one⟩

theorem zero_lt_mul_iff : 0.0 < f * g ↔ 2 ^ (-1075 : Int) < toRat f * toRat g := by
  rw [(hf.mul hg).zero_lt_iff, hf.toRat_mul hg]
  exact roundedValue_pos_iff (hf.toRat_mul_toRat_nonneg hg)

end InUnitInterval

/-! ## Products of lists -/

section Lists

variable {factors : List Float} (hfactors : ∀ factor ∈ factors, InUnitInterval factor)
include hfactors

theorem inUnitInterval_foldl_mul {start : Float} (hstart : InUnitInterval start) :
    InUnitInterval (factors.foldl (· * ·) start) := by
  induction factors generalizing start with
  | nil => exact hstart
  | cons factor factors ih =>
      obtain ⟨hfirst, hrest⟩ := List.forall_mem_cons.1 hfactors
      exact ih hrest (hstart.mul hfirst)

theorem foldl_mul_le {start : Float} (hstart : InUnitInterval start) :
    factors.foldl (· * ·) start ≤ start := by
  induction factors generalizing start with
  | nil => exact (le_iff_toRat hstart.isFinite hstart.isFinite).2 le_rfl
  | cons factor factors ih =>
      obtain ⟨hfirst, hrest⟩ := List.forall_mem_cons.1 hfactors
      exact le_of_le_of_le (ih hrest (hstart.mul hfirst)) (hstart.mul_le_left hfirst)

theorem foldl_mul_le_of_mem {start : Float} (hstart : InUnitInterval start) :
    ∀ factor ∈ factors, factors.foldl (· * ·) start ≤ factor := by
  induction factors generalizing start with
  | nil => simp
  | cons factor factors ih =>
      obtain ⟨hfirst, hrest⟩ := List.forall_mem_cons.1 hfactors
      have hproduct := hstart.mul hfirst
      refine List.forall_mem_cons.2 ⟨?_, ih hrest hproduct⟩
      exact le_of_le_of_le (foldl_mul_le hrest hproduct) (hstart.mul_le_right hfirst)

/-- A product is positive exactly if it is so at the start and no multiplication underflows. -/
theorem zero_lt_foldl_mul_iff {start : Float} (hstart : InUnitInterval start) :
    0.0 < factors.foldl (· * ·) start ↔
      0.0 < start ∧ ∀ (index : Nat) (factor : Float), factors[index]? = some factor →
        2 ^ (-1075 : Int) < toRat ((factors.take index).foldl (· * ·) start) * toRat factor := by
  induction factors generalizing start with
  | nil => simp
  | cons factor factors ih =>
      obtain ⟨hfirst, hrest⟩ := List.forall_mem_cons.1 hfactors
      rw [List.foldl_cons, ih hrest (hstart.mul hfirst), hstart.zero_lt_mul_iff hfirst]
      constructor
      · rintro ⟨hlarge, hlater⟩
        have hpositive : 0 < toRat start := by
          refine hstart.toRat_nonneg.lt_of_ne fun hzero => ?_
          rw [← hzero, zero_mul] at hlarge
          exact absurd hlarge (not_lt.2 (by positivity))
        refine ⟨hstart.zero_lt_iff.2 hpositive, fun index other hother => ?_⟩
        cases index with
        | zero =>
            obtain rfl : factor = other := by simpa using hother
            exact hlarge
        | succ index => exact hlater index other hother
      · rintro ⟨-, hall⟩
        exact ⟨hall 0 factor rfl, fun index other hother => hall (index + 1) other hother⟩

end Lists

end LogicTree.Float64
