import LogicTree.Proofs.Float64.Rounding

/-! # The nearest double

Rounding keeps the order of rational numbers, also where it overflows, and moves a number by at
most half a unit of its last place. Finite doubles compare as the rational numbers that they stand
for.
-/

namespace LogicTree.Float64

open Float.Model Float.Model.UnpackedFloat

/-! ## The nearest natural number -/

theorem nearestEven_mono {x y : ℚ} (h : x ≤ y) : nearestEven x ≤ nearestEven y := by
  have hx := nearestEven_bounds x
  have hy := nearestEven_bounds y
  rcases (Nat.floor_mono h).lt_or_eq with hlt | heq
  · omega
  · -- both lie between the same neighbours, so the order of the fractions decides
    unfold nearestEven
    rw [heq]
    rcases lt_trichotomy (x - ⌊y⌋₊) (1 / 2) with below | half | above
    · rw [(cmp_eq_lt_iff _ _).2 below]
      exact hy.1
    · rw [(cmp_eq_eq_iff _ _).2 half]
      rcases (show 1 / 2 ≤ y - ⌊y⌋₊ by linarith).lt_or_eq with above | half
      · rw [(cmp_eq_gt_iff _ _).2 above]
        simp only
        omega
      · rw [(cmp_eq_eq_iff _ _).2 half.symm]
    · rw [(cmp_eq_gt_iff _ _).2 above, (cmp_eq_gt_iff _ _).2 (show 1 / 2 < y - ⌊y⌋₊ by linarith)]

theorem abs_nearestEven_sub_le {x : ℚ} (hx : 0 ≤ x) : |(nearestEven x : ℚ) - x| ≤ 1 / 2 := by
  have low := Nat.floor_le hx
  have high := Nat.lt_floor_add_one x
  unfold nearestEven
  rcases lt_trichotomy (x - ⌊x⌋₊) (1 / 2) with below | half | above
  · rw [(cmp_eq_lt_iff _ _).2 below, abs_le]
    constructor <;> linarith
  · rw [(cmp_eq_eq_iff _ _).2 half, abs_le]
    rcases Nat.mod_two_eq_zero_or_one ⌊x⌋₊ with even | odd
    · simp only [even, add_zero]
      constructor <;> linarith
    · simp only [odd, Nat.cast_add, Nat.cast_one]
      constructor <;> linarith
  · rw [(cmp_eq_gt_iff _ _).2 above, abs_le]
    push_cast
    constructor <;> linarith

/-! ## Rounded values -/

/-- The rational number that a number which is not negative is rounded to, were there no largest
    double. -/
def roundedValue (q : ℚ) : ℚ := nearestEven (q / 2 ^ gridExponent q) * 2 ^ gridExponent q

theorem roundedValue_nonneg (q : ℚ) : 0 ≤ roundedValue q := by
  unfold roundedValue
  positivity

theorem roundedValue_zero : roundedValue 0 = 0 := by
  have zero := nearestEven_natCast 0
  rw [Nat.cast_zero] at zero
  rw [roundedValue, zero_div, zero, Nat.cast_zero, zero_mul]

theorem gridExponent_mono {p q : ℚ} (hp : 0 < p) (h : p ≤ q) : gridExponent p ≤ gridExponent q := by
  have := Int.log_mono_right (b := 2) hp h
  rw [gridExponent, gridExponent]
  omega

theorem roundedValue_le {q : ℚ} (hq : 0 < q) :
    roundedValue q ≤ 2 ^ (53 + gridExponent q) := by
  have top : (nearestEven (q / 2 ^ gridExponent q) : ℚ) ≤ 2 ^ 53 := by
    exact_mod_cast nearestEven_div_grid_le hq
  rw [roundedValue, zpow_add₀ (by norm_num)]
  gcongr
  exact top

theorem le_roundedValue {q : ℚ} (hq : 0 < q) (h : gridExponent q ≠ -1074) :
    2 ^ (52 + gridExponent q) ≤ roundedValue q := by
  have bottom : (2 : ℚ) ^ 52 ≤ nearestEven (q / 2 ^ gridExponent q) := by
    exact_mod_cast le_nearestEven_div_grid hq h
  rw [roundedValue, zpow_add₀ (by norm_num)]
  gcongr
  exact bottom

/-- Rounding keeps the order: on one grid the mantissas do, and a finer grid ends where the next
    one starts. -/
theorem roundedValue_mono {p q : ℚ} (hp : 0 ≤ p) (h : p ≤ q) :
    roundedValue p ≤ roundedValue q := by
  rcases hp.lt_or_eq with hp | rfl
  · rcases (gridExponent_mono hp h).lt_or_eq with finer | same
    · have above : gridExponent q ≠ -1074 := by
        have : -1074 ≤ gridExponent p := le_max_right _ _
        omega
      calc
        roundedValue p ≤ 2 ^ (53 + gridExponent p) := roundedValue_le hp
        _ ≤ 2 ^ (52 + gridExponent q) := zpow_le_zpow_right₀ (by norm_num) (by omega)
        _ ≤ roundedValue q := le_roundedValue (hp.trans_le h) above
    · rw [roundedValue, roundedValue, same]
      have scaled : p / 2 ^ gridExponent q ≤ q / 2 ^ gridExponent q := by gcongr
      have mantissas : (nearestEven (p / 2 ^ gridExponent q) : ℚ) ≤
          nearestEven (q / 2 ^ gridExponent q) := by
        exact_mod_cast nearestEven_mono scaled
      gcongr
  · rw [roundedValue_zero]
    exact roundedValue_nonneg q

theorem abs_roundedValue_sub_le {q : ℚ} (hq : 0 ≤ q) :
    |roundedValue q - q| ≤ 1 / 2 * 2 ^ gridExponent q := by
  have unit : (0 : ℚ) < 2 ^ gridExponent q := by positivity
  have split : roundedValue q - q =
      (nearestEven (q / 2 ^ gridExponent q) - q / 2 ^ gridExponent q) * 2 ^ gridExponent q := by
    rw [roundedValue, sub_mul, div_mul_cancel₀ _ unit.ne']
  rw [split, abs_mul, abs_of_pos unit]
  gcongr
  exact abs_nearestEven_sub_le (by positivity)

theorem roundedValue_canonical {m : Nat} {e : Int} (h : CanonicalMagnitude m e) :
    roundedValue (m * 2 ^ e) = m * 2 ^ e := by
  rw [roundedValue, h.gridExponent_eq, mul_div_cancel_right₀ _ (by positivity),
    nearestEven_natCast]

theorem abs_roundedValue_sub_le_of_lt_two {q : ℚ} (hq : 0 ≤ q) (h : q < 2) :
    |roundedValue q - q| ≤ 2 ^ (-53 : Int) := by
  rcases hq.lt_or_eq with hq | rfl
  · have log : Int.log 2 q < 1 := (log_lt_iff hq).2 (by simpa using h)
    have grid : gridExponent q ≤ -52 := by
      rw [gridExponent]
      omega
    calc
      |roundedValue q - q| ≤ 1 / 2 * 2 ^ gridExponent q := abs_roundedValue_sub_le hq.le
      _ ≤ 1 / 2 * 2 ^ (-52 : Int) := by gcongr; norm_num
      _ = 2 ^ (-53 : Int) := by norm_num
  · rw [roundedValue_zero, sub_zero, abs_zero]
    positivity

/-! ## Overflow -/

theorem value_carried {m : Nat} {e : Int} (h : m ≤ 2 ^ 53) :
    value (carried .positive m e) = m * 2 ^ e := by
  rw [carried]
  split
  next zero => simp [zero, value]
  next positive =>
    split
    next small => exact value_positive _
    next large =>
      obtain rfl : m = 2 ^ 53 := by omega
      rw [value_positive, zpow_add₀ (by norm_num)]
      push_cast
      ring

theorem value_rounded {q : ℚ} (hq : 0 ≤ q) : value (rounded .positive q) = roundedValue q := by
  rcases hq.lt_or_eq with hq | rfl
  · exact value_carried (nearestEven_div_grid_le hq)
  · refine value_carried ?_
    have zero := nearestEven_natCast 0
    rw [Nat.cast_zero] at zero
    rw [zero_div, zero]
    decide

theorem canonical_rounded (s : Sign) {q : ℚ} (hq : 0 < q) (h : roundedValue q < 2 ^ (1024 : Int)) :
    Canonical (rounded s q) := by
  have low : -1074 ≤ gridExponent q := le_max_right _ _
  have normal := @le_nearestEven_div_grid q hq
  rw [rounded, carried]
  split
  next => trivial
  next positive =>
    have high : gridExponent q ≤ 971 := by
      by_contra above
      have : (2 : ℚ) ^ (1024 : Int) ≤ 2 ^ (52 + gridExponent q) :=
        zpow_le_zpow_right₀ (by norm_num) (by omega)
      linarith [le_roundedValue hq (by omega)]
    split
    next below =>
      refine ⟨Nat.pos_of_ne_zero positive, below, low, high, ?_⟩
      by_cases subnormal : gridExponent q = -1074
      · exact .inr subnormal
      · exact .inl (normal subnormal)
    next carries =>
      have full : nearestEven (q / 2 ^ gridExponent q) = 2 ^ 53 := by
        have := nearestEven_div_grid_le hq
        omega
      have room : gridExponent q + 1 ≤ 971 := by
        by_contra above
        have : (2 : ℚ) ^ (1024 : Int) ≤ 2 ^ (53 + gridExponent q) :=
          zpow_le_zpow_right₀ (by norm_num) (by omega)
        rw [roundedValue, full, Nat.cast_pow, Nat.cast_ofNat, ← zpow_natCast, ← zpow_add₀ (by norm_num)]
          at h
        exact absurd h (not_lt.2 this)
      exact ⟨by decide, by decide, by omega, room, .inl le_rfl⟩

theorem ofParts_rounded_of_large (s : Sign) {q : ℚ} (hq : 0 < q)
    (h : 2 ^ (1024 : Int) ≤ roundedValue q) :
    ofParts (rounded s q) = ofParts (.infinity s) := by
  have high : 971 ≤ gridExponent q := by
    by_contra below
    have : (2 : ℚ) ^ (53 + gridExponent q) < 2 ^ (1024 : Int) :=
      zpow_lt_zpow_right₀ (by norm_num) (by omega)
    linarith [roundedValue_le hq]
  have normal := le_nearestEven_div_grid hq (by omega)
  rw [rounded, carried, dif_neg (by omega)]
  split
  next below =>
    refine ofParts_overflow s _ ?_
    by_contra least
    obtain same : gridExponent q = 971 := by omega
    have small : (nearestEven (q / 2 ^ gridExponent q) : ℚ) < 2 ^ 53 := by exact_mod_cast below
    have : roundedValue q < 2 ^ (1024 : Int) := by
      calc
        roundedValue q < 2 ^ 53 * 2 ^ gridExponent q := by
          rw [roundedValue]
          gcongr
        _ = 2 ^ (1024 : Int) := by
          rw [same, ← zpow_natCast, ← zpow_add₀ (by norm_num)]
          rfl
    linarith
  next => exact ofParts_overflow s _ (by omega)

theorem abs_rounded (s : Sign) (q : ℚ) : (rounded s q).abs = rounded .positive q := by
  rw [rounded, rounded, carried, carried]
  split
  · rfl
  · split <;> rfl

theorem sign?_rounded (s : Sign) {q : ℚ} (hq : 0 < q) :
    sign? (parts (ofParts (rounded s q))) = some s := by
  rcases lt_or_ge (roundedValue q) (2 ^ (1024 : Int)) with small | large
  · rw [parts_ofParts (canonical_rounded s hq small), rounded, carried]
    split
    · rfl
    · split <;> rfl
  · rw [ofParts_rounded_of_large s hq large, parts_ofParts (u := .infinity s) trivial]
    rfl

/-! ## Finite doubles as rational numbers -/

/-- The rational number that a finite double stands for. -/
def toRat (f : Float) : ℚ := value (parts f)

variable {f g : Float}

theorem rank_of_isFinite (finite : f.isFinite = true) :
    rank (parts f) = ((toRat f : WithTop ℚ) : WithBot (WithTop ℚ)) := by
  have finite : (parts f).isFinite = true := finite
  unfold toRat
  cases hf : parts f with
  | notANumber | infinity =>
      rw [hf] at finite
      cases finite
  | zero | finite => rfl

theorem le_iff_toRat (hf : f.isFinite = true) (hg : g.isFinite = true) :
    f ≤ g ↔ toRat f ≤ toRat g := by
  rw [le_iff (isNumber_of_isFinite hf) (isNumber_of_isFinite hg), rank_of_isFinite hf,
    rank_of_isFinite hg]
  simp

theorem lt_iff_toRat (hf : f.isFinite = true) (hg : g.isFinite = true) :
    f < g ↔ toRat f < toRat g := by
  rw [lt_iff (isNumber_of_isFinite hf) (isNumber_of_isFinite hg), rank_of_isFinite hf,
    rank_of_isFinite hg]
  simp

theorem isFinite_iff_parts : f.isFinite = true ↔ (parts f).isFinite = true := .rfl

theorem parts_nearest {q : ℚ} (hq : 0 < q) (h : roundedValue q < 2 ^ (1024 : Int)) :
    parts (nearest q) = rounded .positive q :=
  parts_ofParts (canonical_rounded .positive hq h)

theorem toRat_nearest {q : ℚ} (hq : 0 ≤ q) (h : roundedValue q < 2 ^ (1024 : Int)) :
    toRat (nearest q) = roundedValue q := by
  rcases hq.lt_or_eq with hq | rfl
  · rw [toRat, parts_nearest hq h, value_rounded hq.le]
  · rw [toRat, nearest_zero, parts_ofParts (u := .zero .positive) trivial, roundedValue_zero]
    rfl

theorem isFinite_nearest {q : ℚ} (hq : 0 ≤ q) (h : roundedValue q < 2 ^ (1024 : Int)) :
    (nearest q).isFinite = true := by
  rw [isFinite_iff_parts]
  rcases hq.lt_or_eq with hq | rfl
  · rw [parts_nearest hq h, rounded, carried]
    split
    · rfl
    · split <;> rfl
  · rw [nearest_zero, parts_ofParts (u := .zero .positive) trivial]
    rfl

theorem isNumber_nearest {q : ℚ} (hq : 0 ≤ q) : IsNumber (nearest q) := by
  rcases hq.lt_or_eq with hq | rfl
  · exact isNumber_iff_sign?.2 ⟨.positive, sign?_rounded .positive hq⟩
  · rw [IsNumber, nearest_zero, parts_ofParts (u := .zero .positive) trivial]
    exact nofun

theorem nearest_mono {p q : ℚ} (hp : 0 ≤ p) (h : p ≤ q) : nearest p ≤ nearest q := by
  have hq : 0 ≤ q := hp.trans h
  have order := roundedValue_mono hp h
  rcases lt_or_ge (roundedValue q) (2 ^ (1024 : Int)) with small | large
  · have finite := isFinite_nearest hp (order.trans_lt small)
    rw [le_iff_toRat finite (isFinite_nearest hq small), toRat_nearest hp (order.trans_lt small),
      toRat_nearest hq small]
    exact order
  · have positive : 0 < q := by
      refine hq.lt_of_ne fun zero => ?_
      rw [← zero, roundedValue_zero] at large
      exact absurd large (not_le.2 (by positivity))
    have infinite : parts (nearest q) = .infinity .positive := by
      rw [nearest, ofParts_rounded_of_large .positive positive large]
      exact parts_ofParts (u := .infinity .positive) trivial
    rw [le_iff (isNumber_nearest hp) (isNumber_nearest hq), infinite]
    exact le_top

theorem abs_toRat_nearest_sub_le {q : ℚ} (hq : 0 ≤ q) (finite : (nearest q).isFinite = true)
    (below : toRat (nearest q) < 2) : |toRat (nearest q) - q| ≤ 2 ^ (-53 : Int) := by
  have small : roundedValue q < 2 ^ (1024 : Int) := by
    by_contra large
    have positive : 0 < q := by
      refine hq.lt_of_ne fun zero => large ?_
      rw [← zero, roundedValue_zero]
      positivity
    rw [isFinite_iff_parts, nearest, ofParts_rounded_of_large .positive positive (not_lt.1 large),
      parts_ofParts (u := .infinity .positive) trivial] at finite
    cases finite
  rw [toRat_nearest hq small] at below ⊢
  refine abs_roundedValue_sub_le_of_lt_two hq ?_
  by_contra two
  have exact : roundedValue 2 = 2 := by
    have h := roundedValue_canonical (m := 2 ^ 52) (e := -51)
      ⟨by decide, by decide, by decide, by decide, .inl le_rfl⟩
    norm_num at h
    exact h
  have := roundedValue_mono (by norm_num) (not_lt.1 two)
  linarith

end LogicTree.Float64
