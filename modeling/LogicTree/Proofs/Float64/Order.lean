import LogicTree.Proofs.Float64.Parts

/-! # The order of doubles

Doubles are compared through their exponents and mantissas. For those that are numbers this is the
order of the rational numbers that they stand for, with an infinity at either end.
-/

namespace LogicTree.Float64

open Float.Model Float.Model.UnpackedFloat

/-- The rational number that finite parts stand for. -/
def value : UnpackedFloat → ℚ
  | .finite s m e _ => s.apply m * 2 ^ e
  | _ => 0

/-- Where parts stand among the rational numbers and the infinities. -/
def rank : UnpackedFloat → WithBot (WithTop ℚ)
  | .infinity .negative => ⊥
  | .infinity .positive => ((⊤ : WithTop ℚ) : WithBot (WithTop ℚ))
  | u => ((value u : WithTop ℚ) : WithBot (WithTop ℚ))

/-! ## Magnitudes -/

namespace CanonicalMagnitude

variable {m n : Nat} {d e : Int}

theorem lt_of_exponent_lt (hm : CanonicalMagnitude m d) (hn : CanonicalMagnitude n e) (h : d < e) :
    (m : ℚ) * 2 ^ d < n * 2 ^ e := by
  have normal : 2 ^ 52 ≤ n := hn.normal.resolve_right (by have := hm.lowest; omega)
  have small : (m : ℚ) < 2 ^ 53 := by exact_mod_cast hm.below
  have big : (2 ^ 52 : ℚ) ≤ n := by exact_mod_cast normal
  have step : d + 1 ≤ e := h
  calc
    (m : ℚ) * 2 ^ d < 2 ^ 53 * 2 ^ d := by gcongr
    _ = 2 ^ 52 * 2 ^ (d + 1) := by rw [zpow_add₀ (by norm_num)]; ring
    _ ≤ 2 ^ 52 * 2 ^ e := by gcongr; norm_num
    _ ≤ n * 2 ^ e := by gcongr

theorem lt_iff (hm : CanonicalMagnitude m d) (hn : CanonicalMagnitude n e) :
    (m : ℚ) * 2 ^ d < n * 2 ^ e ↔ d < e ∨ d = e ∧ m < n := by
  rcases lt_trichotomy d e with h | rfl | h
  · simp [h, hm.lt_of_exponent_lt hn h]
  · have unit : (0 : ℚ) < 2 ^ d := by positivity
    simp [unit]
  · have back := hn.lt_of_exponent_lt hm h
    constructor
    · intro forth
      linarith
    · omega

theorem compare_eq_cmp (hm : CanonicalMagnitude m d) (hn : CanonicalMagnitude n e) :
    (compare d e).then (compare m n) = cmp ((m : ℚ) * 2 ^ d) (n * 2 ^ e) := by
  rcases lt_trichotomy d e with h | rfl | h
  · rw [compare_lt_iff_lt.2 h, (cmp_eq_lt_iff _ _).2 ((hm.lt_iff hn).2 (.inl h))]
    rfl
  · rw [compare_eq_iff_eq.2 rfl]
    rcases lt_trichotomy m n with h | rfl | h
    · rw [compare_lt_iff_lt.2 h, (cmp_eq_lt_iff _ _).2 ((hm.lt_iff hn).2 (.inr ⟨rfl, h⟩))]
      rfl
    · rw [compare_eq_iff_eq.2 rfl, cmp_self_eq_eq]
      rfl
    · rw [compare_gt_iff_gt.2 h, (cmp_eq_gt_iff _ _).2 ((hn.lt_iff hm).2 (.inr ⟨rfl, h⟩))]
      rfl
  · rw [compare_gt_iff_gt.2 h, (cmp_eq_gt_iff _ _).2 ((hn.lt_iff hm).2 (.inl h))]
    rfl

end CanonicalMagnitude

theorem cmp_neg_neg (x y : ℚ) : cmp (-x) (-y) = cmp y x := by
  unfold cmp cmpUsing
  simp

theorem value_positive {m : Nat} {e : Int} (h : 0 < m) :
    value (.finite .positive m e h) = (m : ℚ) * 2 ^ e := by
  simp [value, Sign.apply]

theorem value_negative {m : Nat} {e : Int} (h : 0 < m) :
    value (.finite .negative m e h) = -((m : ℚ) * 2 ^ e) := by
  simp [value, Sign.apply]

theorem magnitude_pos {m : Nat} (h : 0 < m) (e : Int) : (0 : ℚ) < m * 2 ^ e := by
  have : (0 : ℚ) < m := by exact_mod_cast h
  positivity

theorem compare_finite {s t : Sign} {m n : Nat} {d e : Int} {hm : 0 < m} {hn : 0 < n}
    (cm : CanonicalMagnitude m d) (cn : CanonicalMagnitude n e) :
    UnpackedFloat.compare (.finite s m d hm) (.finite t n e hn)
      = some (cmp (value (.finite s m d hm)) (value (.finite t n e hn))) := by
  have pm := magnitude_pos hm d
  have pn := magnitude_pos hn e
  cases s <;> cases t <;>
    simp only [UnpackedFloat.compare, Option.some.injEq, value_negative, value_positive]
  · rw [cm.compare_eq_cmp cn, cmp_swap, cmp_neg_neg]
  · exact ((cmp_eq_lt_iff _ _).2 (by linarith)).symm
  · exact ((cmp_eq_gt_iff _ _).2 (by linarith)).symm
  · exact cm.compare_eq_cmp cn

/-! ## Parts -/

theorem rank_zero (s : Sign) : rank (.zero s) = (((0 : ℚ) : WithTop ℚ) : WithBot (WithTop ℚ)) := rfl

theorem rank_finite (s : Sign) (m : Nat) (e : Int) (h : 0 < m) :
    rank (.finite s m e h)
      = ((value (.finite s m e h) : WithTop ℚ) : WithBot (WithTop ℚ)) := rfl

theorem cmp_coe (x y : ℚ) :
    cmp ((x : WithTop ℚ) : WithBot (WithTop ℚ)) ((y : WithTop ℚ) : WithBot (WithTop ℚ))
      = cmp x y := by
  unfold cmp cmpUsing
  simp

/-- Numbers are compared as they stand among the rational numbers and the infinities. -/
theorem compare_eq {u v : UnpackedFloat} (cu : Canonical u) (cv : Canonical v)
    (nu : u ≠ .notANumber) (nv : v ≠ .notANumber) :
    u.compare v = some (cmp (rank u) (rank v)) := by
  cases u with
  | notANumber => exact absurd rfl nu
  | infinity s =>
      cases v with
      | notANumber => exact absurd rfl nv
      | infinity t => cases s <;> cases t <;> rfl
      | zero t => cases s <;> rfl
      | finite t n e hn => cases s <;> rfl
  | zero s =>
      cases v with
      | notANumber => exact absurd rfl nv
      | infinity t => cases t <;> rfl
      | zero t => rfl
      | finite t n e hn =>
          have pn := magnitude_pos hn e
          rw [rank_zero, rank_finite, cmp_coe]
          cases t with
          | negative => rw [value_negative, (cmp_eq_gt_iff _ _).2 (by linarith)]; rfl
          | positive => rw [value_positive, (cmp_eq_lt_iff _ _).2 pn]; rfl
  | finite s m d hm =>
      cases v with
      | notANumber => exact absurd rfl nv
      | infinity t => cases s <;> cases t <;> rfl
      | zero t =>
          have pm := magnitude_pos hm d
          rw [rank_zero, rank_finite, cmp_coe]
          cases s with
          | negative => rw [value_negative, (cmp_eq_lt_iff _ _).2 (by linarith)]; rfl
          | positive => rw [value_positive, (cmp_eq_gt_iff _ _).2 pm]; rfl
      | finite t n e hn => rw [compare_finite cu cv, rank_finite, rank_finite, cmp_coe]

theorem compare_notANumber_left (v : UnpackedFloat) :
    UnpackedFloat.compare .notANumber v = none := rfl

theorem compare_notANumber_right (u : UnpackedFloat) :
    UnpackedFloat.compare u .notANumber = none := by
  cases u <;> rfl

/-! ## Doubles -/

/-- Whether a double is a number or an infinity. -/
def IsNumber (f : Float) : Prop := parts f ≠ .notANumber

theorem not_isNaN_iff {f : Float} : f.isNaN = false ↔ IsNumber f := by
  change (parts f).isNaN = false ↔ _
  unfold IsNumber
  cases parts f <;> simp [UnpackedFloat.isNaN]

variable {f g h : Float}

theorem isNumber_iff_sign? : IsNumber f ↔ ∃ s, sign? (parts f) = some s := by
  unfold IsNumber
  cases parts f <;> simp [sign?]

theorem isNumber_of_isFinite (finite : f.isFinite = true) : IsNumber f := by
  have finite : (parts f).isFinite = true := finite
  intro nan
  rw [nan] at finite
  cases finite

theorem le_iff_parts : f ≤ g ↔ (parts f).le (parts g) = true := decide_eq_true_iff

theorem lt_iff_parts : f < g ↔ (parts f).lt (parts g) = true := decide_eq_true_iff

theorem le_iff (hf : IsNumber f) (hg : IsNumber g) : f ≤ g ↔ rank (parts f) ≤ rank (parts g) := by
  rw [le_iff_parts, UnpackedFloat.le, compare_eq (canonical_parts f) (canonical_parts g) hf hg]
  rcases lt_trichotomy (rank (parts f)) (rank (parts g)) with h | h | h
  · simp [(cmp_eq_lt_iff _ _).2 h, h.le]
  · simp [(cmp_eq_eq_iff _ _).2 h, h.le]
  · simp [(cmp_eq_gt_iff _ _).2 h, h]

theorem lt_iff (hf : IsNumber f) (hg : IsNumber g) : f < g ↔ rank (parts f) < rank (parts g) := by
  rw [lt_iff_parts, UnpackedFloat.lt, compare_eq (canonical_parts f) (canonical_parts g) hf hg,
    ← cmp_eq_lt_iff]
  simp

theorem isNumber_of_le (h : f ≤ g) : IsNumber f ∧ IsNumber g := by
  have le := le_iff_parts.1 h
  constructor
  · intro nan
    rw [UnpackedFloat.le, nan, compare_notANumber_left] at le
    cases le
  · intro nan
    rw [UnpackedFloat.le, nan, compare_notANumber_right] at le
    cases le

protected theorem le_of_lt (h : f < g) : f ≤ g := by
  have lt := lt_iff_parts.1 h
  rw [UnpackedFloat.lt, beq_iff_eq] at lt
  rw [le_iff_parts, UnpackedFloat.le, lt]
  rfl

theorem le_of_le_of_le (hfg : f ≤ g) (hgh : g ≤ h) : f ≤ h := by
  obtain ⟨hf, hg⟩ := isNumber_of_le hfg
  have hh := (isNumber_of_le hgh).2
  exact (le_iff hf hh).2 (((le_iff hf hg).1 hfg).trans ((le_iff hg hh).1 hgh))

theorem not_lt_iff (hf : IsNumber f) (hg : IsNumber g) : ¬ f < g ↔ g ≤ f := by
  rw [lt_iff hf hg, le_iff hg hf, not_lt]

theorem not_lt_iff_isNaN_or (hg : IsNumber g) : ¬ f < g ↔ f.isNaN = true ∨ g ≤ f := by
  by_cases hf : IsNumber f
  · have hnan := not_isNaN_iff.2 hf
    rw [not_lt_iff hf hg, hnan]
    simp
  · have hnan : f.isNaN = true := by simpa using mt not_isNaN_iff.1 hf
    have hnot : ¬ f < g := fun hlt => hf (isNumber_of_le (Float64.le_of_lt hlt)).1
    exact iff_of_true hnot (.inl hnan)

theorem beq_self_of_isNumber (hf : IsNumber f) : (f == f) = true := by
  change (parts f).beq (parts f) = true
  rw [UnpackedFloat.beq, compare_eq (canonical_parts f) (canonical_parts f) hf hf, cmp_self_eq_eq]
  rfl

end LogicTree.Float64
