import LogicTree.Proofs.Float64.Sums

/-! # Accumulating doubles

Doubles that are not negative add up to the nearest double of their exact sum. So a running sum of
them never decreases, stays where a zero is added, and below two is off by at most `2 ^ -53` at a
step.
-/

namespace LogicTree.Float64

open Float.Model Float.Model.UnpackedFloat

variable {f g : Float}

/-! ## One addition -/

theorem toRat_of_zero {s : Sign} (h : parts f = .zero s) : toRat f = 0 := by
  rw [toRat, h]
  rfl

theorem toRat_nonneg (hf : 0.0 ≤ f) : 0 ≤ toRat f := by
  unfold toRat
  rcases zero_le_iff.1 hf with zero | positive
  · rw [zero]
    exact le_rfl
  · cases hu : parts f with
    | notANumber | infinity | zero => exact le_rfl
    | finite s m e hm =>
        obtain rfl : s = .positive := by simpa [hu, sign?] using positive
        rw [value_positive]
        positivity

theorem nearest_toRat (hf : sign? (parts f) = some .positive) (finite : f.isFinite = true) :
    nearest (toRat f) = f := by
  apply parts_injective
  rw [isFinite_iff_parts] at finite
  rw [toRat]
  cases hu : parts f with
  | notANumber => simp [hu, sign?] at hf
  | infinity s => simp [hu, UnpackedFloat.isFinite] at finite
  | zero s =>
      obtain rfl : s = .positive := by simpa [hu, sign?] using hf
      change parts (nearest 0) = _
      rw [nearest_zero, parts_ofParts (u := .zero .positive) trivial]
  | finite s m e hm =>
      obtain rfl : s = .positive := by simpa [hu, sign?] using hf
      have canonical := canonical_of_parts hu
      rw [value_positive, nearest_canonical canonical, canonical.parts_ofParts]

theorem zero_le_nearest {q : ℚ} (hq : 0 ≤ q) : 0.0 ≤ nearest q := by
  rcases hq.lt_or_eq with hq | rfl
  · exact zero_le_iff.2 (.inr (sign?_rounded .positive hq))
  · rw [nearest_zero]
    decide

theorem add_of_zero (hf : sign? (parts f) = some .positive) {s : Sign} (hg : parts g = .zero s) :
    f + g = f := by
  apply parts_injective
  by_cases hu : ∃ t, parts f = .zero t
  · obtain ⟨t, hu⟩ := hu
    obtain rfl : t = .positive := by simpa [hu, sign?] using hf
    rw [parts_add_zeros hu hg, hu]
    cases s <;> rfl
  · rw [parts_add, hg, add_zero_parts s (not_exists.1 hu), ofParts_parts]

theorem zero_add_of_ne {s : Sign} (hf : parts f = .zero s) (hg : ∀ t, parts g ≠ .zero t) :
    f + g = g := by
  apply parts_injective
  rw [parts_add, hf, zero_add_parts s hg, ofParts_parts]

/-- Addition is correctly rounded. -/
theorem add_eq_nearest (hf : sign? (parts f) = some .positive) (finiteF : f.isFinite = true)
    (hg : 0.0 ≤ g) (finiteG : g.isFinite = true) : f + g = nearest (toRat f + toRat g) := by
  by_cases hv : ∃ t, parts g = .zero t
  · obtain ⟨t, hv⟩ := hv
    rw [add_of_zero hf hv, toRat_of_zero hv, add_zero, nearest_toRat hf finiteF]
  · have hg' : sign? (parts g) = some .positive :=
      (zero_le_iff.1 hg).resolve_left fun zero => hv ⟨_, zero⟩
    by_cases hu : ∃ t, parts f = .zero t
    · obtain ⟨t, hu⟩ := hu
      rw [zero_add_of_ne hu (not_exists.1 hv), toRat_of_zero hu, zero_add,
        nearest_toRat hg' finiteG]
    · have hsum : f + g = ofParts (UnpackedFloat.add Format.binary64 (parts f) (parts g)) := rfl
      rw [isFinite_iff_parts] at finiteF finiteG
      rw [hsum, toRat, toRat]
      cases pf : parts f with
      | notANumber => simp [pf, sign?] at hf
      | infinity s => simp [pf, UnpackedFloat.isFinite] at finiteF
      | zero s => exact absurd ⟨s, pf⟩ hu
      | finite s m d hm =>
          cases pg : parts g with
          | notANumber => simp [pg, sign?] at hg'
          | infinity t => simp [pg, UnpackedFloat.isFinite] at finiteG
          | zero t => exact absurd ⟨t, pg⟩ hv
          | finite t n e hn =>
              obtain rfl : s = .positive := by simpa [pf, sign?] using hf
              obtain rfl : t = .positive := by simpa [pg, sign?] using hg'
              have positive : 0 < value (.finite .positive m d hm) + value (.finite .positive n e hn) := by
                rw [value_positive, value_positive]
                exact add_pos (magnitude_pos hm d) (magnitude_pos hn e)
              rw [add_finite, roundedSigned, (cmp_eq_gt_iff _ _).2 positive]
              rfl

theorem abs_toRat_add_sub_le (hf : sign? (parts f) = some .positive) (finiteF : f.isFinite = true)
    (hg : 0.0 ≤ g) (finiteG : g.isFinite = true) (finite : (f + g).isFinite = true)
    (below : toRat (f + g) < 2) :
    |toRat (f + g) - (toRat f + toRat g)| ≤ 2 ^ (-53 : Int) := by
  have hq : 0 ≤ toRat f + toRat g :=
    add_nonneg (toRat_nonneg (zero_le_iff.2 (.inr hf))) (toRat_nonneg hg)
  rw [add_eq_nearest hf finiteF hg finiteG] at finite below ⊢
  exact abs_toRat_nearest_sub_le hq finite below

theorem parts_of_not_isFinite (hf : 0.0 ≤ f) (infinite : ¬ f.isFinite = true) :
    parts f = .infinity .positive := by
  have hf' := zero_le_iff.1 hf
  rw [isFinite_iff_parts] at infinite
  cases hu : parts f with
  | notANumber => simp [hu, sign?] at hf'
  | infinity s =>
      obtain rfl : s = .positive := by simpa [hu, sign?] using hf'
      rfl
  | zero | finite => simp [hu, UnpackedFloat.isFinite] at infinite

theorem le_of_infinity (hf : IsNumber f) (hg : parts g = .infinity .positive) : f ≤ g := by
  have hnumber : IsNumber g := by
    intro nan
    rw [hg] at nan
    cases nan
  rw [le_iff hf hnumber, hg]
  exact le_top

theorem le_add (hf : 0.0 ≤ f) (hg : 0.0 ≤ g) : f ≤ f + g := by
  have hnumber := (isNumber_of_le hf).2
  rcases zero_le_iff.1 hf with negativeZero | positive
  · -- negative zero lies where zero does
    have hsum := zero_le_add hf hg
    obtain ⟨hzero, htotal⟩ := isNumber_of_le hsum
    rw [le_iff hzero htotal, parts_zero, rank_zero] at hsum
    rwa [le_iff hnumber htotal, negativeZero, rank_zero]
  · by_cases finiteF : f.isFinite = true
    · by_cases finiteG : g.isFinite = true
      · have step := nearest_mono (p := toRat f) (q := toRat f + toRat g) (toRat_nonneg hf)
          (le_add_of_nonneg_right (toRat_nonneg hg))
        rwa [nearest_toRat positive finiteF, ← add_eq_nearest positive finiteF hg finiteG] at step
      · exact le_of_infinity hnumber (parts_add_infinity hf (parts_of_not_isFinite hg finiteG))
    · exact le_of_infinity hnumber (parts_infinity_add (parts_of_not_isFinite hf finiteF) hg)

theorem isFinite_of_le (hf : 0.0 ≤ f) (h : f ≤ g) (finite : g.isFinite = true) :
    f.isFinite = true := by
  by_contra infinite
  obtain ⟨hnumber, hnumber'⟩ := isNumber_of_le h
  rw [le_iff hnumber hnumber', parts_of_not_isFinite hf infinite, rank_of_isFinite finite] at h
  simp [rank] at h

/-! ## The distance from one -/

theorem abs_ofParts_roundedSigned (x : ℚ) : (ofParts (roundedSigned x)).abs = nearest |x| := by
  apply parts_injective
  rw [parts_abs, roundedSigned]
  rcases lt_trichotomy x 0 with negative | rfl | positive
  · rw [(cmp_eq_lt_iff _ _).2 negative, abs_of_neg negative, nearest]
    have hx := neg_pos.2 negative
    rcases lt_or_ge (roundedValue (-x)) (2 ^ (1024 : Int)) with small | large
    · rw [parts_ofParts (canonical_rounded .negative hx small),
        parts_ofParts (canonical_rounded .positive hx small), abs_rounded]
    · rw [ofParts_rounded_of_large .negative hx large, ofParts_rounded_of_large .positive hx large,
        parts_ofParts (u := .infinity .negative) trivial,
        parts_ofParts (u := .infinity .positive) trivial]
      rfl
  · rw [cmp_self_eq_eq, abs_zero, nearest_zero]
    rfl
  · rw [(cmp_eq_gt_iff _ _).2 positive, abs_of_pos positive]
    exact abs_of_sign? (sign?_rounded .positive positive)

theorem abs_sub_one_eq_nearest (finite : f.isFinite = true) :
    (f - 1.0).abs = nearest |toRat f - 1| := by
  have hone : (parts 1.0).neg = .finite .negative (2 ^ 52) (-52) (by decide) := rfl
  have minusOne : value (.finite .negative (2 ^ 52) (-52) (by decide)) = -1 := by
    rw [value_negative]
    norm_num
  have hdifference : f - 1.0 = ofParts (UnpackedFloat.add Format.binary64 (parts f)
      (.finite .negative (2 ^ 52) (-52) (by decide))) := by
    rw [← hone, ← sub_parts]
    rfl
  rw [hdifference, sub_eq_add_neg, ← minusOne, toRat]
  rw [isFinite_iff_parts] at finite
  cases hu : parts f with
  | notANumber | infinity => simp [hu, UnpackedFloat.isFinite] at finite
  | finite s m e hm => rw [add_finite, abs_ofParts_roundedSigned]
  | zero s =>
      have one : CanonicalMagnitude (2 ^ 52) (-52) :=
        ⟨by decide, by decide, by decide, by decide, .inl le_rfl⟩
      have distance : |value (.zero s) + -1| = (2 ^ 52 : Nat) * 2 ^ (-52 : Int) := by
        change |(0 : ℚ) + -1| = _
        norm_num
      rw [zero_add_parts s (by simp), minusOne, distance, nearest_canonical one]
      apply parts_injective
      rw [parts_abs, one.parts_ofParts, one.parts_ofParts]
      rfl

theorem isFinite_of_abs_sub_one_le (hf : 0.0 ≤ f) (h : (f - 1.0).abs ≤ g)
    (finite : g.isFinite = true) : f.isFinite = true := by
  by_contra infinite
  have hparts := parts_of_not_isFinite hf infinite
  have hdistance : parts (f - 1.0).abs = .infinity .positive := by
    rw [parts_abs, parts_sub, hparts]
    exact congrArg UnpackedFloat.abs (parts_ofParts (u := .infinity .positive) trivial)
  obtain ⟨hnumber, hnumber'⟩ := isNumber_of_le h
  rw [le_iff hnumber hnumber', hdistance, rank_of_isFinite finite] at h
  simp [rank] at h

/-! ## Sums of lists -/

theorem sign?_foldl_add {weights : List Float} (hweights : ∀ w ∈ weights, 0.0 ≤ w) {start : Float}
    (hstart : sign? (parts start) = some .positive) :
    sign? (parts (weights.foldl (· + ·) start)) = some .positive := by
  induction weights generalizing start with
  | nil => exact hstart
  | cons w weights ih =>
      obtain ⟨hw, hrest⟩ := List.forall_mem_cons.1 hweights
      exact ih hrest (sign?_add hstart hw)

theorem le_foldl_add {weights : List Float} (hweights : ∀ w ∈ weights, 0.0 ≤ w) {start : Float}
    (hstart : 0.0 ≤ start) : start ≤ weights.foldl (· + ·) start := by
  induction weights generalizing start with
  | nil =>
      have hnumber := (isNumber_of_le hstart).2
      exact (le_iff hnumber hnumber).2 le_rfl
  | cons w weights ih =>
      obtain ⟨hw, hrest⟩ := List.forall_mem_cons.1 hweights
      exact le_of_le_of_le (le_add hstart hw) (ih hrest (zero_le_add hstart hw))

end LogicTree.Float64
