import LogicTree.Proofs.Float64.Arithmetic
import LogicTree.Proofs.Float64.Nearest

/-! # Sums of doubles

A sum of doubles that are not negative is a number and not negative, whether or not it
overflows. A sum started at negative zero differs from one started at zero only if all
its terms are negative zeros.
-/

namespace LogicTree.Float64

open Float.Model Float.Model.UnpackedFloat

variable {f g : Float}

/-! ## Signs of results -/

theorem sign?_roundedSigned (x : ℚ) : ∃ s, sign? (parts (ofParts (roundedSigned x))) = some s := by
  unfold roundedSigned
  rcases lt_trichotomy x 0 with h | h | h
  · rw [(cmp_eq_lt_iff _ _).2 h]
    exact ⟨_, sign?_rounded .negative (neg_pos.2 h)⟩
  · rw [(cmp_eq_eq_iff _ _).2 h]
    exact ⟨.positive, congrArg sign? (parts_ofParts (u := .zero .positive) trivial)⟩
  · rw [(cmp_eq_gt_iff _ _).2 h]
    exact ⟨_, sign?_rounded .positive h⟩

/-! ## Doubles that are not negative -/

theorem parts_zero : parts 0.0 = .zero .positive := rfl

theorem parts_negativeZero : parts (-0.0) = .zero .negative := rfl

theorem eq_zero_of_parts {s : Sign} (h : parts f = .zero s) : f = -0.0 ∨ f = 0.0 := by
  cases s with
  | negative => exact .inl (parts_injective (h.trans parts_negativeZero.symm))
  | positive => exact .inr (parts_injective (h.trans parts_zero.symm))

theorem zero_le_iff :
    0.0 ≤ f ↔ parts f = .zero .negative ∨ sign? (parts f) = some .positive := by
  rw [le_iff_parts, parts_zero]
  cases parts f with
  | notANumber => simp [UnpackedFloat.le, compare_notANumber_right, sign?]
  | infinity s => cases s <;> simp [UnpackedFloat.le, UnpackedFloat.compare, sign?]
  | zero s => cases s <;> simp [UnpackedFloat.le, UnpackedFloat.compare, sign?]
  | finite s m e hm => cases s <;> simp [UnpackedFloat.le, UnpackedFloat.compare, sign?]

theorem parts_of_not_zero_lt (h : 0.0 ≤ f) (hzero : ¬ 0.0 < f) : ∃ s, parts f = .zero s := by
  have hpositive := zero_le_iff.1 h
  rw [lt_iff_parts, parts_zero] at hzero
  cases hf : parts f with
  | notANumber => simp [hf, sign?] at hpositive
  | zero s => exact ⟨s, rfl⟩
  | infinity s =>
      obtain rfl : s = .positive := by simpa [hf, sign?] using hpositive
      exact absurd (by rw [hf]; rfl) hzero
  | finite s m e hm =>
      obtain rfl : s = .positive := by simpa [hf, sign?] using hpositive
      exact absurd (by rw [hf]; rfl) hzero

theorem parts_add (f g : Float) :
    parts (f + g) = parts (ofParts (UnpackedFloat.add Format.binary64 (parts f) (parts g))) := rfl

theorem parts_sub (f g : Float) :
    parts (f - g) = parts (ofParts (UnpackedFloat.sub Format.binary64 (parts f) (parts g))) := rfl

theorem zero_add_parts (s : Sign) {u : UnpackedFloat} (hu : ∀ t, u ≠ .zero t) :
    UnpackedFloat.add Format.binary64 (.zero s) u = u := by
  cases u with
  | zero t => exact absurd rfl (hu t)
  | notANumber | infinity | finite => rfl

theorem add_zero_parts (s : Sign) {u : UnpackedFloat} (hu : ∀ t, u ≠ .zero t) :
    UnpackedFloat.add Format.binary64 u (.zero s) = u := by
  cases u with
  | zero t => exact absurd rfl (hu t)
  | notANumber | infinity | finite => rfl

theorem parts_add_zeros {s t : Sign} (hf : parts f = .zero s) (hg : parts g = .zero t) :
    parts (f + g) = .zero (if s == t then s else .positive) := by
  rw [parts_add, hf, hg]
  cases s <;> cases t <;> exact parts_ofParts (u := .zero _) trivial

theorem parts_infinity_add (hf : parts f = .infinity .positive) (hg : 0.0 ≤ g) :
    parts (f + g) = .infinity .positive := by
  have hg' := zero_le_iff.1 hg
  have hsum : UnpackedFloat.add Format.binary64 (.infinity .positive) (parts g) =
      .infinity .positive := by
    cases hv : parts g with
    | notANumber => simp [hv, sign?] at hg'
    | zero | finite => rfl
    | infinity t =>
        obtain rfl : t = .positive := by simpa [hv, sign?] using hg'
        rfl
  rw [parts_add, hf, hsum, parts_ofParts (u := .infinity .positive) trivial]

theorem parts_add_infinity (hf : 0.0 ≤ f) (hg : parts g = .infinity .positive) :
    parts (f + g) = .infinity .positive := by
  cases hu : parts f with
  | notANumber => simp [zero_le_iff, hu, sign?] at hf
  | zero | finite =>
      rw [parts_add, hu, hg]
      exact parts_ofParts (u := .infinity .positive) trivial
  | infinity s =>
      obtain rfl : s = .positive := by simpa [zero_le_iff, hu, sign?] using hf
      refine parts_infinity_add hu (zero_le_iff.2 (.inr ?_))
      rw [hg]
      rfl

theorem sign?_add (hf : sign? (parts f) = some .positive) (hg : 0.0 ≤ g) :
    sign? (parts (f + g)) = some .positive := by
  have hg' := zero_le_iff.1 hg
  cases hu : parts f with
  | notANumber => simp [hu, sign?] at hf
  | zero s =>
      obtain rfl : s = .positive := by simpa [hu, sign?] using hf
      by_cases hv : ∃ t, parts g = .zero t
      · obtain ⟨t, hv⟩ := hv
        rw [parts_add_zeros hu hv]
        cases t <;> rfl
      · rw [parts_add, hu, zero_add_parts _ (not_exists.1 hv), ofParts_parts]
        exact hg'.resolve_left fun zero => hv ⟨_, zero⟩
  | infinity s =>
      obtain rfl : s = .positive := by simpa [hu, sign?] using hf
      rw [parts_infinity_add hu hg]
      rfl
  | finite s m d hm =>
      obtain rfl : s = .positive := by simpa [hu, sign?] using hf
      cases hv : parts g with
      | notANumber => simp [hv, sign?] at hg'
      | zero t =>
          rw [parts_add, hu, hv, add_zero_parts t (by simp), ← hu, ofParts_parts, hu]
          rfl
      | infinity t =>
          obtain rfl : t = .positive := by simpa [hv, sign?] using hg'
          rw [parts_add_infinity (zero_le_iff.2 (.inr hf)) hv]
          rfl
      | finite t n e hn =>
          obtain rfl : t = .positive := by simpa [hv, sign?] using hg'
          have positive : 0 < value (.finite .positive m d hm) + value (.finite .positive n e hn) := by
            rw [value_positive, value_positive]
            exact add_pos (magnitude_pos hm d) (magnitude_pos hn e)
          rw [parts_add, hu, hv, add_finite, roundedSigned, (cmp_eq_gt_iff _ _).2 positive]
          exact sign?_rounded .positive positive

theorem zero_le_add (hf : 0.0 ≤ f) (hg : 0.0 ≤ g) : 0.0 ≤ f + g := by
  rcases zero_le_iff.1 hf with negativeZero | positive
  · by_cases hv : ∃ t, parts g = .zero t
    · obtain ⟨t, hv⟩ := hv
      rw [zero_le_iff, parts_add_zeros negativeZero hv]
      cases t <;> simp [sign?]
    · rwa [zero_le_iff, parts_add, negativeZero, zero_add_parts _ (not_exists.1 hv), ofParts_parts,
        ← zero_le_iff]
  · exact zero_le_iff.2 (.inr (sign?_add positive hg))

theorem sub_parts (u v : UnpackedFloat) :
    UnpackedFloat.sub Format.binary64 u v = UnpackedFloat.add Format.binary64 u v.neg := by
  have hneg : ∀ (t : Sign) (k : Nat), (-t).apply k = -t.apply k := by
    intro t k
    cases t <;> simp [Sign.apply]
  cases u with
  | notANumber => rfl
  | infinity s =>
      cases v with
      | infinity t => cases s <;> cases t <;> rfl
      | notANumber | zero | finite => rfl
  | zero s =>
      cases v with
      | zero t => cases s <;> cases t <;> rfl
      | notANumber | infinity | finite => rfl
  | finite s m d hm =>
      cases v with
      | finite t n e hn =>
          simp only [UnpackedFloat.sub, UnpackedFloat.add, UnpackedFloat.neg, hneg,
            Int.sub_eq_add_neg]
      | notANumber | infinity | zero => rfl

theorem isNumber_sub_one (hf : 0.0 ≤ f) : IsNumber (f - 1.0) := by
  have hf' := zero_le_iff.1 hf
  have hone : (parts 1.0).neg = .finite .negative (2 ^ 52) (-52) (by decide) := rfl
  rw [isNumber_iff_sign?, parts_sub, sub_parts, hone]
  cases hu : parts f with
  | notANumber => simp [hu, sign?] at hf'
  | zero s =>
      rw [zero_add_parts s (by simp)]
      exact ⟨.negative, rfl⟩
  | infinity s => exact ⟨s, congrArg sign? (parts_ofParts (u := .infinity s) trivial)⟩
  | finite s m e hm =>
      rw [add_finite]
      exact sign?_roundedSigned _

theorem isNumber_abs (hf : IsNumber f) : IsNumber f.abs := by
  rw [IsNumber, parts_abs]
  rw [IsNumber] at hf
  cases hu : parts f with
  | notANumber => exact absurd hu hf
  | _ => simp [UnpackedFloat.abs]

/-! ## Sums of lists -/

theorem zero_le_foldl_add {weights : List Float} (hweights : ∀ w ∈ weights, 0.0 ≤ w)
    {start : Float} (hstart : 0.0 ≤ start) : 0.0 ≤ weights.foldl (· + ·) start := by
  induction weights generalizing start with
  | nil => exact hstart
  | cons w weights ih =>
      obtain ⟨hw, hrest⟩ := List.forall_mem_cons.1 hweights
      exact ih hrest (zero_le_add hstart hw)

theorem parts_foldl_add_zeros {weights : List Float}
    (hweights : ∀ w ∈ weights, ∃ s, parts w = .zero s) {start : Float}
    (hstart : ∃ s, parts start = .zero s) : ∃ s, parts (weights.foldl (· + ·) start) = .zero s := by
  induction weights generalizing start with
  | nil => exact hstart
  | cons w weights ih =>
      obtain ⟨⟨t, hw⟩, hrest⟩ := List.forall_mem_cons.1 hweights
      obtain ⟨s, hs⟩ := hstart
      exact ih hrest ⟨_, parts_add_zeros hs hw⟩

theorem add_negativeZero_of_ne (hne : f ≠ -0.0) : -0.0 + f = 0.0 + f := by
  apply parts_injective
  by_cases hzero : ∃ s, parts f = .zero s
  · obtain ⟨s, hs⟩ := hzero
    rcases eq_zero_of_parts hs with rfl | rfl
    · exact absurd rfl hne
    · rw [parts_add_zeros parts_negativeZero parts_zero, parts_add_zeros parts_zero parts_zero]
      rfl
  · have hnot : ∀ t, parts f ≠ .zero t := not_exists.1 hzero
    rw [parts_add, parts_add, parts_negativeZero, parts_zero, zero_add_parts _ hnot,
      zero_add_parts _ hnot]

/-- Where a sum starts, at negative zero or at zero, shows only if all terms are negative
    zeros. -/
theorem foldl_add_negativeZero (weights : List Float) :
    weights.foldl (· + ·) (-0.0) = weights.foldl (· + ·) 0.0 ∨
      (∀ w ∈ weights, w = -0.0) ∧ weights.foldl (· + ·) (-0.0) = -0.0 ∧
        weights.foldl (· + ·) 0.0 = 0.0 := by
  induction weights with
  | nil => simp
  | cons w weights ih =>
      by_cases hw : w = -0.0
      · subst hw
        have hnegative : -0.0 + -0.0 = -0.0 := by
          apply parts_injective
          rw [parts_add_zeros parts_negativeZero parts_negativeZero]
          rfl
        have hpositive : 0.0 + -0.0 = 0.0 := by
          apply parts_injective
          rw [parts_add_zeros parts_zero parts_negativeZero]
          rfl
        rw [List.foldl_cons, List.foldl_cons, hnegative, hpositive]
        rcases ih with hsame | ⟨hrest, hsums⟩
        · exact .inl hsame
        · exact .inr ⟨List.forall_mem_cons.2 ⟨rfl, hrest⟩, hsums⟩
      · simp only [List.foldl_cons, add_negativeZero_of_ne hw, true_or]

end LogicTree.Float64
