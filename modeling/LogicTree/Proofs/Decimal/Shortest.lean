import LogicTree.Decimal.Shortest
import LogicTree.Proofs.Decimal.Reading

/-! # The shortest decimal reads back

Whatever digits the search for a short decimal settles on, they read as the double they were made
for: candidates are only taken after they have been read, and the exact decimal is there for when
none is found.
-/

namespace LogicTree

open Float.Model Float.Model.UnpackedFloat Float64

namespace Float64

theorem eq_of_beq {f g : Float} {s : Sign} {m : Nat} {e : Int} {h : 0 < m}
    (hg : parts g = .finite s m e h) (eq : (f == g) = true) : f = g := by
  have eq : UnpackedFloat.compare (parts f) (parts g) = some .eq := beq_iff_eq.1 eq
  apply parts_injective
  rw [hg] at eq ⊢
  cases hf : parts f with
  | notANumber =>
      rw [hf] at eq
      cases eq
  | infinity t =>
      rw [hf] at eq
      cases t <;> cases eq
  | zero t =>
      rw [hf] at eq
      cases s <;> cases eq
  | finite t n d hn =>
      rw [hf] at eq
      have same : d = e ∧ n = m := by
        cases t <;> cases s <;> simp [UnpackedFloat.compare] at eq
        · exact eq
        · exact eq
      obtain ⟨rfl, rfl⟩ := same
      cases t <;> cases s <;> first | rfl | cases eq

end Float64

namespace Decimal

variable {reads : Decimal → Bool} {tie : Tie}

theorem neighbour_reads {low : Nat} {exponent : Int} {part : Quotient} {d : Decimal}
    (h : neighbour? reads tie low exponent part = some d) : reads d = true := by
  unfold neighbour? at h
  cases down : reads ⟨low, exponent⟩ <;> cases up : reads ⟨low + 1, exponent⟩ <;>
    simp only [down, up] at h
  · cases h
  · cases h
    exact up
  · cases h
    exact down
  · split at h
    · cases h
      exact down
    · split at h
      · cases h
        exact up
      · cases tie with
        | away =>
            cases h
            exact up
        | even =>
            simp only [Option.some.injEq] at h
            subst h
            split
            · exact down
            · exact up

theorem search_reads {scaled : Quotient} {exponent : Int} {rest : Nat} {d : Decimal}
    (h : search reads tie scaled exponent rest = some d) : reads d = true := by
  induction rest with
  | zero => cases h
  | succ rest ih =>
      simp only [search] at h
      split at h
      next found =>
        cases h
        exact neighbour_reads found
      next => exact ih h

theorem value_trim (fuel digits : Nat) (exponent : Int) :
    (trim fuel digits exponent).value = digits * 10 ^ exponent := by
  induction fuel generalizing digits exponent with
  | zero => rfl
  | succ fuel ih =>
      rw [trim]
      split
      next zeros =>
        have exact : digits = digits / 10 * 10 := by omega
        rw [ih, zpow_add₀ (by norm_num), zpow_one]
        nth_rewrite 2 [exact]
        push_cast
        ring
      next => rfl

theorem toFloat_trim (fuel : Nat) (d : Decimal) :
    (trim fuel d.digits d.exponent).toFloat = d.toFloat :=
  toFloat_congr (value_trim fuel d.digits d.exponent)

theorem value_ofBinary (mantissa : Nat) (exponent : Int) :
    (ofBinary mantissa exponent).value = mantissa * 2 ^ exponent := by
  rw [ofBinary]
  split
  next negative =>
    rw [value, zpow_of_neg _ negative, zpow_of_neg _ negative, Nat.pow_eq]
    push_cast
    rw [show (10 : ℚ) = 5 * 2 by norm_num, mul_pow]
    field_simp
  next nonneg =>
    rw [value, zpow_of_nonneg 2 (by omega), zpow_zero, mul_one, Nat.pow_eq]
    push_cast
    rfl

/-- The decimal of a double other than zero is searched for on the grids, and is the exact
    one where the search ends without an answer. -/
theorem shortest_eq (tie : Tie) {f : Float} {m : Nat} {e : Int} (h : magnitude f = (m, e))
    (hm : m ≠ 0) :
    ∃ (scaled : Quotient) (exponent : Int),
      shortest tie f =
        (search (fun d => d.toFloat == f.abs) tie scaled exponent 17).elim (ofBinary m e)
          (fun d => trim 400 d.digits d.exponent) := by
  refine ⟨(Quotient.ofBinary m e).scale (16 - (Quotient.ofBinary m e).decimalExponent),
    (Quotient.ofBinary m e).decimalExponent - 16, ?_⟩
  rw [shortest, h]
  refine (if_neg hm).trans ?_
  dsimp only
  cases search (fun d => d.toFloat == f.abs) tie
      ((Quotient.ofBinary m e).scale (16 - (Quotient.ofBinary m e).decimalExponent))
      ((Quotient.ofBinary m e).decimalExponent - 16) 17 with
  | none => rfl
  | some d => rfl

theorem shortest_cases (tie : Tie) {f : Float} {m : Nat} {e : Int} (h : magnitude f = (m, e))
    (hm : m ≠ 0) :
    (∃ (d : Decimal) (fuel : Nat),
        (d.toFloat == f.abs) = true ∧ shortest tie f = trim fuel d.digits d.exponent)
      ∨ shortest tie f = ofBinary m e := by
  obtain ⟨scaled, exponent, same⟩ := shortest_eq tie h hm
  rw [same]
  cases found : search (fun d => d.toFloat == f.abs) tie scaled exponent 17 with
  | some d => exact .inl ⟨d, 400, search_reads found, rfl⟩
  | none => exact .inr rfl

theorem shortest_of_zero (tie : Tie) {f : Float} {s : Sign} (h : parts f = .zero s) :
    shortest tie f = ⟨0, 0⟩ := by
  have none := magnitude_of_zero h
  rw [shortest]
  generalize magnitude f = pair at none ⊢
  obtain ⟨m, e⟩ := pair
  rw [show m = 0 from none]
  rfl

theorem toFloat_shortest (tie : Tie) {f : Float} (finite : f.isFinite = true) :
    (shortest tie f).toFloat = f.abs := by
  have finite : (parts f).isFinite = true := finite
  cases h : parts f with
  | notANumber =>
      rw [h] at finite
      cases finite
  | infinity s =>
      rw [h] at finite
      cases finite
  | zero s =>
      have abs : parts f.abs = .zero .positive := by rw [parts_abs, h]; rfl
      rw [shortest_of_zero tie h, toFloat_of_digits_eq_zero rfl, ← abs, ofParts_parts]
  | finite s m e hm =>
      have canonical := canonical_of_parts h
      have abs : parts f.abs = .finite .positive m e hm := by rw [parts_abs, h]; rfl
      rcases shortest_cases tie (magnitude_of_parts h) (Nat.ne_of_gt hm) with
        ⟨d, fuel, reads, same⟩ | same
      · -- the candidate has been read; only zeros have been dropped since
        rw [same, toFloat_trim]
        exact eq_of_beq abs reads
      · rw [same, toFloat_eq_nearest, value_ofBinary, nearest_canonical canonical, ← abs,
          ofParts_parts]

theorem shortest_exponent_of_zero (tie : Tie) {f : Float} (finite : f.isFinite = true)
    (h : (shortest tie f).digits = 0) : (shortest tie f).exponent = 0 := by
  have reads := toFloat_shortest tie finite
  rw [toFloat_of_digits_eq_zero h] at reads
  have abs : (parts f).abs = .zero .positive := by
    rw [← parts_abs, ← reads, parts_ofParts (u := .zero .positive) trivial]
  cases hf : parts f with
  | zero s => rw [shortest_of_zero tie hf]
  | notANumber | infinity | finite =>
      rw [hf] at abs
      cases abs

/-- The shortest decimal of a finite double, under its sign, reads as the double. -/
theorem toSignedFloat_shortest (tie : Tie) {f : Float} (finite : f.isFinite = true) :
    toSignedFloat (isNegative f) (shortest tie f) = f := by
  obtain ⟨s, sign⟩ := isNumber_iff_sign?.1 (isNumber_of_isFinite finite)
  have negative := isNegative_iff sign
  apply parts_injective
  rw [toSignedFloat, toFloat_shortest tie finite]
  cases s with
  | negative => rw [if_pos (negative.2 rfl), parts_neg, parts_abs, neg_abs_of_sign? sign]
  | positive => rw [if_neg (by simp [negative]), parts_abs, abs_of_sign? sign]

theorem toSignedFloat_of_value {tie : Tie} {f : Float} {d : Decimal} (finite : f.isFinite = true)
    (same : d.value = (shortest tie f).value) : toSignedFloat (isNegative f) d = f := by
  rw [toSignedFloat, toFloat_congr same]
  exact toSignedFloat_shortest tie finite

end Decimal

end LogicTree
