import LogicTree.Decimal.Basic
import LogicTree.Proofs.Float64.Arithmetic

/-! # Reading decimals

A decimal is read as the double nearest to the rational number that it stands for. So decimals of
one value read as one double, however their digits are spread over mantissa and exponent.
-/

namespace LogicTree

open Float.Model Float.Model.UnpackedFloat Float64

/-- The rational number that a decimal stands for. -/
def Decimal.value (d : Decimal) : ℚ := d.digits * 10 ^ d.exponent

namespace Float64

/-! ## Exact doubles -/

/-- The parts of a positive double that stands for a rational number exactly. -/
def Holds (f : Float) (q : ℚ) : Prop :=
  ∃ m e h, parts f = .finite .positive m e h ∧ (m : ℚ) * 2 ^ e = q

theorem roundedSigned_pos {q : ℚ} (hq : 0 < q) : roundedSigned q = rounded .positive q := by
  rw [roundedSigned, (cmp_eq_gt_iff _ _).2 hq]

theorem holds_toFloat {n : Nat} (h : 0 < n) (small : n < 2 ^ 53) : Holds n.toUInt64.toFloat n := by
  obtain ⟨m, e, canonical, same⟩ := exists_canonical (e := 0) h small (by decide) (by decide)
  rw [zpow_zero, mul_one] at same
  have word : n.toUInt64.toNat = n := Nat.mod_eq_of_lt (by omega)
  have positive : (0 : ℚ) < n := by exact_mod_cast h
  refine ⟨m, e, canonical.positive, ?_, same⟩
  calc
    parts n.toUInt64.toFloat
        = parts (ofParts (UnpackedFloat.normalize Format.binary64 n.toUInt64.toNat 0 .positive)) := rfl
    _ = parts (ofParts (rounded .positive n)) := by
      rw [normalize_eq, word, zpow_zero, mul_one, Int.cast_natCast, roundedSigned_pos positive]
    _ = .finite .positive m e canonical.positive := by
      rw [← same, rounded_canonical .positive canonical, canonical.parts_ofParts]

theorem powersOfTen_exact : ∀ k : Fin 23,
    (match parts (Float.exactlyRepresentablePowersOfTen[k]) with
      | .finite .positive m e _ => m * 2 ^ e.toNat == 10 ^ k.val * 2 ^ (-e).toNat
      | _ => false) = true := by
  decide

theorem holds_powerOfTen (k : Fin 23) :
    Holds Float.exactlyRepresentablePowersOfTen[k] (10 ^ k.val) := by
  have exact := powersOfTen_exact k
  split at exact
  next m e h parts =>
    refine ⟨m, e, h, parts, ?_⟩
    have exact : (m : ℚ) * 2 ^ e.toNat = 10 ^ k.val * 2 ^ (-e).toNat := by
      exact_mod_cast beq_iff_eq.1 exact
    have exponent : e = e.toNat - ((-e).toNat : Int) := by omega
    rw [exponent, zpow_sub₀ (by norm_num), zpow_natCast, zpow_natCast, ← mul_div_assoc, exact,
      mul_div_cancel_right₀ _ (by positivity)]
  next => cases exact

theorem Holds.div {f g : Float} {p q : ℚ} (hf : Holds f p) (hg : Holds g q) :
    f / g = nearest (p / q) := by
  obtain ⟨m, d, hm, partsF, rfl⟩ := hf
  obtain ⟨n, e, hn, partsG, rfl⟩ := hg
  calc
    f / g = ofParts (UnpackedFloat.div Format.binary64 (parts f) (parts g)) := rfl
    _ = nearest (m * 2 ^ d / (n * 2 ^ e)) := by
      rw [partsF, partsG, div_finite]
      rfl

theorem Holds.mul {f g : Float} {p q : ℚ} (hf : Holds f p) (hg : Holds g q) :
    f * g = nearest (p * q) := by
  obtain ⟨m, d, hm, partsF, rfl⟩ := hf
  obtain ⟨n, e, hn, partsG, rfl⟩ := hg
  calc
    f * g = ofParts (UnpackedFloat.mul Format.binary64 (parts f) (parts g)) := rfl
    _ = nearest (m * 2 ^ d * (n * 2 ^ e)) := by
      rw [partsF, partsG, mul_canonical (canonical_of_parts partsF) (canonical_of_parts partsG)]
      rfl

theorem Holds.zero_div {f g : Float} {q : ℚ} (hf : parts f = .zero .positive) (hg : Holds g q) :
    f / g = ofParts (.zero .positive) := by
  obtain ⟨n, e, hn, partsG, -⟩ := hg
  calc
    f / g = ofParts (UnpackedFloat.div Format.binary64 (parts f) (parts g)) := rfl
    _ = ofParts (.zero .positive) := by
      rw [hf, partsG]
      rfl

theorem Holds.zero_mul {f g : Float} {q : ℚ} (hf : parts f = .zero .positive) (hg : Holds g q) :
    f * g = ofParts (.zero .positive) := by
  obtain ⟨n, e, hn, partsG, -⟩ := hg
  calc
    f * g = ofParts (UnpackedFloat.mul Format.binary64 (parts f) (parts g)) := rfl
    _ = ofParts (.zero .positive) := by
      rw [hf, partsG]
      rfl

end Float64

namespace Decimal

theorem zpow_of_neg (b : ℚ) {e : Int} (h : e < 0) : b ^ e = (b ^ e.natAbs)⁻¹ := by
  rw [← zpow_natCast, ← zpow_neg]
  congr 1
  omega

theorem zpow_of_nonneg (b : ℚ) {e : Int} (h : 0 ≤ e) : b ^ e = b ^ e.natAbs := by
  rw [← zpow_natCast]
  congr 1
  omega

theorem toFloat_eq_nearest_of_small {d : Decimal} (h : 0 < d.digits) (small : d.digits < 2 ^ 53)
    (near : d.exponent.natAbs ≤ 22) : d.toFloat = nearest d.value := by
  have digits := holds_toFloat h small
  have power := holds_powerOfTen ⟨d.exponent.natAbs, by omega⟩
  rw [toFloat, Float.ofScientific, dif_pos ⟨small, near⟩, value]
  by_cases negative : d.exponent < 0
  · rw [zpow_of_neg _ negative, ← div_eq_mul_inv, ← digits.div power]
    simp [negative]
  · rw [zpow_of_nonneg _ (by omega), ← digits.mul power]
    simp [negative]


theorem nearest_eq_zero {m : Nat} {e : Int} (h : 0 < m) (tiny : e < -(2048 + (m.log2 : Int))) :
    nearest (m * 10 ^ e) = ofParts (.zero .positive) := by
  have positive : (0 : ℚ) < m := by exact_mod_cast h
  apply nearest_tiny (by positivity)
  have ceiling : (m : ℚ) < (2 ^ (m.log2 + 1) : Nat) := by exact_mod_cast Nat.lt_log2_self
  have base : (10 : ℚ) ^ e ≤ 2 ^ e := by
    rw [zpow_of_neg _ (by omega), zpow_of_neg _ (by omega)]
    gcongr
    norm_num
  calc
    (m : ℚ) * 10 ^ e < (2 ^ (m.log2 + 1) : Nat) * 10 ^ e := by gcongr
    _ ≤ (2 ^ (m.log2 + 1) : Nat) * 2 ^ e := by gcongr
    _ = 2 ^ ((m.log2 : Int) + 1 + e) := by
      rw [zpow_add₀ (by norm_num)]
      push_cast
      norm_cast
    _ ≤ 2 ^ (-1075 : Int) := zpow_le_zpow_right₀ (by norm_num) (by omega)

theorem nearest_eq_infinity {m : Nat} {e : Int} (h : 0 < m) (huge : 2048 < e) :
    nearest (m * 10 ^ e) = ofParts (.infinity .positive) := by
  have positive : (1 : ℚ) ≤ m := by exact_mod_cast h
  apply nearest_huge
  calc
    (2 : ℚ) ^ (1024 : Int) ≤ 2 ^ e := zpow_le_zpow_right₀ (by norm_num) (by omega)
    _ ≤ 10 ^ e := by
      rw [zpow_of_nonneg _ (by omega), zpow_of_nonneg _ (by omega)]
      gcongr
      norm_num
    _ ≤ m * 10 ^ e := le_mul_of_one_le_left (by positivity) positive

theorem ofScientific_eq_nearest {m : Nat} (h : 0 < m) (e : Int) :
    ofParts (UnpackedFloat.ofScientific Format.binary64 m e) = nearest (m * 10 ^ e) := by
  have bits : (2 : Int) ^ Format.binary64.exponentBits = 2048 := rfl
  rw [UnpackedFloat.ofScientific, dif_neg (by omega)]
  simp only [bits]
  by_cases huge : e > 2048
  · rw [if_pos huge, nearest_eq_infinity h huge]
  rw [if_neg huge]
  by_cases tiny : e < -(2048 + (m.log2 : Int))
  · rw [if_pos tiny, nearest_eq_zero h tiny]
  rw [if_neg tiny]
  by_cases whole : 0 ≤ e
  · have value : ((m <<< Format.binary64.mantissaBits : Nat) : ℚ)
        * 2 ^ (-(Format.binary64.mantissaBits : Int)) * ((10 ^ e.toNat : Nat) * 2 ^ (0 : Int))
        = m * 10 ^ e := by
      rw [Nat.shiftLeft_eq, zpow_of_nonneg _ whole, zpow_neg, zpow_natCast, zpow_zero, mul_one,
        show e.toNat = e.natAbs by omega]
      push_cast
      rw [mul_inv_cancel_right₀ (by positivity)]
    have least : (2 : ℚ) ^ (0 : Int) ≤ m * 10 ^ e := by
      have digits : (1 : ℚ) ≤ m := by exact_mod_cast h
      have power : (1 : ℚ) ≤ 10 ^ e := one_le_zpow₀ (by norm_num) whole
      rw [zpow_zero]
      exact one_le_mul_of_one_le_of_one_le digits power
    rw [if_pos whole, mul_finite, value]
    · rfl
    · have log := (le_log_iff (by positivity)).2 least
      have places : (Format.binary64.mantissaBits : Int) = 53 := rfl
      rw [value, gridExponent, places]
      omega
  · have value : (m : ℚ) * 2 ^ (0 : Int) / ((10 ^ (-e).toNat : Nat) * 2 ^ (0 : Int))
        = m * 10 ^ e := by
      rw [zpow_zero, mul_one, mul_one, zpow_of_neg _ (by omega),
        show (-e).toNat = e.natAbs by omega, div_eq_mul_inv]
      push_cast
      rfl
    rw [if_neg whole, div_finite, value]
    rfl

theorem toFloat_of_digits_eq_zero {d : Decimal} (h : d.digits = 0) :
    d.toFloat = ofParts (.zero .positive) := by
  rw [toFloat, Float.ofScientific, h]
  split
  next near =>
    have zero : parts (Nat.toUInt64 0).toFloat = .zero .positive := rfl
    have power := holds_powerOfTen ⟨d.exponent.natAbs, by omega⟩
    split
    · exact Holds.zero_div zero power
    · exact Holds.zero_mul zero power
  next => rfl

/-- Reading a decimal rounds the rational number that it stands for. -/
theorem toFloat_eq_nearest (d : Decimal) : d.toFloat = nearest d.value := by
  rcases Nat.eq_zero_or_pos d.digits with none | some
  · rw [toFloat_of_digits_eq_zero none, value, none, Nat.cast_zero, zero_mul, nearest_zero]
  · by_cases small : d.digits < 2 ^ 53 ∧ d.exponent.natAbs ≤ 22
    · exact toFloat_eq_nearest_of_small some small.1 small.2
    · have exponent : (if decide (d.exponent < 0) then Int.negOfNat d.exponent.natAbs
          else Int.ofNat d.exponent.natAbs) = d.exponent := by
        by_cases negative : d.exponent < 0
        · simp only [negative, decide_true, if_true, Int.negOfNat_eq, Int.ofNat_eq_natCast]
          omega
        · simp only [negative, decide_false, Bool.false_eq_true, if_false, Int.ofNat_eq_natCast]
          omega
      rw [toFloat, Float.ofScientific, dif_neg small]
      simp only [exponent]
      exact ofScientific_eq_nearest some d.exponent

theorem toFloat_congr {c d : Decimal} (h : c.value = d.value) : c.toFloat = d.toFloat := by
  rw [toFloat_eq_nearest, toFloat_eq_nearest, h]

end Decimal

end LogicTree
