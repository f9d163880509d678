import LogicTree.Proofs.Float64.Rounding

/-! # Arithmetic on finite doubles

Products and quotients of finite parts are the exact results rounded once.
-/

namespace LogicTree.Float64

open Float.Model Float.Model.UnpackedFloat

theorem roundWithAccuracy_exact (s : Sign) {m : Nat} {e : Int} {q : ℚ} (hq : 0 < q)
    (exact : m * (2 : ℚ) ^ e = q) (fine : e ≤ gridExponent q) :
    roundWithAccuracy Format.binary64 s m e .exact = rounded s q := by
  refine roundWithAccuracy_eq s hq ?_ fine
  rw [← exact, mul_div_cancel_right₀ _ (by positivity)]
  rfl

theorem locates_div (a : Nat) {b : Nat} (hb : 0 < b) :
    Locates (.ofMantissaAndAccuracy (a / b) (accuracyOfFraction (a % b) b)) ((a : ℚ) / b) := by
  have hb' : (0 : ℚ) < b := by exact_mod_cast hb
  have split : (a : ℚ) / b = (a / b : Nat) + (a % b : Nat) / b := by
    have := Nat.div_add_mod a b
    field_simp
    exact_mod_cast this.symm
  have rest : ((a % b : Nat) : ℚ) < b := by exact_mod_cast Nat.mod_lt a hb
  rw [split]
  generalize a % b = r at rest ⊢
  generalize a / b = n
  unfold accuracyOfFraction
  by_cases none : r = 0
  · subst none
    simp [Locates, ExtendedMantissa.ofMantissaAndAccuracy]
  · have some : (0 : ℚ) < r := by exact_mod_cast Nat.pos_of_ne_zero none
    rw [if_neg none]
    rcases lt_trichotomy (2 * r) b with h | h | h
    · have half : (2 * r : ℚ) < b := by exact_mod_cast h
      rw [compare_lt_iff_lt.2 h]
      have : (r : ℚ) / b < 1 / 2 := by
        rw [div_lt_iff₀ hb']
        linarith
      have := div_pos some hb'
      simp only [Locates, ExtendedMantissa.ofMantissaAndAccuracy]
      constructor <;> linarith
    · have half : (2 * r : ℚ) = b := by exact_mod_cast h
      rw [compare_eq_iff_eq.2 h]
      have : (r : ℚ) / b = 1 / 2 := by
        rw [div_eq_iff hb'.ne']
        linarith
      simp only [Locates, ExtendedMantissa.ofMantissaAndAccuracy]
      linarith
    · have half : (b : ℚ) < 2 * r := by exact_mod_cast h
      rw [compare_gt_iff_gt.2 h]
      have : 1 / 2 < (r : ℚ) / b := by
        rw [lt_div_iff₀ hb']
        linarith
      have : (r : ℚ) / b < 1 := by
        rw [div_lt_one hb']
        exact rest
      simp only [Locates, ExtendedMantissa.ofMantissaAndAccuracy]
      constructor <;> linarith

/-! ## Rounding of an integer multiple of a power of two -/

theorem decreaseExponent_value (m : Nat) (e t : Int) :
    ((decreaseExponent m e t).1 : ℚ) * 2 ^ (decreaseExponent m e t).2 = m * 2 ^ e := by
  simp only [decreaseExponent, Nat.shiftLeft_eq]
  push_cast
  rw [mul_assoc, ← zpow_natCast, ← zpow_add₀ (by norm_num)]
  congr 2
  omega

theorem round_eq (s : Sign) {m : Nat} (hm : 0 < m) (e : Int) :
    UnpackedFloat.round Format.binary64 s m e = rounded s (m * 2 ^ e) := by
  have positive := magnitude_pos hm e
  have target : Format.binary64.targetExponent (totalExponent m e) = gridExponent (m * 2 ^ e) :=
    targetExponent_eq_gridExponent positive le_rfl (by gcongr; linarith) (.inl hm)
  have same := decreaseExponent_value m e (gridExponent (m * 2 ^ e))
  have fine : (decreaseExponent m e (gridExponent (m * 2 ^ e))).2 ≤ gridExponent (m * 2 ^ e) := by
    simp only [decreaseExponent]
    omega
  rw [UnpackedFloat.round, target]
  exact roundWithAccuracy_exact s positive same fine

/-- The parts nearest to a rational number; zero is positive. -/
def roundedSigned (x : ℚ) : UnpackedFloat :=
  match cmp x 0 with
  | .lt => rounded .negative (-x)
  | .eq => .zero .positive
  | .gt => rounded .positive x

theorem normalize_eq (m e : Int) :
    UnpackedFloat.normalize Format.binary64 m e .positive = roundedSigned (m * 2 ^ e) := by
  have unit : (0 : ℚ) < 2 ^ e := by positivity
  rcases lt_trichotomy m 0 with h | rfl | h
  · have negative : (m : ℚ) * 2 ^ e < 0 := mul_neg_of_neg_of_pos (by exact_mod_cast h) unit
    have abs : ((-m).toNat : ℚ) = -m := by
      have : ((-m).toNat : Int) = -m := by omega
      exact_mod_cast this
    rw [roundedSigned, (cmp_eq_lt_iff _ _).2 negative, UnpackedFloat.normalize,
      compare_lt_iff_lt.2 h]
    simp only
    rw [round_eq _ (by omega), abs, neg_mul]
  · rw [roundedSigned, (cmp_eq_eq_iff _ _).2 (by push_cast; ring)]
    rfl
  · have positive : 0 < (m : ℚ) * 2 ^ e := mul_pos (by exact_mod_cast h) unit
    have abs : (m.toNat : ℚ) = m := by
      have : (m.toNat : Int) = m := by omega
      exact_mod_cast this
    rw [roundedSigned, (cmp_eq_gt_iff _ _).2 positive, UnpackedFloat.normalize,
      compare_gt_iff_gt.2 h]
    simp only
    rw [round_eq _ (by omega), abs]

/-! ## The operations -/

theorem add_finite {s t : Sign} {m n : Nat} {d e : Int} {hm : 0 < m} {hn : 0 < n} :
    UnpackedFloat.add Format.binary64 (.finite s m d hm) (.finite t n e hn)
      = roundedSigned (value (.finite s m d hm) + value (.finite t n e hn)) := by
  have left := decreaseExponent_value m d (min d e)
  have right := decreaseExponent_value n e (min d e)
  have leftExponent : (decreaseExponent m d (min d e)).2 = min d e := by
    simp only [decreaseExponent]
    omega
  have rightExponent : (decreaseExponent n e (min d e)).2 = min d e := by
    simp only [decreaseExponent]
    omega
  rw [leftExponent] at left
  rw [rightExponent] at right
  have cast : ∀ (s : Sign) (k : Nat), ((s.apply k : Int) : ℚ) = s.apply 1 * k := by
    intro s k
    cases s <;> simp [Sign.apply]
  simp only [UnpackedFloat.add]
  rw [normalize_eq]
  congr 1
  simp only [value]
  push_cast
  rw [cast s, cast t, cast s m, cast t n, add_mul, mul_assoc, mul_assoc, left, right]
  ring

theorem mul_finite {s t : Sign} {m n : Nat} {d e : Int} {hm : 0 < m} {hn : 0 < n}
    (fine : d + e ≤ gridExponent (m * 2 ^ d * (n * 2 ^ e))) :
    UnpackedFloat.mul Format.binary64 (.finite s m d hm) (.finite t n e hn)
      = rounded (s * t) (m * 2 ^ d * (n * 2 ^ e)) := by
  have exact : (m : ℚ) * 2 ^ d * (n * 2 ^ e) = (m * n : Nat) * 2 ^ (d + e) := by
    rw [zpow_add₀ (by norm_num)]
    push_cast
    ring
  have positive := mul_pos (magnitude_pos hm d) (magnitude_pos hn e)
  exact roundWithAccuracy_exact _ positive exact.symm fine

theorem mul_canonical {s t : Sign} {m n : Nat} {d e : Int} (hm : CanonicalMagnitude m d)
    (hn : CanonicalMagnitude n e) :
    UnpackedFloat.mul Format.binary64 (.finite s m d hm.positive) (.finite t n e hn.positive)
      = rounded (s * t) (m * 2 ^ d * (n * 2 ^ e)) := by
  apply mul_finite
  -- a product with a normal factor has enough bits, and that of two subnormals is far too small
  have mantissa : 2 ^ 52 ≤ m * n ∨ d + e = -2148 := by
    rcases hm.normal, hn.normal with ⟨hm' | hm', hn' | hn'⟩
    · exact .inl (le_trans hm' (Nat.le_mul_of_pos_right m hn.positive))
    · exact .inl (le_trans hm' (Nat.le_mul_of_pos_right m hn.positive))
    · exact .inl (le_trans hn' (Nat.le_mul_of_pos_left n hm.positive))
    · exact .inr (by omega)
  have positive := mul_pos (magnitude_pos hm.positive d) (magnitude_pos hn.positive e)
  rcases mantissa with big | small
  · have low : (2 : ℚ) ^ (52 + (d + e)) ≤ m * 2 ^ d * (n * 2 ^ e) := by
      calc
        (2 : ℚ) ^ (52 + (d + e)) = (2 ^ 52 : Nat) * (2 ^ d * 2 ^ e) := by
          rw [zpow_add₀ (by norm_num), zpow_add₀ (by norm_num)]
          norm_cast
        _ ≤ (m * n : Nat) * (2 ^ d * 2 ^ e) := by gcongr
        _ = m * 2 ^ d * (n * 2 ^ e) := by
          push_cast
          ring
    have log := (le_log_iff positive).2 low
    rw [gridExponent]
    omega
  · rw [gridExponent]
    omega

theorem div_finite {s t : Sign} {m n : Nat} {d e : Int} {hm : 0 < m} {hn : 0 < n} :
    UnpackedFloat.div Format.binary64 (.finite s m d hm) (.finite t n e hn)
      = rounded (s / t) (m * 2 ^ d / (n * 2 ^ e)) := by
  have hm' : (0 : ℚ) < m := by exact_mod_cast hm
  have hn' : (0 : ℚ) < n := by exact_mod_cast hn
  have positive := div_pos (magnitude_pos hm d) (magnitude_pos hn e)
  simp only [UnpackedFloat.div, divCore]
  generalize target : min (d - e)
    (Format.binary64.targetExponent (totalExponent m d - totalExponent n e)) = k
  have shift : k + ((d - e - k).toNat : Int) = d - e := by omega
  refine roundWithAccuracy_eq _ positive ?_ ?_
  · have quotient : (m : ℚ) * 2 ^ d / (n * 2 ^ e) / 2 ^ k = (m <<< (d - e - k).toNat : Nat) / n := by
      rw [Nat.shiftLeft_eq]
      push_cast
      rw [← zpow_natCast, show ((d - e - k).toNat : Int) = d - (e + k) by omega, zpow_sub₀ (by norm_num), zpow_add₀ (by norm_num)]
      field_simp
    rw [quotient]
    exact locates_div _ hn
  · have low : (2 : ℚ) ^ ((m.log2 : Int) + d - (n.log2 + 1 + e)) ≤ m * 2 ^ d / (n * 2 ^ e) := by
      have top : ((2 ^ m.log2 : Nat) : ℚ) ≤ m := by exact_mod_cast Nat.log2_self_le (by omega)
      have bottom : (n : ℚ) ≤ (2 ^ (n.log2 + 1) : Nat) := by exact_mod_cast Nat.lt_log2_self.le
      calc (2 : ℚ) ^ ((m.log2 : Int) + d - (n.log2 + 1 + e))
          = (2 ^ m.log2 : Nat) * 2 ^ d / ((2 ^ (n.log2 + 1) : Nat) * 2 ^ e) := by
            rw [zpow_sub₀ (by norm_num), zpow_add₀ (by norm_num), zpow_add₀ (by norm_num)]
            push_cast
            norm_cast
        _ ≤ m * 2 ^ d / (n * 2 ^ e) := by gcongr
    have log := (le_log_iff positive).2 low
    rw [gridExponent]
    rw [targetExponent_eq, totalExponent, totalExponent] at target
    omega

end LogicTree.Float64
