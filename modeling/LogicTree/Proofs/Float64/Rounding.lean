import LogicTree.Proofs.Float64.Order

/-! # Rounding to doubles

Arithmetic on doubles shifts mantissas to the right and keeps two residual bits of what falls off.
The result is the exact rational result rounded to the grid of doubles around it, a tie going to the
even mantissa. It depends on the rational number alone and not on how that was come by.
-/

namespace LogicTree.Float64

open Float.Model Float.Model.UnpackedFloat

/-- The natural number nearest to a rational number that is not negative, a tie going to the even
    neighbour. -/
def nearestEven (x : ℚ) : Nat :=
  match cmp (x - ⌊x⌋₊) (1 / 2) with
  | .lt => ⌊x⌋₊
  | .eq => ⌊x⌋₊ + ⌊x⌋₊ % 2
  | .gt => ⌊x⌋₊ + 1

/-- The exponent of the last mantissa bit of the doubles near a positive rational number. -/
def gridExponent (q : ℚ) : Int := max (Int.log 2 q - 52) (-1074)

/-- Parts with a mantissa that rounding may have carried to `2 ^ 53`. -/
def carried (s : Sign) (m : Nat) (e : Int) : UnpackedFloat :=
  if h : m = 0 then .zero s
  else if m < 2 ^ 53 then .finite s m e (Nat.pos_of_ne_zero h)
  else .finite s (2 ^ 52) (e + 1) (by decide)

/-- The parts nearest to a positive rational number, under a sign. -/
def rounded (s : Sign) (q : ℚ) : UnpackedFloat :=
  carried s (nearestEven (q / 2 ^ gridExponent q)) (gridExponent q)

/-! ## Residual bits -/

/-- A mantissa with its residual bits says where a rational number lies. -/
def Locates (em : ExtendedMantissa) (x : ℚ) : Prop :=
  match em.roundBit, em.stickyBit with
  | false, false => x = em.mantissa
  | false, true => em.mantissa < x ∧ x < em.mantissa + 1 / 2
  | true, false => x = em.mantissa + 1 / 2
  | true, true => em.mantissa + 1 / 2 < x ∧ x < em.mantissa + 1

theorem Locates.bounds {em : ExtendedMantissa} {x : ℚ} (h : Locates em x) :
    em.mantissa ≤ x ∧ x < em.mantissa + 1 := by
  obtain ⟨m, r, s⟩ := em
  cases r <;> cases s <;> simp only [Locates] at h <;> constructor <;> linarith

theorem Locates.floor {em : ExtendedMantissa} {x : ℚ} (h : Locates em x) : ⌊x⌋₊ = em.mantissa := by
  obtain ⟨low, high⟩ := h.bounds
  exact (Nat.floor_eq_iff (le_trans (by positivity) low)).2 ⟨low, high⟩

theorem Locates.shiftRightOne {em : ExtendedMantissa} {x : ℚ} (h : Locates em x) :
    Locates em.shiftRightOne (x / 2) := by
  obtain ⟨m, r, s⟩ := em
  have split : (m : ℚ) = 2 * (m / 2 : Nat) + (m % 2 : Nat) := by
    exact_mod_cast (Nat.div_add_mod m 2).symm
  rcases Nat.mod_two_eq_zero_or_one m with bit | bit <;> rw [bit] at split <;> push_cast at split <;>
    cases r <;> cases s <;> simp [Locates, ExtendedMantissa.shiftRightOne, bit] at h ⊢ <;>
    first
      | linarith
      | constructor <;> linarith

theorem Locates.shiftRight {em : ExtendedMantissa} {x : ℚ} (h : Locates em x) (k : Nat) :
    Locates (em >>> k) (x / 2 ^ k) := by
  induction k with
  | zero =>
      rw [pow_zero, div_one]
      exact h
  | succ k ih =>
      have step := ih.shiftRightOne
      rw [div_div, ← pow_succ] at step
      exact step

theorem Locates.roundedMantissa {em : ExtendedMantissa} {x : ℚ} (h : Locates em x) :
    em.roundedMantissa = nearestEven x := by
  have floor := h.floor
  obtain ⟨m, r, s⟩ := em
  simp only at floor
  rw [nearestEven, floor]
  cases r <;> cases s <;> simp only [Locates] at h
  · rw [(cmp_eq_lt_iff _ _).2 (by linarith)]; rfl
  · rw [(cmp_eq_lt_iff _ _).2 (by linarith)]; rfl
  · rw [(cmp_eq_eq_iff _ _).2 (by linarith)]; rfl
  · rw [(cmp_eq_gt_iff _ _).2 (by linarith)]; rfl


/-! ## Rounding -/

theorem zpow_log_le {q : ℚ} (hq : 0 < q) : (2 : ℚ) ^ Int.log 2 q ≤ q := by
  exact_mod_cast Int.zpow_log_le_self (by decide : 1 < 2) hq

theorem lt_zpow_log (q : ℚ) : q < (2 : ℚ) ^ (Int.log 2 q + 1) := by
  exact_mod_cast Int.lt_zpow_succ_log_self (by decide : 1 < 2) q

theorem le_log_iff {q : ℚ} (hq : 0 < q) {k : Int} : k ≤ Int.log 2 q ↔ (2 : ℚ) ^ k ≤ q := by
  rw [← Int.zpow_le_iff_le_log (b := 2) (by decide) hq, Nat.cast_ofNat]

theorem log_lt_iff {q : ℚ} (hq : 0 < q) {k : Int} : Int.log 2 q < k ↔ q < (2 : ℚ) ^ k := by
  rw [← Int.lt_zpow_iff_log_lt (b := 2) (by decide) hq, Nat.cast_ofNat]

theorem log_eq {q : ℚ} {k : Int} (low : (2 : ℚ) ^ k ≤ q) (high : q < 2 ^ (k + 1)) :
    Int.log 2 q = k := by
  have hq : 0 < q := lt_of_lt_of_le (by positivity) low
  have := (le_log_iff hq).2 low
  have := (log_lt_iff hq).2 high
  omega

theorem targetExponent_eq (t : Int) :
    Format.binary64.targetExponent t = max (t - 53) (-1074) := rfl

theorem ofMantissaAndAccuracy_mantissa (m : Nat) (a : Accuracy) :
    (ExtendedMantissa.ofMantissaAndAccuracy m a).mantissa = m := by
  cases a with
  | exact => rfl
  | inexact o => cases o <;> rfl

theorem targetExponent_eq_gridExponent {m : Nat} {e : Int} {q : ℚ} (hq : 0 < q)
    (low : m * (2 : ℚ) ^ e ≤ q) (high : q < (m + 1) * 2 ^ e)
    (fine : 0 < m ∨ e ≤ gridExponent q) :
    Format.binary64.targetExponent (totalExponent m e) = gridExponent q := by
  rw [targetExponent_eq, totalExponent, gridExponent]
  rcases Nat.eq_zero_or_pos m with rfl | hm
  · have fine := fine.resolve_left (Nat.lt_irrefl 0)
    have below : Int.log 2 q < e := by
      refine (log_lt_iff hq).2 ?_
      simpa using high
    rw [gridExponent] at fine
    have zero : Nat.log2 0 = 0 := rfl
    omega
  · have log : Int.log 2 q = m.log2 + e := by
      have floor : 2 ^ m.log2 ≤ m := Nat.log2_self_le (by omega)
      have ceiling : m + 1 ≤ 2 ^ (m.log2 + 1) := Nat.lt_log2_self
      apply log_eq
      · calc
          (2 : ℚ) ^ ((m.log2 : Int) + e) = (2 ^ m.log2 : Nat) * 2 ^ e := by
            rw [zpow_add₀ (by norm_num)]
            push_cast
            norm_cast
          _ ≤ m * 2 ^ e := by gcongr
          _ ≤ q := low
      · calc
          q < (m + 1 : Nat) * (2 : ℚ) ^ e := by
            push_cast
            exact high
          _ ≤ (2 ^ (m.log2 + 1) : Nat) * 2 ^ e := by gcongr
          _ = 2 ^ ((m.log2 : Int) + e + 1) := by
            rw [add_right_comm, zpow_add₀ (by norm_num)]
            push_cast
            norm_cast
    omega

theorem nearestEven_bounds (x : ℚ) : ⌊x⌋₊ ≤ nearestEven x ∧ nearestEven x ≤ ⌊x⌋₊ + 1 := by
  unfold nearestEven
  split <;> omega

theorem nearestEven_natCast (n : Nat) : nearestEven n = n := by
  have : cmp ((n : ℚ) - n) (1 / 2) = .lt := (cmp_eq_lt_iff _ _).2 (by norm_num)
  rw [nearestEven, Nat.floor_natCast, this]

theorem div_grid_lt (q : ℚ) : q / 2 ^ gridExponent q < 2 ^ 53 := by
  rw [div_lt_iff₀ (by positivity)]
  calc q < 2 ^ (Int.log 2 q + 1) := lt_zpow_log q
    _ ≤ 2 ^ (53 + gridExponent q) := by
        apply zpow_le_zpow_right₀ (by norm_num)
        rw [gridExponent]
        omega
    _ = 2 ^ 53 * 2 ^ gridExponent q := by rw [zpow_add₀ (by norm_num)]; norm_cast

theorem le_div_grid {q : ℚ} (hq : 0 < q) (h : gridExponent q ≠ -1074) :
    2 ^ 52 ≤ q / 2 ^ gridExponent q := by
  rw [le_div_iff₀ (by positivity)]
  calc (2 : ℚ) ^ 52 * 2 ^ gridExponent q = 2 ^ (52 + gridExponent q) := by
        rw [zpow_add₀ (by norm_num)]; norm_cast
    _ = 2 ^ Int.log 2 q := by
        rw [gridExponent] at h ⊢
        congr 1
        omega
    _ ≤ q := zpow_log_le hq

theorem nearestEven_div_grid_le {q : ℚ} (hq : 0 < q) :
    nearestEven (q / 2 ^ gridExponent q) ≤ 2 ^ 53 := by
  have floor : ⌊q / 2 ^ gridExponent q⌋₊ < 2 ^ 53 := by
    refine (Nat.floor_lt (by positivity)).2 ?_
    exact_mod_cast div_grid_lt q
  have := (nearestEven_bounds (q / 2 ^ gridExponent q)).2
  omega

theorem le_nearestEven_div_grid {q : ℚ} (hq : 0 < q) (h : gridExponent q ≠ -1074) :
    2 ^ 52 ≤ nearestEven (q / 2 ^ gridExponent q) := by
  refine le_trans (Nat.le_floor ?_) (nearestEven_bounds _).1
  exact_mod_cast le_div_grid hq h

theorem shiftToTargetExponent_exact_zero (e : Int) :
    (shiftToTargetExponent Format.binary64 0 e .exact).1.mantissa = 0 := by
  have zero : ∀ k : Nat, (⟨0, false, false⟩ : ExtendedMantissa) >>> k = ⟨0, false, false⟩ := by
    intro k
    induction k with
    | zero => rfl
    | succ k ih =>
        change ((⟨0, false, false⟩ : ExtendedMantissa) >>> k).shiftRightOne = _
        rw [ih]
        rfl
  simp only [shiftToTargetExponent, shiftToExponent, ExtendedMantissa.ofMantissaAndAccuracy, zero]

theorem shiftToTargetExponent_exact {m : Nat} {e : Int} (h : m < 2 ^ 53) (low : -1074 ≤ e) :
    shiftToTargetExponent Format.binary64 m e .exact = (⟨m, false, false⟩, e) := by
  have log : m.log2 ≤ 52 := by
    by_cases hm : m = 0
    · simp [hm]
    · exact Nat.lt_succ_iff.1 ((Nat.log2_lt hm).2 h)
  have none : (Format.binary64.targetExponent (totalExponent m e) - e).toNat = 0 := by
    rw [targetExponent_eq, totalExponent]
    omega
  simp only [shiftToTargetExponent, shiftToExponent, none, Nat.cast_zero, add_zero]
  rfl

theorem shiftToTargetExponent_carried {e : Int} (low : -1074 ≤ e) :
    shiftToTargetExponent Format.binary64 (2 ^ 53) e .exact = (⟨2 ^ 52, false, false⟩, e + 1) := by
  have one : (Format.binary64.targetExponent (totalExponent (2 ^ 53) e) - e).toNat = 1 := by
    rw [targetExponent_eq, totalExponent, Nat.log2_two_pow]
    omega
  simp only [shiftToTargetExponent, shiftToExponent, one, Nat.cast_one]
  rfl

/-- The second shift carries a mantissa of `2 ^ 53` over and leaves any other as it is. -/
theorem carry_eq (s : Sign) {m : Nat} {e : Int} (h : m ≤ 2 ^ 53) (low : -1074 ≤ e) :
    let shifted := shiftToTargetExponent Format.binary64 m e .exact
    (if none : shifted.1.mantissa = 0 then UnpackedFloat.zero s
      else .finite s shifted.1.mantissa shifted.2 (Nat.pos_of_ne_zero none)) = carried s m e := by
  intro shifted
  rw [carried]
  by_cases zero : m = 0
  · subst zero
    rw [dif_pos (shiftToTargetExponent_exact_zero e), dif_pos rfl]
  · by_cases small : m < 2 ^ 53
    · simp only [shifted, shiftToTargetExponent_exact small low, dif_neg zero, if_pos small]
    · obtain rfl : m = 2 ^ 53 := by omega
      simp only [shifted, shiftToTargetExponent_carried low, dif_neg zero, if_neg small]
      rfl

/-- Rounding a located number rounds the number itself, to nearest and ties to even. -/
theorem roundWithAccuracy_eq (s : Sign) {m : Nat} {e : Int} {a : Accuracy} {q : ℚ} (hq : 0 < q)
    (located : Locates (.ofMantissaAndAccuracy m a) (q / 2 ^ e)) (fine : e ≤ gridExponent q) :
    roundWithAccuracy Format.binary64 s m e a = rounded s q := by
  have unit : (0 : ℚ) < 2 ^ e := by positivity
  have target : Format.binary64.targetExponent (totalExponent m e) = gridExponent q := by
    obtain ⟨low, high⟩ := located.bounds
    rw [ofMantissaAndAccuracy_mantissa] at low high
    exact targetExponent_eq_gridExponent hq ((le_div_iff₀ unit).1 low) ((div_lt_iff₀ unit).1 high)
      (.inr fine)
  have mantissa : (ExtendedMantissa.ofMantissaAndAccuracy m a
      >>> (gridExponent q - e).toNat).roundedMantissa = nearestEven (q / 2 ^ gridExponent q) := by
    rw [(located.shiftRight _).roundedMantissa, div_div, ← zpow_natCast, ← zpow_add₀ (by norm_num)]
    congr 3
    omega
  have exponent : e + ((gridExponent q - e).toNat : Int) = gridExponent q := by omega
  rw [roundWithAccuracy, shiftToTargetExponent, shiftToExponent, target]
  simp only [mantissa, exponent]
  exact carry_eq s (nearestEven_div_grid_le hq) (le_max_right _ _)


/-! ## What rounding gives -/

theorem carried_eq_finite (s : Sign) {m : Nat} {e : Int} (h : 0 < m) (small : m < 2 ^ 53) :
    carried s m e = .finite s m e h := by
  rw [carried, dif_neg (Nat.ne_of_gt h), if_pos small]

theorem rounded_natCast_mul (s : Sign) {m : Nat} {q : ℚ} (h : 0 < m) (small : m < 2 ^ 53)
    (eq : q = m * 2 ^ gridExponent q) : rounded s q = .finite s m (gridExponent q) h := by
  have scaled : q / 2 ^ gridExponent q = m := by
    rw [div_eq_iff (by positivity)]
    exact eq
  rw [rounded, scaled, nearestEven_natCast, carried_eq_finite s h small]

theorem CanonicalMagnitude.gridExponent_eq {m : Nat} {e : Int} (h : CanonicalMagnitude m e) :
    gridExponent (m * 2 ^ e) = e := by
  obtain ⟨positive, below, lowest, -, normal⟩ := h
  have high : (m : ℚ) * 2 ^ e < 2 ^ (53 + e) := by
    rw [zpow_add₀ (by norm_num)]
    have : (m : ℚ) < 2 ^ 53 := by exact_mod_cast below
    gcongr
    exact_mod_cast this
  have hq := magnitude_pos positive e
  have log := (log_lt_iff hq).2 high
  rw [gridExponent]
  by_cases big : 2 ^ 52 ≤ m
  · have low : (2 : ℚ) ^ (52 + e) ≤ m * 2 ^ e := by
      rw [zpow_add₀ (by norm_num)]
      gcongr
      exact_mod_cast big
    have := (le_log_iff hq).2 low
    omega
  · have := normal.resolve_left big
    omega

theorem rounded_canonical (s : Sign) {m : Nat} {e : Int} (h : CanonicalMagnitude m e) :
    rounded s (m * 2 ^ e) = .finite s m e h.positive := by
  have grid := h.gridExponent_eq
  rw [rounded_natCast_mul s h.positive h.below (by rw [grid])]
  simp only [grid]

theorem exists_canonical {m : Nat} {e : Int} (h : 0 < m) (small : m < 2 ^ 53) (low : -1074 ≤ e)
    (high : e ≤ 971) : ∃ k x, CanonicalMagnitude k x ∧ (k : ℚ) * 2 ^ x = m * 2 ^ e := by
  have floor : 2 ^ m.log2 ≤ m := Nat.log2_self_le (by omega)
  have ceiling : m < 2 ^ (m.log2 + 1) := Nat.lt_log2_self
  have log : m.log2 < 53 := (Nat.log2_lt (by omega)).2 small
  let x : Int := max ((m.log2 : Int) + e - 52) (-1074)
  have le : x ≤ e := by omega
  refine ⟨m * 2 ^ (e - x).toNat, x, ⟨by positivity, ?_, by omega, by omega, ?_⟩, ?_⟩
  · calc
      m * 2 ^ (e - x).toNat < 2 ^ (m.log2 + 1) * 2 ^ (e - x).toNat := by gcongr
      _ = 2 ^ (m.log2 + 1 + (e - x).toNat) := (pow_add _ _ _).symm
      _ ≤ 2 ^ 53 := Nat.pow_le_pow_right (by decide) (by omega)
  · by_cases least : x = -1074
    · exact .inr least
    · refine .inl ?_
      calc
        2 ^ 52 = 2 ^ (m.log2 + (e - x).toNat) := by
          congr 1
          omega
        _ = 2 ^ m.log2 * 2 ^ (e - x).toNat := pow_add _ _ _
        _ ≤ m * 2 ^ (e - x).toNat := by gcongr
  · push_cast
    rw [mul_assoc, ← zpow_natCast, ← zpow_add₀ (by norm_num)]
    congr 2
    omega

/-- The double nearest to a rational number that is not negative; infinity when that is too
    large. -/
def nearest (q : ℚ) : Float := ofParts (rounded .positive q)

theorem nearest_zero : nearest 0 = ofParts (.zero .positive) := by
  have zero : nearestEven (0 / 2 ^ gridExponent 0) = 0 := by
    rw [zero_div]
    exact_mod_cast nearestEven_natCast 0
  rw [nearest, rounded, zero]
  rfl

theorem nearest_canonical {m : Nat} {e : Int} (h : CanonicalMagnitude m e) :
    nearest (m * 2 ^ e) = ofParts (.finite .positive m e h.positive) := by
  rw [nearest, rounded_canonical .positive h]

theorem nearestEven_eq_zero {x : ℚ} (high : x < 1 / 2) : nearestEven x = 0 := by
  have floor : ⌊x⌋₊ = 0 := Nat.floor_eq_zero.2 (by linarith)
  rw [nearestEven, floor, (cmp_eq_lt_iff _ _).2 (by push_cast; linarith)]

theorem nearest_tiny {q : ℚ} (hq : 0 < q) (h : q < 2 ^ (-1075 : Int)) :
    nearest q = ofParts (.zero .positive) := by
  have log := (log_lt_iff hq).2 h
  have grid : gridExponent q = -1074 := by
    rw [gridExponent]
    omega
  have half : q / 2 ^ (-1074 : Int) < 1 / 2 := by
    rw [div_lt_iff₀ (by positivity)]
    calc q < 2 ^ (-1 + -1074 : Int) := h
      _ = 1 / 2 * 2 ^ (-1074 : Int) := by rw [zpow_add₀ (by norm_num), zpow_neg_one, one_div]
  have zero : nearestEven (q / 2 ^ gridExponent q) = 0 := by
    rw [grid]
    exact nearestEven_eq_zero half
  rw [nearest, rounded, zero]
  rfl

theorem ofParts_overflow (s : Sign) {m : Nat} {e : Int} (h : 0 < m) (high : 972 ≤ e) :
    ofParts (.finite s m e h) = ofParts (.infinity s) := by
  have biased : e + (Format.binary64.exponentBias : Int)
      + (Format.binary64.mantissaBitsWithoutImplicit : Int) = e + 1075 := by
    change e + 1023 + 52 = _
    omega
  have word : UnpackedFloat.pack Format.binary64 (.finite s m e h)
      = UnpackedFloat.pack Format.binary64 (.infinity s) := by
    simp only [UnpackedFloat.pack, biased]
    rw [if_pos (by omega)]
  simp only [ofParts, Float.Model.pack, word]

theorem nearest_huge {q : ℚ} (h : 2 ^ (1024 : Int) ≤ q) :
    nearest q = ofParts (.infinity .positive) := by
  have hq : 0 < q := lt_of_lt_of_le (by positivity) h
  have log := (le_log_iff hq).2 h
  have grid : 972 ≤ gridExponent q := by
    rw [gridExponent]
    omega
  have positive := le_nearestEven_div_grid hq (by omega)
  rw [nearest, rounded, carried, dif_neg (by omega)]
  split
  · exact ofParts_overflow _ _ grid
  · exact ofParts_overflow _ _ (by omega)

end LogicTree.Float64
