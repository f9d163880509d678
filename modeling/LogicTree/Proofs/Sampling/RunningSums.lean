import LogicTree.Proofs.Float64.Accumulation
import LogicTree.Proofs.Sampling

/-! # Two sums of the same weights

A level sums its weights twice: for its check the sum starts at negative zero, for a draw the
running sums start at zero. The last running sum is the sum of the check, unless all weights are
negative zeros. Running sums of weights that are not negative are numbers that never decrease, and
stay where a weight is zero.
-/

namespace LogicTree

open Float64

/-! ## Where a sum starts -/

theorem foldl_add_of_negativeZeros {weights : List Float} (zeros : ∀ w ∈ weights, w = -0.0) :
    weights.foldl (· + ·) 0.0 = 0.0 ∧ weights.foldl (· + ·) (-0.0) = -0.0 := by
  induction weights with
  | nil => exact ⟨rfl, rfl⟩
  | cons w weights ih =>
      obtain ⟨rfl, others⟩ := List.forall_mem_cons.1 zeros
      have positive : (0.0 : Float) + -0.0 = 0.0 := by decide
      have negative : (-0.0 : Float) + -0.0 = -0.0 := by decide
      rw [List.foldl_cons, List.foldl_cons, positive, negative]
      exact ih others

theorem foldl_add_eq_of_ne {weights : List Float} (other : ∃ w ∈ weights, w ≠ -0.0) :
    weights.foldl (· + ·) 0.0 = weights.foldl (· + ·) (-0.0) := by
  obtain ⟨w, member, ne⟩ := other
  -- The two starts end differently only if every weight was a negative zero.
  rcases foldl_add_negativeZero weights with same | ⟨zeros, -⟩
  · exact same.symm
  · exact absurd (zeros w member) ne

/-! ## Running sums -/

variable {weights : List Float} {start : Float}

theorem length_runningSums (weights : List Float) (start : Float) :
    (runningSums start weights).length = weights.length := by
  induction weights generalizing start with
  | nil => rfl
  | cons w weights ih => rw [runningSums, List.length_cons, ih, List.length_cons]

theorem getLast?_cumulativeWeights (nonempty : weights ≠ []) :
    (cumulativeWeights weights).getLast? = some (weights.foldl (· + ·) 0.0) := by
  have sum := getLast?_runningSums weights 0.0
  cases last : (cumulativeWeights weights).getLast? with
  | none =>
      have length := length_runningSums weights 0.0
      rw [cumulativeWeights, List.getLast?_eq_none_iff] at last
      rw [last] at length
      exact absurd (List.length_eq_zero_iff.1 length.symm) nonempty
  | some total =>
      rw [← sum, ← cumulativeWeights, last]
      rfl

section

variable (hweights : ∀ w ∈ weights, 0.0 ≤ w)
include hweights

theorem pairwise_runningSums (hstart : 0.0 ≤ start) :
    (start :: runningSums start weights).Pairwise (· ≤ ·) := by
  induction weights generalizing start with
  | nil => exact List.pairwise_singleton _ _
  | cons w weights ih =>
      obtain ⟨hw, hrest⟩ := List.forall_mem_cons.1 hweights
      have step : start ≤ start + w := le_add hstart hw
      have later := ih hrest (zero_le_add hstart hw)
      refine List.pairwise_cons.2 ⟨?_, later⟩
      intro sum member
      rcases List.mem_cons.1 member with rfl | after
      · exact step
      · exact le_of_le_of_le step ((List.pairwise_cons.1 later).1 sum after)

/-- A zero leaves the sum as it was, with the positive sign that it has from its start. -/
theorem getElem?_runningSums_of_zero (hstart : sign? (parts start) = some .positive)
    {position : Nat} {weight : Float} (h : weights[position]? = some weight)
    (zero : weight = 0.0 ∨ weight = -0.0) :
    (runningSums start weights)[position]? = (start :: runningSums start weights)[position]? := by
  induction weights generalizing start position with
  | nil => simp at h
  | cons w weights ih =>
      obtain ⟨hw, hrest⟩ := List.forall_mem_cons.1 hweights
      cases position with
      | zero =>
          obtain rfl : w = weight := by simpa using h
          have kept : start + w = start := by
            rcases zero with rfl | rfl
            · exact add_of_zero hstart parts_zero
            · exact add_of_zero hstart parts_negativeZero
          rw [runningSums, kept]
          rfl
      | succ position =>
          rw [runningSums, List.getElem?_cons_succ, List.getElem?_cons_succ]
          exact ih hrest (sign?_add hstart hw) (by simpa using h)

end

/-- The last running sum of some weights is what the draw from a level with these weights takes for
    their total, and it is the sum that the check of the level takes, unless all weights are
    negative zeros; then they are zeros of different signs. Doubles are equal here that have the
    same bits or are both no number. If no weight is negative, the running sums are numbers, they
    never decrease from zero on, and each of them is the one before it where the weight is zero. -/
theorem cumulativeWeights_weightSum (nonempty : weights ≠ []) :
    (∃ total, (cumulativeWeights weights).getLast? = some total ∧
      ∀ level : Level, level.weights = weights →
        level.cumulativeTotal = total ∧
        ((∃ w ∈ weights, w ≠ -0.0) → total = level.weightSum) ∧
        ((∀ w ∈ weights, w = -0.0) → total = 0.0 ∧ level.weightSum = -0.0)) ∧
    ((∀ w ∈ weights, 0.0 ≤ w) →
      (cumulativeWeights weights).length = weights.length ∧
      (0.0 :: cumulativeWeights weights).Pairwise (· ≤ ·) ∧
      (∀ sum ∈ cumulativeWeights weights, sum.isNaN = false) ∧
      ∀ (position : Nat) (weight : Float), weights[position]? = some weight →
        weight = 0.0 ∨ weight = -0.0 →
        (cumulativeWeights weights)[position]? =
          (0.0 :: cumulativeWeights weights)[position]?) := by
  constructor
  · refine ⟨_, getLast?_cumulativeWeights nonempty, ?_⟩
    rintro level rfl
    exact ⟨level.cumulativeTotal_eq, foldl_add_eq_of_ne, foldl_add_of_negativeZeros⟩
  · intro hweights
    have rising : (0.0 :: cumulativeWeights weights).Pairwise (· ≤ ·) :=
      pairwise_runningSums hweights (by decide)
    refine ⟨length_runningSums weights 0.0, rising, ?_, ?_⟩
    · intro sum member
      have above : 0.0 ≤ sum := (List.pairwise_cons.1 rising).1 sum member
      exact not_isNaN_iff.2 (isNumber_of_le above).2
    · intro position weight h zero
      exact getElem?_runningSums_of_zero hweights rfl h zero

/-- A level with both zeros among its weights. -/
def zeroWeighted : Level where
  number := 0
  label := "L"
  appliesTo := "All"
  branches := [⟨1, -0.0, .text "a", none, none⟩, ⟨2, 0.25, .text "b", none, none⟩,
    ⟨3, 0.0, .text "c", none, none⟩, ⟨4, -0.0, .text "d", none, none⟩,
    ⟨5, 0.75, .text "e", none, none⟩]

def unweighted : Level where
  number := 0
  label := "L"
  appliesTo := "All"
  branches := [⟨1, -0.0, .text "a", none, none⟩, ⟨2, -0.0, .text "b", none, none⟩]

/-- Weights among which are zeros, and weights that are nothing else. -/
theorem cumulativeWeights_weightSum_zeros :
    zeroWeighted.weights ≠ [] ∧ (∀ w ∈ zeroWeighted.weights, 0.0 ≤ w) ∧
      (cumulativeWeights zeroWeighted.weights).getLast? = some zeroWeighted.weightSum ∧
      zeroWeighted.cumulativeTotal = zeroWeighted.weightSum ∧
      (0.0 :: cumulativeWeights zeroWeighted.weights).Pairwise (· ≤ ·) ∧
      (∀ sum ∈ cumulativeWeights zeroWeighted.weights, sum.isNaN = false) ∧
      (cumulativeWeights zeroWeighted.weights)[3]? =
        (0.0 :: cumulativeWeights zeroWeighted.weights)[3]? ∧
      unweighted.weights ≠ [] ∧ (∀ w ∈ unweighted.weights, w = -0.0) ∧
      unweighted.cumulativeTotal = 0.0 ∧ unweighted.weightSum = -0.0 := by
  have nonempty : zeroWeighted.weights ≠ [] := by decide
  have nonempty' : unweighted.weights ≠ [] := by decide
  have notNegative : ∀ w ∈ zeroWeighted.weights, 0.0 ≤ w := by decide
  have negativeZeros : ∀ w ∈ unweighted.weights, w = -0.0 := by decide
  obtain ⟨⟨total, last, agree⟩, rise⟩ := cumulativeWeights_weightSum nonempty
  obtain ⟨⟨total', -, agree'⟩, -⟩ := cumulativeWeights_weightSum nonempty'
  obtain ⟨drawn, same, -⟩ := agree zeroWeighted rfl
  obtain ⟨drawn', -, zeros⟩ := agree' unweighted rfl
  have quarter : (0.25 : Float) ∈ zeroWeighted.weights := by simp [Level.weights, zeroWeighted]
  obtain rfl : total = zeroWeighted.weightSum := same ⟨0.25, quarter, by decide⟩
  obtain ⟨-, rising, numbers, stays⟩ := rise notNegative
  obtain ⟨positive, negative⟩ := zeros negativeZeros
  exact ⟨nonempty, notNegative, last, drawn, rising, numbers, stays 3 (-0.0) rfl (.inr rfl),
    nonempty', negativeZeros, drawn'.trans positive, negative⟩

end LogicTree
