import LogicTree.Proofs.Float64.Accumulation
import LogicTree.Proofs.Sampling
import LogicTree.Proofs.Sampling.UnitDraws

/-! # The draws that select a branch

The running sums of a level cut the draws from zero to below one into intervals. A branch of
positive weight is selected by the draws above the sum of the weights before it, up to the sum that
takes in its own weight; the last of these branches is selected by all draws above it, and the first
by zero too. As the weights sum to about one, the length of an interval is about the weight.
-/

namespace LogicTree

open Float64

namespace Level

variable {level : Level} {draw : Float} {position : Nat}

/-! ## Sums of the first weights -/

theorem sumBefore_succ {branch : Branch} (h : level.branches[position]? = some branch) :
    level.sumBefore (position + 1) = level.sumBefore position + branch.weight := by
  have hweight : level.weights[position]? = some branch.weight := by
    rw [weights, List.getElem?_map, h]
    rfl
  rw [sumBefore, sumBefore, List.take_add_one, hweight, List.foldl_append]
  rfl

theorem sumBefore_eq_foldl {start stop : Nat} (h : start ≤ stop) :
    level.sumBefore stop =
      ((level.weights.take stop).drop start).foldl (· + ·) (level.sumBefore start) := by
  have hsplit : level.weights.take stop =
      level.weights.take start ++ (level.weights.take stop).drop start := by
    have htake := List.take_append_drop start (level.weights.take stop)
    rw [List.take_take, Nat.min_eq_left h] at htake
    exact htake.symm
  rw [sumBefore, hsplit, List.foldl_append, ← hsplit]
  rfl

theorem cumulativeTotal_eq_sumBefore (level : Level) {stop : Nat}
    (h : level.branches.length ≤ stop) : level.cumulativeTotal = level.sumBefore stop := by
  rw [cumulativeTotal_eq, sumBefore, List.take_of_length_le (by simpa [weights] using h)]

section

variable (hweights : ∀ w ∈ level.weights, 0.0 ≤ w)
include hweights

theorem sign?_sumBefore (position : Nat) :
    sign? (parts (level.sumBefore position)) = some .positive :=
  sign?_foldl_add (fun w hw => hweights w (List.mem_of_mem_take hw)) rfl

theorem zero_le_sumBefore (position : Nat) : 0.0 ≤ level.sumBefore position :=
  zero_le_iff.2 (.inr (sign?_sumBefore hweights position))

theorem sumBefore_mono {start stop : Nat} (h : start ≤ stop) :
    level.sumBefore start ≤ level.sumBefore stop := by
  rw [sumBefore_eq_foldl h]
  exact le_foldl_add (fun w hw => hweights w (List.mem_of_mem_take (List.mem_of_mem_drop hw)))
    (zero_le_sumBefore hweights start)

theorem sumBefore_le_cumulativeTotal (position : Nat) :
    level.sumBefore position ≤ level.cumulativeTotal := by
  rw [cumulativeTotal_eq_sumBefore level (le_max_right position _)]
  exact sumBefore_mono hweights (le_max_left _ _)

theorem sumBefore_succ_of_not_positiveAt (h : ¬ level.PositiveAt position) :
    level.sumBefore (position + 1) = level.sumBefore position := by
  cases hbranch : level.branches[position]? with
  | none =>
      have hlength := List.getElem?_eq_none_iff.1 hbranch
      rw [← cumulativeTotal_eq_sumBefore level hlength,
        ← cumulativeTotal_eq_sumBefore level (Nat.le_succ_of_le hlength)]
  | some branch =>
      have hweight : 0.0 ≤ branch.weight :=
        hweights _ (List.mem_map_of_mem (List.mem_of_getElem? hbranch))
      obtain ⟨s, hzero⟩ := parts_of_not_zero_lt hweight fun hpos => h ⟨branch, hbranch, hpos⟩
      rw [sumBefore_succ hbranch, add_of_zero (sign?_sumBefore hweights position) hzero]

theorem sumBefore_eq_cumulativeTotal (h : level.NonePositiveAfter position) :
    level.sumBefore (position + 1) = level.cumulativeTotal := by
  have hsame : ∀ more, level.sumBefore (position + 1 + more) = level.sumBefore (position + 1) := by
    intro more
    induction more with
    | zero => rfl
    | succ more ih =>
        rw [← ih]
        exact sumBefore_succ_of_not_positiveAt hweights (h _ (Nat.lt_add_right more (by omega)))
  rw [← hsame level.branches.length]
  exact (cumulativeTotal_eq_sumBefore level (by omega)).symm

end

/-! ## Normalized levels -/

theorem toRat_weightTolerance_le : toRat weightTolerance ≤ 1 / 2 := by
  have hhalf : toRat 0.5 = 1 / 2 := by
    have hparts : parts 0.5 = .finite .positive (2 ^ 52) (-53) (by decide) := rfl
    rw [toRat, hparts, value_positive]
    norm_num
  rw [← hhalf]
  exact (le_iff_toRat (by decide) (by decide)).1 (by decide)

/-- The weights lie between zero and one, and sum to one up to rounding. -/
structure Normalized (level : Level) : Prop where
  unit : ∀ branch ∈ level.branches, isUnitWeight branch.weight = true
  near : level.NearlyOne

theorem normalized_of_check {tolerance : Float} (narrow : tolerance ≤ weightTolerance)
    (checked : level.check tolerance = .ok ()) : level.Normalized :=
  ⟨(check_eq_ok_iff.1 checked).2.2.1, (drawable_of_check narrow checked).reached⟩

namespace Normalized

variable (normalized : level.Normalized)
include normalized

theorem zero_le : ∀ w ∈ level.weights, 0.0 ≤ w :=
  zero_le_weights normalized.unit

theorem isFinite_cumulativeTotal : level.cumulativeTotal.isFinite = true := by
  have htotal : 0.0 ≤ level.cumulativeTotal := by
    rw [cumulativeTotal_eq]
    exact zero_le_foldl_add normalized.zero_le (by decide)
  exact isFinite_of_abs_sub_one_le htotal normalized.near (by decide)

theorem isFinite_sumBefore (position : Nat) : (level.sumBefore position).isFinite = true :=
  isFinite_of_le (zero_le_sumBefore normalized.zero_le position)
    (sumBefore_le_cumulativeTotal normalized.zero_le position) normalized.isFinite_cumulativeTotal

theorem toRat_sumBefore_mono {start stop : Nat} (h : start ≤ stop) :
    toRat (level.sumBefore start) ≤ toRat (level.sumBefore stop) :=
  (le_iff_toRat (normalized.isFinite_sumBefore start) (normalized.isFinite_sumBefore stop)).1
    (sumBefore_mono normalized.zero_le h)

theorem abs_toRat_cumulativeTotal_sub_one_le :
    |toRat level.cumulativeTotal - 1| ≤ toRat weightTolerance + 2 ^ (-53 : Int) := by
  have hnear := normalized.near
  rw [NearlyOne, abs_sub_one_eq_nearest normalized.isFinite_cumulativeTotal] at hnear
  have hdistance := abs_nonneg (toRat level.cumulativeTotal - 1)
  generalize |toRat level.cumulativeTotal - 1| = distance at *
  have finite : (nearest distance).isFinite = true :=
    isFinite_of_le (zero_le_nearest hdistance) hnear (by decide)
  have hle := (le_iff_toRat finite (by decide)).1 hnear
  have hsmall := toRat_weightTolerance_le
  have hround := abs_toRat_nearest_sub_le hdistance finite (by linarith)
  linarith [neg_abs_le (toRat (nearest distance) - distance)]

end Normalized

/-! ## Cutting at one -/

section

variable {low high weight slack step : ℚ}

/-- Cutting both ends of a step at one takes off no more than the high end is above one. -/
theorem abs_min_sub_min_sub_le (hstep : |high - (low + weight)| ≤ step) (hmono : low ≤ high)
    (hslack : 0 ≤ slack) (hhigh : high ≤ 1 + slack) :
    |min high 1 - min low 1 - weight| ≤ slack + step := by
  obtain ⟨hbelow, habove⟩ := abs_le.1 hstep
  rw [abs_le]
  rcases le_total low 1 with hlow | hlow
  · rcases le_total high 1 with hcut | hcut
    · rw [min_eq_left hlow, min_eq_left hcut]
      constructor <;> linarith
    · rw [min_eq_left hlow, min_eq_right hcut]
      constructor <;> linarith
  · rw [min_eq_right hlow, min_eq_right (hlow.trans hmono)]
    constructor <;> linarith

theorem abs_one_sub_min_sub_le (hstep : |high - (low + weight)| ≤ step) (hmono : low ≤ high)
    (hhigh : |high - 1| ≤ slack) : |1 - min low 1 - weight| ≤ slack + step := by
  obtain ⟨hbelow, habove⟩ := abs_le.1 hstep
  obtain ⟨hunder, hover⟩ := abs_le.1 hhigh
  rw [abs_le]
  rcases le_total low 1 with hlow | hlow
  · rw [min_eq_left hlow]
    constructor <;> linarith
  · rw [min_eq_right hlow]
    constructor <;> linarith

end

/-! ## Intervals -/

theorem nonePositiveAfter_iff :
    level.NonePositiveAfter position ↔
      ∀ branch ∈ level.branches.drop (position + 1), ¬ branch.weight > 0.0 := by
  constructor
  · intro h branch hbranch hpositive
    obtain ⟨more, hget⟩ := List.mem_iff_getElem?.1 hbranch
    rw [List.getElem?_drop] at hget
    exact h _ (by omega) ⟨branch, hget, hpositive⟩
  · rintro h later hlater ⟨branch, hget, hpositive⟩
    refine h branch (List.mem_iff_getElem?.2 ⟨later - (position + 1), ?_⟩) hpositive
    rw [List.getElem?_drop, Nat.add_sub_cancel' hlater, hget]

instance : Decidable (level.NonePositiveAfter position) :=
  decidable_of_iff _ nonePositiveAfter_iff.symm

/-- The sum of the weights before a position, but at most one. -/
def lowerEnd (level : Level) (position : Nat) : ℚ :=
  min (toRat (level.sumBefore position)) 1

/-- The sum of the weights up to a position, but at most one; it is one if no positive weight
    follows. -/
def upperEnd (level : Level) (position : Nat) : ℚ :=
  if level.NonePositiveAfter position then 1 else min (toRat (level.sumBefore (position + 1))) 1

theorem lowerEnd_lt_iff (hdraw : IsUnitDraw draw) :
    level.lowerEnd position < toRat draw ↔ toRat (level.sumBefore position) < toRat draw := by
  rw [lowerEnd, min_lt_iff, or_iff_left hdraw.toRat_lt_one.le.not_gt]

namespace Normalized

variable (normalized : level.Normalized)
include normalized

theorem reachedAt_iff (hdraw : IsUnitDraw draw) :
    level.ReachedAt draw position ↔
      level.PositiveAt position ∧ toRat draw ≤ toRat (level.sumBefore (position + 1)) := by
  rw [ReachedAt, ge_iff_le, le_iff_toRat hdraw.isFinite (normalized.isFinite_sumBefore _)]

/-- A draw that is not reached before a position lies above the sum there, or is zero and no
    positive weight comes before. -/
theorem not_reached_before_iff (hdraw : IsUnitDraw draw) (position : Nat) :
    (∀ earlier < position, ¬ level.ReachedAt draw earlier) ↔
      toRat (level.sumBefore position) < toRat draw ∨
        toRat draw = 0 ∧ ∀ earlier < position, ¬ level.PositiveAt earlier := by
  induction position with
  | zero =>
      have hzero : toRat (level.sumBefore 0) = 0 := toRat_of_zero parts_zero
      simpa [hzero, eq_comm] using hdraw.toRat_nonneg.lt_or_eq
  | succ position ih =>
      rw [Nat.forall_lt_succ_right, Nat.forall_lt_succ_right]
      by_cases hpositive : level.PositiveAt position
      · -- the sums increase, so what is not reached here is not reached before
        constructor
        · rintro ⟨-, hhere⟩
          rw [normalized.reachedAt_iff hdraw, not_and, not_le] at hhere
          exact .inl (hhere hpositive)
        · rintro (habove | ⟨-, -, hnot⟩)
          · have hnot : ∀ earlier ≤ position, ¬ level.ReachedAt draw earlier := by
              intro earlier hearlier hreached
              have hsum := ((normalized.reachedAt_iff hdraw).1 hreached).2
              have hmono := normalized.toRat_sumBefore_mono (Nat.succ_le_succ hearlier)
              exact absurd (hsum.trans hmono) (not_le.2 habove)
            exact ⟨fun earlier hearlier => hnot earlier hearlier.le, hnot position le_rfl⟩
          · exact absurd hpositive hnot
      · have hhere : ¬ level.ReachedAt draw position := fun hreached => hpositive hreached.1
        rw [sumBefore_succ_of_not_positiveAt normalized.zero_le hpositive]
        simp only [hhere, hpositive, not_false_eq_true, and_true]
        exact ih

theorem le_upperEnd_iff (hdraw : IsUnitDraw draw) (position : Nat) :
    toRat draw ≤ level.upperEnd position ↔
      level.sumBefore (position + 1) ≥ draw ∨ level.NonePositiveAfter position ∧ level.NearlyOne := by
  rw [ge_iff_le, le_iff_toRat hdraw.isFinite (normalized.isFinite_sumBefore _), upperEnd]
  split
  next hlast => simp [hlast, normalized.near, hdraw.toRat_lt_one.le]
  next hnot => simp [hnot, hdraw.toRat_lt_one.le]

theorem zero_le_upperEnd : 0 ≤ level.upperEnd position := by
  rw [upperEnd]
  split
  · exact zero_le_one
  · exact le_min (toRat_nonneg (zero_le_sumBefore normalized.zero_le _)) zero_le_one

/-- A position of positive weight is selected by the draws of its interval, and the first of them
    by zero too. -/
theorem selects_iff (hdraw : IsUnitDraw draw) :
    level.Selects draw position ↔
      level.PositiveAt position ∧
        (level.lowerEnd position < toRat draw ∧ toRat draw ≤ level.upperEnd position ∨
          toRat draw = 0 ∧ ∀ earlier < position, ¬ level.PositiveAt earlier) := by
  rw [lowerEnd_lt_iff hdraw]
  have hfirst := normalized.not_reached_before_iff hdraw position
  have hreached := normalized.le_upperEnd_iff hdraw position
  constructor
  · rintro ⟨hpositive, hbefore, hhere⟩
    refine ⟨hpositive, ?_⟩
    rcases hfirst.1 hbefore with habove | hzero
    · exact .inl ⟨habove, hreached.2 hhere⟩
    · exact .inr hzero
  · rintro ⟨hpositive, ⟨habove, hbelow⟩ | hzero⟩
    · exact ⟨hpositive, hfirst.2 (.inl habove), hreached.1 hbelow⟩
    · refine ⟨hpositive, hfirst.2 (.inr hzero), hreached.1 ?_⟩
      rw [hzero.1]
      exact normalized.zero_le_upperEnd

/-! ## Lengths -/

theorem toRat_sumBefore_le (position : Nat) :
    toRat (level.sumBefore position) ≤ 1 + (toRat weightTolerance + 2 ^ (-53 : Int)) := by
  have htotal := (le_iff_toRat (normalized.isFinite_sumBefore position)
    normalized.isFinite_cumulativeTotal).1 (sumBefore_le_cumulativeTotal normalized.zero_le position)
  have hdistance := (abs_le.1 normalized.abs_toRat_cumulativeTotal_sub_one_le).2
  linarith

theorem abs_sumBefore_succ_sub_le {branch : Branch}
    (hbranch : level.branches[position]? = some branch) :
    |toRat (level.sumBefore (position + 1)) - (toRat (level.sumBefore position) + toRat branch.weight)|
      ≤ 2 ^ (-53 : Int) := by
  have hunit := normalized.unit branch (List.mem_of_getElem? hbranch)
  have hsum := normalized.toRat_sumBefore_le (position + 1)
  have finite := normalized.isFinite_sumBefore (position + 1)
  have hsmall : toRat (level.sumBefore (position + 1)) < 2 := by
    have hstep : (2 : ℚ) ^ (-53 : Int) ≤ 2 ^ (-1 : Int) :=
      zpow_le_zpow_right₀ (by norm_num) (by norm_num)
    have htolerance := toRat_weightTolerance_le
    norm_num at hstep htolerance hsum ⊢
    linarith
  rw [sumBefore_succ hbranch] at hsmall finite ⊢
  exact abs_toRat_add_sub_le (sign?_sumBefore normalized.zero_le position)
    (normalized.isFinite_sumBefore position) (zero_le_of_isUnitWeight hunit)
    (isFinite_of_isUnitWeight hunit) finite hsmall

theorem abs_length_sub_weight_le {branch : Branch}
    (hbranch : level.branches[position]? = some branch) :
    |level.upperEnd position - level.lowerEnd position - toRat branch.weight| ≤
      toRat weightTolerance + 2 ^ (-52 : Int) := by
  have hstep := normalized.abs_sumBefore_succ_sub_le hbranch
  have hmono := normalized.toRat_sumBefore_mono (Nat.le_succ position)
  have hhigh := normalized.toRat_sumBefore_le (position + 1)
  have htwice : (2 : ℚ) ^ (-52 : Int) = 2 ^ (-53 : Int) + 2 ^ (-53 : Int) := by norm_num
  rw [htwice, ← add_assoc, lowerEnd, upperEnd]
  split
  next hlast =>
    have htotal := normalized.abs_toRat_cumulativeTotal_sub_one_le
    rw [← sumBefore_eq_cumulativeTotal normalized.zero_le hlast] at htotal
    exact abs_one_sub_min_sub_le hstep hmono htotal
  next =>
    have hslack : 0 ≤ toRat weightTolerance + 2 ^ (-53 : Int) :=
      add_nonneg (Float64.toRat_nonneg (by decide)) (by positivity)
    exact abs_min_sub_min_sub_le hstep hmono hslack hhigh

end Normalized

end Level

namespace Tree

variable {E : Type}

/-- Sampling realises the weights. In a checked level the draws that give the id of a branch are
    those of its interval, which runs from the sum before it to the sum that takes in its weight,
    and for the first positive weight also zero; and the interval is about as long as the weight. -/
theorem sampleLevel_realises_weights {tree : Tree E} {index : Nat} {level : Level}
    {tolerance : Float} (stands : tree.level index = .ok level)
    (narrow : tolerance ≤ weightTolerance) (checked : level.check tolerance = .ok ()) :
    (∀ position < level.branches.length,
      (cumulativeWeights level.weights)[position]? = some (level.sumBefore (position + 1))) ∧
    ∀ position branch, level.branches[position]? = some branch →
      (∀ {σ : Type} [UniformSource σ] (source : σ), IsUnitDraw (UniformSource.next source).1 →
        ((tree.sampleLevel index source).result = .ok branch.id ↔
          branch.weight > 0.0 ∧
            (level.lowerEnd position < toRat (UniformSource.next source).1 ∧
                toRat (UniformSource.next source).1 ≤ level.upperEnd position ∨
              toRat (UniformSource.next source).1 = 0 ∧
                ∀ earlier < position, ¬ level.PositiveAt earlier))) ∧
      |level.upperEnd position - level.lowerEnd position - toRat branch.weight| ≤
        toRat weightTolerance + 2 ^ (-52 : Int) := by
  have normalized := Level.normalized_of_check narrow checked
  have numbered := (Level.check_eq_ok_iff.1 checked).2.1
  refine ⟨fun position hposition => Level.getElem?_cumulativeWeights hposition, ?_⟩
  intro position branch hbranch
  refine ⟨?_, normalized.abs_length_sub_weight_le hbranch⟩
  intro σ _ source hdraw
  rw [← Level.positiveAt_iff hbranch, ← normalized.selects_iff hdraw, sampleLevel, stands, Level.sample_eq_ok_iff]
  exact numbered.selectsId_iff hbranch

/-- Two uneven choices with an impossible one between them. -/
def unevenLevel : Level :=
  ⟨0, "", "", [⟨1, 0.25, .text "", none, none⟩, ⟨2, 0.0, .text "", none, none⟩,
    ⟨3, 0.75, .text "", none, none⟩]⟩

/-- The tree of one uneven level. -/
def uneven : Tree String := ⟨"", [unevenLevel], ∅⟩

theorem sampleLevel_realises_weights_uneven :
    uneven.level 0 = .ok unevenLevel ∧ weightTolerance ≤ weightTolerance ∧
      unevenLevel.check weightTolerance = .ok () ∧ IsUnitDraw 0.5 ∧
      (unevenLevel.lowerEnd 2 < toRat 0.5 ∧ toRat 0.5 ≤ unevenLevel.upperEnd 2 ∨
        toRat 0.5 = 0 ∧ ∀ earlier < 2, ¬ unevenLevel.PositiveAt earlier) ∧
      |unevenLevel.upperEnd 2 - unevenLevel.lowerEnd 2 - toRat 0.75| ≤
        toRat weightTolerance + 2 ^ (-52 : Int) := by
  have stands : uneven.level 0 = .ok unevenLevel := rfl
  have narrow : weightTolerance ≤ weightTolerance := by decide
  have checked : unevenLevel.check weightTolerance = .ok () := rfl
  have unit : IsUnitDraw 0.5 := ⟨by decide, by decide⟩
  obtain ⟨-, hintervals⟩ := sampleLevel_realises_weights stands narrow checked
  obtain ⟨hdraws, hlength⟩ := hintervals 2 _ rfl
  have hdrawn := (hdraws (Replay.start 0.5 []) unit).1 rfl
  exact ⟨stands, narrow, checked, unit, hdrawn.2, hlength⟩

end Tree

end LogicTree
