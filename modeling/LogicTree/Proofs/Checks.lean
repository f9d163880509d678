import LogicTree.Proofs.Float64.Sums
import LogicTree.Proofs.Levels
import LogicTree.Proofs.PathCount
import LogicTree.Proofs.Steps

/-! # What the check of a tree accepts

A well-formed tree has a level, its levels stand where they say, their ids count from one, their
weights lie between zero and one, and the weights of each sum to one up to a tolerance. The check
accepts all well-formed trees. It tests whether a sum is too far off, so it accepts no others unless
the tolerance is not a number: nothing is too far off then, and the sums are not looked at.
-/

namespace LogicTree

namespace Level

open Float64

variable {level : Level} {tolerance : Float}

/-- What a level is to be, but for the sum of its weights. -/
structure WellShaped (level : Level) : Prop where
  nonempty : level.branches ≠ []
  numbered : level.WellNumbered
  unit : ∀ branch ∈ level.branches,
    branch.weight.isFinite = true ∧ 0.0 ≤ branch.weight ∧ branch.weight ≤ 1.0

/-- The weights, summed from the left, sum to one up to a tolerance. -/
def SumsWithin (level : Level) (tolerance : Float) : Prop :=
  (level.weightSum - 1.0).abs ≤ tolerance

theorem isNumber_distance (hweights : ∀ w ∈ level.weights, 0.0 ≤ w) :
    IsNumber (level.weightSum - 1.0).abs :=
  isNumber_abs (isNumber_sub_one (zero_le_foldl_add hweights (by decide)))

theorem not_sumsWithin_of_isNaN (h : tolerance.isNaN = true) : ¬ level.SumsWithin tolerance := by
  intro hsum
  rw [not_isNaN_iff.2 (isNumber_of_le hsum).2] at h
  cases h

/-- The check of a level looks at its sum only under a tolerance that is a number. -/
theorem check_ok_iff_sumsWithin :
    level.check tolerance = .ok () ↔
      level.WellShaped ∧ (tolerance.isNaN = true ∨ level.SumsWithin tolerance) := by
  rw [check_eq_ok_iff]
  constructor
  · rintro ⟨nonempty, numbered, unit, hsum⟩
    have hnumber := isNumber_distance (zero_le_weights unit)
    exact ⟨⟨nonempty, numbered, fun branch hbranch => isUnitWeight_iff.1 (unit branch hbranch)⟩,
      (not_lt_iff_isNaN_or hnumber).1 hsum⟩
  · rintro ⟨⟨nonempty, numbered, unit⟩, hsum⟩
    have unit' : ∀ branch ∈ level.branches, isUnitWeight branch.weight = true :=
      fun branch hbranch => isUnitWeight_iff.2 (unit branch hbranch)
    have hnumber := isNumber_distance (zero_le_weights unit')
    exact ⟨nonempty, numbered, unit', (not_lt_iff_isNaN_or hnumber).2 hsum⟩

end Level

namespace Tree

variable {E : Type} {tree : Tree E} {tolerance : Float}

theorem checkLevels_cons_eq_ok_iff {position : Nat} {level : Level} {levels : List Level} :
    checkLevels tolerance position (level :: levels) = .ok () ↔
      level.number.toNat = position ∧ level.check tolerance = .ok () ∧
        checkLevels tolerance (position + 1) levels = .ok () := by
  by_cases hnumber : level.number.toNat = position
  · simp [checkLevels, hnumber, test_bind_eq_ok_iff]
  · simp [checkLevels, hnumber, throw_eq_error, error_bind]

theorem checkLevels_eq_ok_iff {position : Nat} {levels : List Level} :
    checkLevels tolerance position levels = .ok () ↔
      ∀ (index : Nat) (level : Level), levels[index]? = some level →
        level.number.toNat = position + index ∧ level.check tolerance = .ok () := by
  induction levels generalizing position with
  | nil => simp [checkLevels]
  | cons level levels ih =>
      rw [checkLevels_cons_eq_ok_iff, ih]
      constructor
      · rintro ⟨hnumber, hcheck, hrest⟩ index other hother
        cases index with
        | zero =>
            obtain rfl : level = other := by simpa using hother
            exact ⟨hnumber, hcheck⟩
        | succ index =>
            obtain ⟨hindex, hother⟩ := hrest index other hother
            exact ⟨by omega, hother⟩
      · intro h
        obtain ⟨hnumber, hcheck⟩ := h 0 level rfl
        refine ⟨hnumber, hcheck, fun index other hother => ?_⟩
        obtain ⟨hindex, hother⟩ := h (index + 1) other hother
        exact ⟨by omega, hother⟩

theorem check_eq_ok_iff :
    tree.check tolerance = .ok () ↔
      tree.levels ≠ [] ∧ ∀ (index : Nat) (level : Level), tree.levels[index]? = some level →
        level.number.toNat = index ∧ level.check tolerance = .ok () := by
  simp [check, test_bind_eq_ok_iff, requireLevels_ok_iff, checkLevels_eq_ok_iff]

theorem levels_of_check (h : tree.check tolerance = .ok ()) :
    tree.levels ≠ [] ∧ ∀ level ∈ tree.levels, level.check tolerance = .ok () := by
  obtain ⟨nonempty, hlevels⟩ := check_eq_ok_iff.1 h
  refine ⟨nonempty, fun level hlevel => ?_⟩
  obtain ⟨index, hindex⟩ := List.mem_iff_getElem?.1 hlevel
  exact (hlevels index level hindex).2

/-- What a tree is to be, but for the sums of its weights. -/
structure WellShaped (tree : Tree E) : Prop where
  nonempty : tree.levels ≠ []
  placed : ∀ (index : Nat) (level : Level), tree.levels[index]? = some level →
    level.number.toNat = index
  shaped : ∀ level ∈ tree.levels, level.WellShaped

/-- What a tree is to be, up to a tolerance for the sums of its weights. -/
structure WellFormed (tree : Tree E) (tolerance : Float) : Prop where
  shaped : tree.WellShaped
  sums : ∀ level ∈ tree.levels, level.SumsWithin tolerance

theorem check_ok_iff_sums :
    tree.check tolerance = .ok () ↔
      tree.WellShaped ∧
        (tolerance.isNaN = true ∨ ∀ level ∈ tree.levels, level.SumsWithin tolerance) := by
  constructor
  · intro h
    obtain ⟨nonempty, hchecks⟩ := levels_of_check h
    have hlevels := fun level hlevel => Level.check_ok_iff_sumsWithin.1 (hchecks level hlevel)
    refine ⟨⟨nonempty, ?_, fun level hlevel => (hlevels level hlevel).1⟩, ?_⟩
    · intro index level hindex
      exact ((check_eq_ok_iff.1 h).2 index level hindex).1
    · by_cases hnan : tolerance.isNaN = true
      · exact .inl hnan
      · exact .inr fun level hlevel => (hlevels level hlevel).2.resolve_left hnan
  · rintro ⟨⟨nonempty, placed, shaped⟩, hsums⟩
    refine check_eq_ok_iff.2 ⟨nonempty, fun index level hindex => ?_⟩
    have hlevel := List.mem_of_getElem? hindex
    exact ⟨placed index level hindex, Level.check_ok_iff_sumsWithin.2
      ⟨shaped level hlevel, hsums.imp_right fun hsum => hsum level hlevel⟩⟩

theorem not_wellFormed_of_isNaN (h : tolerance.isNaN = true) : ¬ tree.WellFormed tolerance := by
  rintro ⟨shaped, sums⟩
  obtain ⟨level, hlevel⟩ := List.exists_mem_of_ne_nil _ shaped.nonempty
  exact Level.not_sumsWithin_of_isNaN h (sums level hlevel)

/-- The check accepts the well-formed trees, and under a tolerance that is not a number all trees
    that are well formed but for their sums. So it accepts exactly the well-formed trees unless
    both come together. -/
theorem check_accepts (tree : Tree E) (tolerance : Float) :
    (tree.check tolerance = .ok () ↔
      tree.WellFormed tolerance ∨ tolerance.isNaN = true ∧ tree.WellShaped) ∧
    ((tree.check tolerance = .ok () ↔ tree.WellFormed tolerance) ↔
      ¬ (tolerance.isNaN = true ∧ tree.WellShaped)) := by
  have haccepts : tree.check tolerance = .ok () ↔
      tree.WellFormed tolerance ∨ tolerance.isNaN = true ∧ tree.WellShaped := by
    rw [check_ok_iff_sums]
    constructor
    · rintro ⟨shaped, hnan | sums⟩
      · exact .inr ⟨hnan, shaped⟩
      · exact .inl ⟨shaped, sums⟩
    · rintro (⟨shaped, sums⟩ | ⟨hnan, shaped⟩)
      · exact ⟨shaped, .inr sums⟩
      · exact ⟨shaped, .inl hnan⟩
  refine ⟨haccepts, ?_⟩
  rw [haccepts]
  constructor
  · rintro hsame ⟨hnan, shaped⟩
    exact not_wellFormed_of_isNaN hnan (hsame.1 (.inr ⟨hnan, shaped⟩))
  · intro hnot
    exact or_iff_left hnot

/-- A tree whose weights sum to a quarter. -/
def quarterTree : Tree String := ⟨"", [⟨0, "", "", [⟨1, 0.25, .flag true, none, none⟩]⟩], ∅⟩

/-- Under a tolerance that is not a number, weights are accepted that sum to a quarter. -/
theorem quarterTree_accepted :
    quarterTree.check (0.0 / 0.0) = .ok () ∧ ¬ quarterTree.WellFormed (0.0 / 0.0) :=
  ⟨rfl, not_wellFormed_of_isNaN (by decide)⟩

end Tree

end LogicTree
