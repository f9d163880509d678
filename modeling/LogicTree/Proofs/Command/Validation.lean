import LogicTree.Proofs.Checks
import LogicTree.Proofs.Command.Printing
import LogicTree.Proofs.Digits

/-! # What is said of a valid tree

A tree that passes its check has no level without branches. So no product on the way to the path
count is greater than the product of all level sizes, and the count overflows only where that product
does not fit in 64 bits. The command that checks a tree therefore says how many paths there are, or
that they are too many to count, and it has no other failure.
-/

namespace LogicTree

namespace Tree

variable {E : Type} {tree : Tree E} {tolerance : Float}

theorem zero_notMem_levelSizes (valid : tree.check tolerance = .ok ()) :
    0 ∉ levelSizes tree.levels := by
  intro zero
  obtain ⟨level, member, empty⟩ := List.mem_map.1 zero
  have shaped := (check_ok_iff_sums.1 valid).1.shaped level member
  exact shaped.nonempty (List.length_eq_zero_iff.1 empty)

theorem pathCount_of_check (valid : tree.check tolerance = .ok ()) :
    tree.pathCount =
      if (levelSizes tree.levels).prod < countBound then .ok (levelSizes tree.levels).prod
      else .error (.pathCountOverflow tree.depth) := by
  have nonempty := (levels_of_check valid).1
  rw [pathCount_eq nonempty, leadingSizes_of_zero_notMem (zero_notMem_levelSizes valid)]

end Tree

/-! ## Words for counts -/

/-- What is said instead of a count that does not fit in 64 bits. -/
def tooManyText : String := "more than 18446744073709551615"

theorem Text.ofNat_injective : Function.Injective Text.ofNat := by
  intro m n same
  exact toDigits_injective (String.ofList_injective same)

theorem Text.ofNat_ne_tooMany (n : Nat) : Text.ofNat n ≠ tooManyText := by
  intro same
  have chars : Nat.toDigits 10 n = tooManyText.toList := by
    rw [← same, Text.ofNat, String.toList_ofList]
  have letter : 'm' ∈ Nat.toDigits 10 n := by
    rw [chars]
    decide
  cases isDigit_toDigits letter

/-- What is said of a number of paths. -/
def countText (number : Nat) : String :=
  if number < Tree.countBound then Text.ofNat number else tooManyText

theorem countText_eq_ofNat_iff {number other : Nat} :
    countText number = Text.ofNat other ↔ other = number ∧ other < Tree.countBound := by
  unfold countText
  split
  · next fits =>
      rw [Text.ofNat_injective.eq_iff]
      constructor
      · rintro rfl
        exact ⟨rfl, fits⟩
      · rintro ⟨rfl, -⟩
        rfl
  · next large =>
      refine iff_of_false (Text.ofNat_ne_tooMany other).symm ?_
      rintro ⟨rfl, fits⟩
      exact large fits

theorem countText_eq_tooMany_iff {number : Nat} :
    countText number = tooManyText ↔ Tree.countBound ≤ number := by
  unfold countText
  split
  · next fits => exact iff_of_false (Text.ofNat_ne_tooMany number) (Nat.not_le.2 fits)
  · next large => exact iff_of_true rfl (Nat.not_lt.1 large)

theorem pathCountText_of_check {tree : StoredTree} {tolerance : Float}
    (valid : tree.check tolerance = .ok ()) :
    pathCountText tree = .ok (countText (Tree.levelSizes tree.levels).prod) := by
  rw [pathCountText, Tree.pathCount_of_check valid, countText]
  by_cases fits : (Tree.levelSizes tree.levels).prod < Tree.countBound
  · simp only [fits, if_true]
  · simp only [fits, if_false]
    rfl

/-! ## The command -/

/-- What is said of a valid tree, given what is said of the number of its paths. -/
def validText (tree : StoredTree) (count : String) : String :=
  linesText ["OK: " ++ Text.ofNat tree.depth ++ " levels, " ++ count ++ " paths"]

namespace Command

variable {tree : StoredTree} {config : Config}

theorem answer_validate (entropy : UInt64) (valid : tree.check config.weightTolerance = .ok ()) :
    (Command.validate.execute tree config entropy).answer =
      .ok (validText tree (countText (Tree.levelSizes tree.levels).prod)) := by
  simp only [execute, valid, pathCountText_of_check valid]
  rfl

/-- Of a valid tree the command says how many levels it has, and how many paths: the product of the
    level sizes, in decimal digits, if it is below 2^64, and exactly if it is not, that there are
    more than 2^64 - 1. A sink that does not fail gets this line, and counting the paths fails for
    no other reason than their number. -/
theorem validate_counts_paths (entropy : UInt64)
    (valid : tree.check config.weightTolerance = .ok ()) :
    ∃ count,
      (Command.validate.execute tree config entropy).Prints (validText tree count) ∧
      (∀ sink : Sink, sink.limit = none →
        (Command.validate.print tree config entropy).runOn sink =
          (.ok (), sink.holding (validText tree count))) ∧
      (∀ number, count = Text.ofNat number ↔
        number = (Tree.levelSizes tree.levels).prod ∧ number < 2 ^ 64) ∧
      (count = "more than 18446744073709551615" ↔
        2 ^ 64 ≤ (Tree.levelSizes tree.levels).prod) ∧
      ∀ failure, tree.pathCount = .error failure → failure = .pathCountOverflow tree.depth := by
  have answered := answer_validate entropy valid
  refine ⟨_, Execution.answer_eq_ok_iff.1 answered, ?_, fun number => countText_eq_ofNat_iff,
    countText_eq_tooMany_iff, ?_⟩
  · intro sink endless
    have left := Command.validate.leaves_print tree config entropy sink endless
    rwa [answered] at left
  · intro failure failed
    rw [Tree.pathCount_of_check valid] at failed
    split at failed
    · cases failed
    · exact (Except.error.inj failed).symm

/-- Tosses of a coin, one a level. -/
def coinTosses (number : Nat) : StoredTree :=
  ⟨"", (List.range number).map fun index =>
    ⟨index.toUInt64, "", "", [⟨1, 0.5, .flag false, none, none⟩, ⟨2, 0.5, .flag true, none, none⟩]⟩,
    ∅⟩

/-- Sixty-four tosses have 2^64 outcomes, one more than can be counted. -/
theorem validate_counts_paths_coinTosses :
    (coinTosses 64).check ({} : Config).weightTolerance = .ok () ∧
      (Command.validate.execute (coinTosses 64) {} 0).Prints
        "OK: 64 levels, more than 18446744073709551615 paths\n" := by
  have valid : (coinTosses 64).check ({} : Config).weightTolerance = .ok () := by decide +kernel
  refine ⟨valid, ?_⟩
  obtain ⟨count, prints, -, -, tooMany, -⟩ := validate_counts_paths 0 valid
  have product : (Tree.levelSizes (coinTosses 64).levels).prod = 2 ^ 64 := rfl
  rw [tooMany.2 (Nat.le_of_eq product.symm)] at prints
  exact prints

end Command

end LogicTree
