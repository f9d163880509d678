import Mathlib
import LogicTree.Proofs.Sinks
import LogicTree.Report

/-! # Reports given to sinks that may fail

The report of a tree is one text, and it is also given to a sink line by line. Both are the same
lines with a line break after each, so a sink is left with a beginning of the text, and with all of
it exactly if it has room for it.
-/

namespace LogicTree

theorem Bytes.ofString_append (first second : String) :
    ofString (first ++ second) = ofString first ++ ofString second := by
  simp [ofString]

theorem Bytes.ofString_join (texts : List String) :
    ofString (String.join texts) = (texts.map ofString).flatten := by
  induction texts with
  | nil => rfl
  | cons text texts ih =>
      rw [String.join_cons, ofString_append, ih, List.map_cons, List.flatten_cons]

/-! ## Lines -/

/-- How many lines a branch has: one for itself, one for its file and two for its rule. -/
def Branch.lineCount (branch : Branch) : Nat :=
  1 + (if branch.inputFile.isSome then 1 else 0) + (if branch.rule.isSome then 2 else 0)

/-- How many lines a level has: an empty one, its own, and those of its branches. -/
def Level.lineCount (level : Level) : Nat :=
  2 + (level.branches.map Branch.lineCount).sum

theorem Branch.length_describe (branch : Branch) : branch.describe.length = branch.lineCount := by
  obtain ⟨id, weight, value, rule, inputFile⟩ := branch
  cases rule <;> cases inputFile <;> rfl

theorem Level.length_describe (level : Level) : level.describe.length = level.lineCount := by
  have branches : (level.branches.flatMap Branch.describe).length =
      (level.branches.map Branch.lineCount).sum := by
    simp only [List.length_flatMap, Branch.length_describe]
  rw [describe, List.length_cons, List.length_cons, branches, lineCount]
  omega

namespace Tree

open Sink

variable {E : Type}

/-- How many lines a report has: one for the name if there is one, one for the depth, and those of
    the levels. -/
def lineCount (tree : Tree E) : Nat :=
  (if tree.modelName = "" then 0 else 1) + 1 + (tree.levels.map Level.lineCount).sum

theorem length_describe (tree : Tree E) : tree.describe.length = tree.lineCount := by
  have levels : (tree.levels.flatMap Level.describe).length =
      (tree.levels.map Level.lineCount).sum := by
    simp only [List.length_flatMap, Level.length_describe]
  rw [describe, List.length_append, List.length_cons, levels, lineCount]
  by_cases unnamed : tree.modelName = ""
  · simp [unnamed]
    omega
  · simp [unnamed]
    omega

/-! ## The text -/

theorem ofString_report (tree : Tree E) :
    Bytes.ofString tree.report =
      tree.describe.flatMap fun line => Bytes.ofString line ++ [0x0a] := by
  have ended : ∀ line, Bytes.ofString (line ++ "\n") = Bytes.ofString line ++ [0x0a] :=
    fun line => Bytes.ofString_append line "\n"
  simp only [report, Bytes.ofString_join, List.map_map, List.flatMap_def, Function.comp_def, ended]

theorem writeReport_eq (tree : Tree E) (sink : Sink) :
    tree.writeReport sink = sink.write (Bytes.ofString tree.report) := by
  rw [writeReport, writeAll_eq_write_flatten, report, Bytes.ofString_join, List.map_map]
  rfl

/-- A report given to a sink that takes `room` bytes more. The report is its lines with a line break
    after each. The sink takes a beginning of it: all of it if there is room for it, and writing
    succeeds exactly then. -/
theorem writeReport_withRoom (tree : Tree E) (taken : Bytes) (room : Nat) :
    let outcome := tree.writeReport (withRoom taken room)
    let text := Bytes.ofString tree.report
    (text = tree.describe.flatMap fun line => Bytes.ofString line ++ [0x0a]) ∧
    (∃ given, given <+: text ∧
      outcome.2 = { withRoom taken room with written := taken ++ given } ∧
      (outcome.1 = .ok () ↔ given = text)) ∧
    (outcome.1 = .ok () ↔ text.length ≤ room) ∧
    (outcome.1 = .ok () ∨ outcome.1 = .error full) ∧
    tree.describe.length = tree.lineCount := by
  intro outcome text
  have left : outcome = (if text.length ≤ room then .ok () else .error full,
      { withRoom taken room with written := taken ++ text.take room }) := by
    rw [← write_withRoom]
    exact tree.writeReport_eq _
  have done_iff : outcome.1 = .ok () ↔ text.length ≤ room := by
    rw [left]
    split
    next fits => exact iff_of_true rfl fits
    next large => exact iff_of_false nofun large
  refine ⟨tree.ofString_report, ⟨text.take room, List.take_prefix room text, ?_, ?_⟩, done_iff, ?_,
    tree.length_describe⟩
  · rw [left]
  · rw [done_iff, List.take_eq_self_iff]
  · rw [left]
    split
    · exact .inl rfl
    · exact .inr rfl

end Tree

end LogicTree
