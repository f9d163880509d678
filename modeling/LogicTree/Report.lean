import LogicTree.Sink
import LogicTree.Tree

/-! # Reports

A report lists the levels of a tree and their branches, one fact a line.
-/

namespace LogicTree

/-- The lines about a branch. -/
def Branch.describe (branch : Branch) : List String :=
  ["  Branch number: " ++ Text.ofNat branch.id.toNat ++ ", label: " ++ branch.value.display
    ++ ", weight: " ++ Text.ofFloat branch.weight]
  ++ (match branch.inputFile with
    | some file => ["    Associated file: " ++ file]
    | none => [])
  ++ (match branch.rule with
    | some rule =>
        ["    Associated rule: " ++ rule.name,
          "    Associated uncertainty value: " ++ rule.value.display]
    | none => [])

/-- The lines about a level. -/
def Level.describe (level : Level) : List String :=
  "" :: ("Branching level: " ++ Text.ofNat level.number.toNat ++ ", label: " ++ level.label
    ++ ", appliesTo: " ++ level.appliesTo) :: level.branches.flatMap Branch.describe

namespace Tree

variable {E : Type}

/-- The lines of the report. A tree without a name has no line for it. -/
def describe (tree : Tree E) : List String :=
  (if tree.modelName.isEmpty then [] else ["Logic tree model: " ++ tree.modelName])
  ++ ("Total number of branching levels in the logic tree: " ++ Text.ofNat tree.depth)
  :: tree.levels.flatMap Level.describe

/-- The report as one text, every line of it ended. -/
def report (tree : Tree E) : String :=
  String.join (tree.describe.map fun line => line ++ "\n")

/-- Writes the report to a sink, line by line. -/
def writeReport (tree : Tree E) (sink : Sink) : Except String Unit × Sink :=
  sink.writeAll (tree.describe.map fun line => Bytes.ofString (line ++ "\n"))

end Tree

end LogicTree
