import LogicTree.Branch
import LogicTree.Error

/-! # Branching levels

A branching level is one decision of the tree: the weighted alternatives for it, of which a path
takes one. Nothing is assumed of a level when it is built; `Level.check` says whether it is well
formed.
-/

namespace LogicTree

/-- How far a weight sum may be from one by rounding alone. -/
def weightTolerance : Float := 1e-9

/-- One decision of the tree. `number` is where the level says that it stands. -/
structure Level where
  number : UInt64
  label : String
  appliesTo : String
  branches : List Branch
  deriving DecidableEq

namespace Level

/-- The branch with an id that counts from one, by position. -/
def branch (level : Level) (id : UInt32) : Except Error Branch :=
  let found := if id = 0 then none else level.branches[id.toNat - 1]?
  match found with
  | some branch => .ok branch
  | none => .error (.branchOutOfRange level.number id level.branches.length)

/-- The weights, in storage order. -/
def weights (level : Level) : List Float :=
  level.branches.map Branch.weight

/-- Sum of the weights from the left, starting at negative zero: the sum of no weights at all. -/
def weightSum (level : Level) : Float :=
  level.weights.foldl (· + ·) (-0.0)

/-- Whether a weight is a finite number from zero to one. -/
def isUnitWeight (weight : Float) : Bool :=
  weight.isFinite && decide (0.0 ≤ weight) && decide (weight ≤ 1.0)

/-- An error about this level. -/
def invalid (level : Level) (reason : String) : Error :=
  .invalidLevel level.number reason

/-- Checks the ids and the weights of branches that stand from a position on: ids count from one,
weights lie between zero and one. A level is taken to have fewer than `2 ^ 32` branches: ids are
words and positions are not, so a longer level is refused at the first position without an id. -/
def checkBranches (level : Level) : Nat → List Branch → Except Error Unit
  | _, [] => .ok ()
  | position, branch :: rest =>
      if branch.id.toNat ≠ position + 1 then
        .error (level.invalid
          ("branch at position " ++ Text.ofNat position ++ " has id " ++ Text.ofNat branch.id.toNat
            ++ ", expected " ++ Text.ofNat (position + 1)))
      else if !isUnitWeight branch.weight then
        .error (level.invalid
          ("branch " ++ Text.ofNat (position + 1) ++ " has weight " ++ Text.ofFloat branch.weight
            ++ " outside [0, 1]"))
      else checkBranches level (position + 1) rest

/-- Checks a level: it has a branch, its branches pass `checkBranches`, and their weights sum to
one up to the tolerance. -/
def check (level : Level) (tolerance : Float) : Except Error Unit := do
  if level.branches.isEmpty then
    throw (level.invalid "no branches")
  level.checkBranches 0 level.branches
  let sum := level.weightSum
  if (sum - 1.0).abs > tolerance then
    throw (level.invalid
      ("branch weights sum to " ++ Text.ofFloat sum ++ ", expected 1.0 (tolerance "
        ++ Text.ofFloat tolerance ++ ")"))

/-- Equality with numbers compared as numbers. -/
def agrees (a b : Level) : Bool :=
  a.number == b.number && a.label == b.label && a.appliesTo == b.appliesTo
    && a.branches.length == b.branches.length
    && (a.branches.zip b.branches).all fun pair => pair.1.agrees pair.2

end Level

end LogicTree
