import LogicTree.Path
import LogicTree.Tree

/-! # Weights of paths

The conditional weight of a path is the weight of its last decision; its joint weight is the
product of the weights of all its decisions. The complete paths of a tree are enumerated level by
level, in lexicographic order of the positions of their branches.
-/

namespace LogicTree.Tree

variable {E : Type}

/-- Weight of the branch that a path takes at its last level. -/
def conditionalWeight (tree : Tree E) (path : Path) : Except Error Float := do
  tree.requireLevels
  match path.last? with
  | none => throw (.malformedLabel "empty label")
  | some id =>
      let level ← tree.level (path.length - 1)
      let branch ← level.branch id
      return branch.weight

/-- Multiplies a weight by the weights of the branches with these ids, level by level. -/
def multiplyWeights : Float → List Level → List UInt32 → Except Error Float
  | weight, level :: levels, id :: ids => do
      let branch ← level.branch id
      multiplyWeights (weight * branch.weight) levels ids
  | weight, _, _ => .ok weight

/-- Joint weight of a path that names one branch a level. -/
def pathWeight (tree : Tree E) (path : Path) : Except Error Float := do
  tree.requireLevels
  if path.length ≠ tree.depth then
    throw (.pathLength tree.depth path.length)
  multiplyWeights 1.0 tree.levels path.ids

/-- Conditional weight of the path that a label spells. -/
def weight (tree : Tree E) (label : String) : Except Error Float := do
  tree.conditionalWeight (← Path.ofLabel label)

/-- Joint weight of the path that a label spells. -/
def totalWeight (tree : Tree E) (label : String) : Except Error Float := do
  tree.pathWeight (← Path.ofLabel label)

/-- Numbers that fit in 64 bits are below this bound. -/
def countBound : Nat := 18446744073709551616

/-- Multiplies a count by the sizes of levels, from the left; `none` as soon as a product does not
fit in 64 bits. -/
def multiplySizes? : Nat → List Level → Option Nat
  | count, [] => some count
  | count, level :: levels =>
      let product := count * level.branches.length
      if product < countBound then multiplySizes? product levels else none

/-- Number of complete paths. -/
def pathCount (tree : Tree E) : Except Error Nat := do
  tree.requireLevels
  match multiplySizes? 1 tree.levels with
  | some count => return count
  | none => throw (.pathCountOverflow tree.depth)

/-- Every one of the paths continued by every branch of a level, with the joint weights. -/
def extendPaths (paths : List (Path × Float)) (level : Level) : List (Path × Float) :=
  paths.flatMap fun (path, weight) =>
    level.branches.map fun branch => (path.push branch.id, weight * branch.weight)

/-- Every complete path with its joint weight. -/
def paths (tree : Tree E) : Except Error (List (Path × Float)) := do
  let _ ← tree.pathCount
  return tree.levels.foldl extendPaths [(Path.empty, 1.0)]

end LogicTree.Tree
