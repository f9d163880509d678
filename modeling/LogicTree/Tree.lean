import LogicTree.Elements
import LogicTree.Level

/-! # Logic trees

A logic tree is a sequence of branching levels under a model name, with elements attached to path
labels. The element table stands on its own: nothing ties its labels to the levels.
-/

namespace LogicTree

/-- A weighted tree of decisions, with elements of type `E` attached to labels. -/
structure Tree (E : Type) where
  modelName : String
  levels : List Level
  elements : ElementTable E

namespace Tree

variable {E : Type}

/-- The tree without levels and elements, under a name. -/
def named (modelName : String) : Tree E := ⟨modelName, [], ∅⟩

/-- The tree without levels and elements, and without a name. -/
def empty : Tree E := named ""

instance : Inhabited (Tree E) := ⟨empty⟩

instance [DecidableEq E] : DecidableEq (Tree E) := fun a b =>
  decidable_of_iff (a.modelName = b.modelName ∧ a.levels = b.levels ∧ a.elements = b.elements) <| by
    cases a; cases b; simp

/-- Number of levels. -/
def depth (tree : Tree E) : Nat := tree.levels.length

/-- The tree with a level more, after the others. -/
def addLevel (tree : Tree E) (level : Level) : Tree E :=
  { tree with levels := tree.levels ++ [level] }

/-- The tree with an element attached to a label. -/
def addElement (tree : Tree E) (label : String) (element : E) : Tree E :=
  { tree with elements := tree.elements.insert label element }

/-- The level at an index. -/
def level (tree : Tree E) (index : Nat) : Except Error Level :=
  match tree.levels[index]? with
  | some level => .ok level
  | none => .error (.levelOutOfRange index tree.depth)

/-- Refuses a tree without levels. -/
def requireLevels (tree : Tree E) : Except Error Unit :=
  if tree.levels.isEmpty then .error .emptyTree else .ok ()

/-- Checks levels that stand from a position on: each declares its position and is well formed. -/
def checkLevels (tolerance : Float) : Nat → List Level → Except Error Unit
  | _, [] => .ok ()
  | position, level :: rest => do
      if level.number.toNat ≠ position then
        throw (level.invalid
          ("declared at index " ++ Text.ofNat level.number.toNat ++ " but stored at position "
            ++ Text.ofNat position))
      level.check tolerance
      checkLevels tolerance (position + 1) rest

/-- Checks a tree: it has a level, and all levels pass `checkLevels`. -/
def check (tree : Tree E) (tolerance : Float) : Except Error Unit := do
  tree.requireLevels
  checkLevels tolerance 0 tree.levels

/-- Equality with numbers compared as numbers, given how elements compare. -/
def agrees (sameElement : E → E → Bool) (a b : Tree E) : Bool :=
  a.modelName == b.modelName && a.levels.length == b.levels.length
    && (a.levels.zip b.levels).all (fun pair => pair.1.agrees pair.2)
    && a.elements.agrees sameElement b.elements

end Tree

end LogicTree
