import LogicTree.Json.Problem

/-! # Errors

Everything that can go wrong with a tree, a stored tree or a configuration, as causes. The wording
is in `Error.message`.
-/

namespace LogicTree

/-- A failure of a file system or of a device. -/
inductive DeviceError where
  | notFound
  | exists
  | notADirectory
  | isADirectory
  | busy
  | nameTooLong
  /-- A failure with words of its own. -/
  | other (text : String)
  deriving DecidableEq

/-- The words for a device error. -/
def DeviceError.describe : DeviceError → String
  | .notFound => "No such file or directory (os error 2)"
  | .exists => "File exists (os error 17)"
  | .notADirectory => "Not a directory (os error 20)"
  | .isADirectory => "Is a directory (os error 21)"
  | .busy => "Device or resource busy (os error 16)"
  | .nameTooLong => "File name too long (os error 36)"
  | .other text => text

/-- Why an operation on a tree failed. -/
inductive Error where
  /-- Reading or writing a file failed. -/
  | device (cause : DeviceError)
  /-- A document could not be read. -/
  | document (problem : Problem)
  /-- A configuration cannot be used. -/
  | config (text : String)
  /-- A text is no path label. -/
  | malformedLabel (text : String)
  /-- The tree has no level. -/
  | emptyTree
  /-- The tree has no level at this index. -/
  | levelOutOfRange (index depth : Nat)
  /-- A level has no branch with this id. -/
  | branchOutOfRange (level : UInt64) (id : UInt32) (count : Nat)
  /-- A path does not name one branch a level. -/
  | pathLength (expected found : Nat)
  /-- The number of paths does not fit in 64 bits. -/
  | pathCountOverflow (depth : Nat)
  /-- No branch of the level has a positive weight. -/
  | emptyLevel (index : Nat)
  /-- The weights of the level do not reach the draw. -/
  | samplingUnderflow (level : Nat) (draw total : Float)
  /-- A level breaks a rule. -/
  | invalidLevel (level : UInt64) (reason : String)
  deriving DecidableEq

/-- The words for an error. -/
def Error.message : Error → String
  | .device cause => "IO error: " ++ cause.describe
  | .document problem => "Serialization error: " ++ problem.describe
  | .config text => "Configuration error: " ++ text
  | .malformedLabel text => "Malformed path label: " ++ text
  | .emptyTree => "Logic tree has no branching levels"
  | .levelOutOfRange index depth =>
      "Branching level " ++ Text.ofNat index ++ " out of range (tree depth " ++ Text.ofNat depth
        ++ ")"
  | .branchOutOfRange level id count =>
      "Branch " ++ Text.ofNat id.toNat ++ " out of range at level " ++ Text.ofNat level.toNat
        ++ " (" ++ Text.ofNat count ++ " branches)"
  | .pathLength expected found =>
      "Path label has " ++ Text.ofNat found ++ " segments, tree depth is " ++ Text.ofNat expected
  | .pathCountOverflow depth =>
      "Logic tree has too many paths to count (" ++ Text.ofNat depth ++ " levels)"
  | .emptyLevel index =>
      "Branching level " ++ Text.ofNat index ++ " has no branch with positive weight"
  | .samplingUnderflow level draw total =>
      "Sampling underflow at level " ++ Text.ofNat level ++ ": draw " ++ Text.ofFloat draw
        ++ " exceeds weight sum " ++ Text.ofFloat total
  | .invalidLevel level reason =>
      "Invalid branching level " ++ Text.ofNat level.toNat ++ ": " ++ reason

end LogicTree
