import LogicTree.Json.Delivery
import LogicTree.Path
import LogicTree.Tree

/-! # Writing trees

A tree is written with its members in a fixed order. Members that are absent are left out. JSON has
no word for a number that is not finite, so a tree with one in a weight, a payload or a rule is
refused before anything is written.
-/

namespace LogicTree

namespace Json

/-- Types whose values are written to documents. Every value can be written: types that refuse to
write some of their values are not in this class. -/
class Writable (α : Type) where
  toJson : α → Json

instance : Writable Json := ⟨id⟩

instance : Writable Float := ⟨Json.ofFloat⟩

instance : Writable String := ⟨Json.string⟩

end Json

/-- A payload as a value. -/
def Payload.toJson (payload : Payload) : Json :=
  .object [
    ("kind", .string payload.kind),
    ("value", match payload with
      | .text value => .string value
      | .number value => Json.ofFloat value
      | .integer value => .number (.ofInt64 value)
      | .flag value => .bool value)]

/-- A rule as a value. -/
def Rule.toJson (rule : Rule) : Json :=
  .object [("name", .string rule.name), ("value", rule.value.toJson)]

/-- A branch as a value. -/
def Branch.toJson (branch : Branch) : Json :=
  .object (
    [("relative_id", .number (.ofUInt64 branch.id.toUInt64)),
      ("weight", Json.ofFloat branch.weight),
      ("value", branch.value.toJson)]
    ++ (branch.rule.map fun rule => ("rule", rule.toJson)).toList
    ++ (branch.inputFile.map fun file => ("input_file", Json.string file)).toList)

/-- A level as a value. -/
def Level.toJson (level : Level) : Json :=
  .object [
    ("level", .number (.ofUInt64 level.number)),
    ("label", .string level.label),
    ("applies_to", .string level.appliesTo),
    ("branches", .array (level.branches.map Branch.toJson))]

/-- The number of a payload, if it is one that is not finite. -/
def Payload.nonFinite? : Payload → Option Float
  | .number value => if value.isFinite then none else some value
  | _ => none

/-- What of a branch is not finite: its weight, its value or the value of its rule. -/
def Branch.nonFinite? (branch : Branch) : Option String :=
  if !branch.weight.isFinite then some ("weight " ++ Text.ofFloat branch.weight)
  else match branch.value.nonFinite? with
    | some value => some ("value " ++ Text.ofFloat value)
    | none => match branch.rule.bind fun rule => rule.value.nonFinite? with
      | some value => some ("rule value " ++ Text.ofFloat value)
      | none => none

/-- The first complaint about a number that is not finite. -/
def Level.nonFinite? (level : Level) : Option Error :=
  level.branches.findSome? fun branch =>
    branch.nonFinite?.map fun what =>
      level.invalid ("branch " ++ Text.ofNat branch.id.toNat ++ " has non-finite " ++ what)

namespace Tree

variable {E : Type} [Json.Writable E]

/-- Refuses a tree with a number that is not finite, outside its elements. -/
def requireFinite {E : Type} (tree : Tree E) : Except Error Unit :=
  match tree.levels.findSome? Level.nonFinite? with
  | some e => .error e
  | none => .ok ()

/-- A tree as a value, its elements in the order of a list of rows. -/
def toJsonWith (tree : Tree E) (rows : List (String × E)) : Json :=
  .object [
    ("model_name", .string tree.modelName),
    ("levels", .array (tree.levels.map Level.toJson)),
    ("elements", .object (rows.map fun row => (row.1, Json.Writable.toJson row.2)))]

/-- A tree as a value, its elements in the order of their labels. -/
def toJson (tree : Tree E) : Json :=
  tree.toJsonWith tree.elements.rows

/-- The document of a tree. -/
def toBytes (tree : Tree E) : Except Error Bytes := do
  tree.requireFinite
  return tree.toJson.print .lines

/-- Writes the document of a tree to a sink, while it walks the tree. The elements come in the order
of a list of rows. -/
def writeRowsTo (tree : Tree E) (rows : List (String × E)) (sink : Sink) :
    Except Error Unit × Sink :=
  match tree.requireFinite with
  | .error e => (.error e, sink)
  | .ok () =>
      let (result, sink) := ((tree.toJsonWith rows).deliver .lines).into sink
      (result.mapError fun reason => .document (.fault (.interrupted reason)), sink)

/-- Writes the document of a tree to a sink, its elements in the order of their labels. -/
def writeTo (tree : Tree E) (sink : Sink) : Except Error Unit × Sink :=
  tree.writeRowsTo tree.elements.rows sink

end Tree

/-- The document of a path: an array of its ids. -/
def Path.toBytes (path : Path) : Bytes :=
  (Json.array (path.ids.map fun id => .number (.ofUInt64 id.toUInt64))).print .compact

end LogicTree
