import LogicTree.Json.Reading
import LogicTree.Path
import LogicTree.Tree

/-! # Reading trees

A stored tree is a document whose records are the tree, its levels, their branches and the rules of
these. A payload names its kind beside its value; either may come first, and the value is read as
the kind demands.
-/

namespace LogicTree

open Json

/-! ## Payloads -/

/-- The kinds of payloads. -/
inductive PayloadKind where
  | text
  | number
  | integer
  | flag
  deriving DecidableEq

namespace PayloadKind

/-- The kind that a name stands for. -/
def ofName : String → Reading PayloadKind
  | "text" => .ok .text
  | "number" => .ok .number
  | "integer" => .ok .integer
  | "flag" => .ok .flag
  | name => .error (.mismatch (.unknownKind name))

/-- Reads a payload of this kind. -/
def readPayload (kind : PayloadKind) (node : Node) : Reading Payload :=
  match kind with
  | .text => node.readString.map .text
  | .number => node.readFloat.map .number
  | .integer => node.readInt64.map .integer
  | .flag => node.readBool.map .flag

/-- Reads a kind among the members of a payload: its name, or an object of which the name is the
only key and null the value. -/
def readMember (room : Nat) (node : Node) : Reading PayloadKind :=
  match node with
  | .string (some name) => ofName name
  | .object ((some name, value) :: others) gap => do
      let _ ← enter room
      let kind ← ofName name
      match value with
      | .null =>
          if !others.isEmpty then throw (.fault .malformed)
          close gap
          return kind
      | value => throw (value.unlike "unit")
  | .object members gap => do
      let _ ← enter room
      if members.isEmpty then close gap
      throw (.fault .malformed)
  | .broken place => .error (.fault (if place.bare then .malformed else place.used))
  | _ => .error (.fault .malformed)

/-- Reads a kind as the first item of a payload. -/
def readItem (node : Node) : Reading PayloadKind :=
  match node with
  | .string (some name) => ofName name
  | node => .error (node.unlike "variant identifier")

end PayloadKind

namespace Payload

/-- The members of a payload that have been read: none, the kind, a value that waits for its kind,
or both. -/
inductive Draft where
  | nothing
  | kind (kind : PayloadKind)
  | value (node : Node)
  | both (payload : Payload)

/-- Reads the members of a payload. A value that comes before its kind is first read as a value of
any type. -/
def readMembers (room : Nat) : List (Option String × Node) → Draft → Reading Draft
  | [], draft => .ok draft
  | (none, _) :: _, _ => .error (.fault .malformed)
  | (some "kind", node) :: members, draft => do
      match draft with
      | .nothing => readMembers room members (.kind (← PayloadKind.readMember room node))
      | .value value => do
          let kind ← PayloadKind.readMember room node
          readMembers room members (.both (← kind.readPayload value))
      | _ => throw (.mismatch (.repeated "kind"))
  | (some "value", node) :: members, draft => do
      match draft with
      | .nothing => do
          let _ ← node.readValue room
          readMembers room members (.value node)
      | .kind kind => readMembers room members (.both (← kind.readPayload node))
      | _ => throw (.mismatch (.repeated "value"))
  | (some _, node) :: members, draft => do
      node.passOver
      readMembers room members draft

/-- Reads the items of a payload: its kind and its value. -/
def readItems (gap : Option Break) : List Node → Reading Payload
  | [] => tooShort 0
  | [kind] => do
      let _ ← PayloadKind.readItem kind
      tooShort 1
  | kind :: value :: others => do
      let kind ← PayloadKind.readItem kind
      let payload ← kind.readPayload value
      if !others.isEmpty then throw (.fault .malformed)
      close gap
      return payload
where
  /-- The array ends after this many items. -/
  tooShort (length : Nat) : Reading Payload := do
    close gap
    throw (.mismatch (.tooShort length title))
  /-- What a payload is called in messages. -/
  title : String := "adjacently tagged enum BranchValue"

/-- Reads a payload. -/
def read (room : Nat) (node : Node) : Reading Payload :=
  match node with
  | .object members gap => do
      let draft ← readMembers (← enter room) members .nothing
      close gap
      match draft with
      | .both payload => return payload
      | .kind _ => throw (.mismatch (.missing "value"))
      | .value _ | .nothing => throw (.mismatch (.missing "kind"))
  | .array items gap => do
      let _ ← enter room
      readItems gap items
  | node => .error (node.unlike "adjacently tagged enum BranchValue")

end Payload

/-! ## Records -/

namespace Rule

/-- The members of a rule that have been read. -/
structure Draft where
  name : Option String := none
  value : Option Payload := none

/-- A rule as a record. -/
def shape : Shape Draft Rule where
  title := "struct UncertaintyRule"
  draft := {}
  fields := [
    .slot "name" Draft.name (fun draft name => { draft with name := some name })
      (fun _ node => node.readString),
    .slot "value" Draft.value (fun draft value => { draft with value := some value })
      Payload.read]
  finish absent draft := do
    let name ← require absent "name" draft.name
    let value ← require absent "value" draft.value
    return ⟨name, value⟩

end Rule

namespace Branch

/-- The members of a branch that have been read. The last two may be null. -/
structure Draft where
  id : Option UInt32 := none
  weight : Option Float := none
  value : Option Payload := none
  rule : Option (Option Rule) := none
  inputFile : Option (Option String) := none

/-- A branch as a record. -/
def shape : Shape Draft Branch where
  title := "struct Branch"
  draft := {}
  fields := [
    .slot "relative_id" Draft.id (fun draft id => { draft with id := some id })
      (fun _ node => node.readUInt32),
    .slot "weight" Draft.weight (fun draft weight => { draft with weight := some weight })
      (fun _ node => node.readFloat),
    .slot "value" Draft.value (fun draft value => { draft with value := some value })
      Payload.read,
    .slot "rule" Draft.rule (fun draft rule => { draft with rule := some rule })
      (Node.readOptional Rule.shape.read),
    .slot "input_file" Draft.inputFile (fun draft file => { draft with inputFile := some file })
      (Node.readOptional fun _ node => node.readString)]
  finish absent draft := do
    let id ← require absent "relative_id" draft.id
    let weight ← require absent "weight" draft.weight
    let value ← require absent "value" draft.value
    return ⟨id, weight, value, draft.rule.join, draft.inputFile.join⟩

end Branch

namespace Level

/-- The members of a level that have been read. -/
structure Draft where
  number : Option UInt64 := none
  label : Option String := none
  appliesTo : Option String := none
  branches : Option (List Branch) := none

/-- A level as a record. -/
def shape : Shape Draft Level where
  title := "struct BranchingLevel"
  draft := {}
  fields := [
    .slot "level" Draft.number (fun draft number => { draft with number := some number })
      (fun _ node => node.readUInt64),
    .slot "label" Draft.label (fun draft label => { draft with label := some label })
      (fun _ node => node.readString),
    .slot "applies_to" Draft.appliesTo (fun draft text => { draft with appliesTo := some text })
      (fun _ node => node.readString),
    .slot "branches" Draft.branches (fun draft branches => { draft with branches := some branches })
      (Node.readArray Branch.shape.read)]
  finish absent draft := do
    let number ← require absent "level" draft.number
    let label ← require absent "label" draft.label
    let appliesTo ← require absent "applies_to" draft.appliesTo
    let branches ← require absent "branches" draft.branches
    return ⟨number, label, appliesTo, branches⟩

end Level

namespace Tree

variable {E : Type} [Readable E]

/-- The members of a tree that have been read. -/
structure Draft (E : Type) where
  modelName : Option String := none
  levels : Option (List Level) := none
  elements : Option (ElementTable E) := none

/-- A tree as a record. -/
def shape : Shape (Draft E) (Tree E) where
  title := "struct LogicTree"
  draft := {}
  fields := [
    .slot "model_name" Draft.modelName (fun draft name => { draft with modelName := some name })
      (fun _ node => node.readString),
    .slot "levels" Draft.levels (fun draft levels => { draft with levels := some levels })
      (Node.readArray Level.shape.read),
    .slot "elements" Draft.elements (fun draft table => { draft with elements := some table })
      (Node.readTable Readable.read)]
  finish absent draft := do
    let modelName ← require absent "model_name" draft.modelName
    let levels ← require absent "levels" draft.levels
    let elements ← require absent "elements" draft.elements
    return ⟨modelName, levels, elements⟩

/-- Reads a tree from bytes that end with a fault, were more of them wanted. -/
def readFrom (bytes : Bytes) (ending : Fault) : Except Error (Tree E) :=
  ((Document.read bytes ending).get shape.read).mapError .document

/-- Reads a tree from the bytes of a document. -/
def ofBytes (bytes : Bytes) : Except Error (Tree E) :=
  readFrom bytes .truncated

end Tree

/-- Reads a path from a document: an array of its ids. -/
def Path.ofBytes (bytes : Bytes) : Except Error Path :=
  (((Document.read bytes .truncated).get (Node.readArray fun _ node => node.readUInt32)).map
    Path.mk).mapError .document

end LogicTree
