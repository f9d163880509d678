import LogicTree.Json.Node

/-! # Reading values from documents

Functions that want a value of some type take it from a node, in the order of the text, and stop at
the first problem. Values may nest to a limit: the number of levels left is called the room.
Members of unknown name are passed over, whatever they hold.
-/

namespace LogicTree.Json

/-- A value read from a document, or the first problem. -/
abbrev Reading (α : Type) := Except Problem α

/-- The levels to which the values of a document may nest, plus one. -/
def fullRoom : Nat := 128

/-- The room inside an array or object; the text counts as malformed when there is none left. -/
def enter : Nat → Reading Nat
  | room + 2 => .ok (room + 1)
  | _ => .error (.fault .malformed)

/-- Meets the end of an array or object. -/
def close : Option Break → Reading Unit
  | none => .ok ()
  | some place => .error (.fault place.used)

namespace Node

/-- Passes over a node that nobody wants. -/
def passOver (node : Node) : Reading Unit :=
  match node.gap? with
  | none => .ok ()
  | some place => .error (.fault place.ignored)

/-- What the node holds, or the fault met on finding out. -/
def found : Node → Except Fault Found
  | .null => .ok .null
  | .bool value => .ok (.bool value)
  | .number (some (.integer value _)) => .ok (.integer value)
  | .number (some (.real value _)) => .ok (.real value)
  | .string (some text) => .ok (.text text)
  | .array _ _ => .ok .sequence
  | .object _ _ => .ok .map
  | .number none | .string none => .error .malformed
  | .broken place => .error place.used

/-- The problem with a node that holds something else than what is wanted. -/
def unlike (node : Node) (wanted : String) : Problem :=
  match node.found with
  | .ok found => .mismatch (.wrongType found wanted)
  | .error fault => .fault fault

/-- Reads a string. -/
def readString (node : Node) : Reading String :=
  match node with
  | .string (some text) => .ok text
  | node => .error (node.unlike "a string")

/-- Reads a boolean. -/
def readBool (node : Node) : Reading Bool :=
  match node with
  | .bool value => .ok value
  | node => .error (node.unlike "a boolean")

/-- Reads a double, which may be written as an integer. -/
def readFloat (node : Node) : Reading Float :=
  match node with
  | .number (some n) => .ok n.toFloat
  | node => .error (node.unlike "f64")

/-- Reads an integer from a range. -/
def readInteger (wanted : String) (low high : Int) (node : Node) : Reading Int :=
  match node with
  | .number (some (.integer value _)) =>
      if low ≤ value ∧ value ≤ high then .ok value
      else .error (.mismatch (.wrongValue (.integer value) wanted))
  | node => .error (node.unlike wanted)

/-- Reads an unsigned integer of 32 bits. -/
def readUInt32 (node : Node) : Reading UInt32 :=
  (node.readInteger "u32" 0 4294967295).map fun value => value.toNat.toUInt32

/-- Reads an unsigned integer of 64 bits. -/
def readUInt64 (node : Node) : Reading UInt64 :=
  (node.readInteger "usize" 0 18446744073709551615).map fun value => value.toNat.toUInt64

/-- Reads a signed integer of 64 bits. -/
def readInt64 (node : Node) : Reading Int64 :=
  (node.readInteger "i64" (-9223372036854775808) 9223372036854775807).map Int64.ofInt

/-- Reads a value that may be null. -/
def readOptional {α : Type} (read : Nat → Node → Reading α) (room : Nat) (node : Node) :
    Reading (Option α) :=
  match node with
  | .null => .ok none
  | node => (read room node).map some

/-- Reads the items of an array, all in one way. -/
def readItems {α : Type} (read : Nat → Node → Reading α) (room : Nat) :
    List Node → Reading (List α)
  | [] => .ok []
  | item :: items => do
      let value ← read room item
      let values ← readItems read room items
      return value :: values

/-- Reads an array. -/
def readArray {α : Type} (read : Nat → Node → Reading α) (room : Nat) (node : Node) :
    Reading (List α) :=
  match node with
  | .array items gap => do
      let values ← readItems read (← enter room) items
      close gap
      return values
  | node => .error (node.unlike "a sequence")

/-- Reads the members of an object into rows ordered by key, the last one of a key being kept. -/
def readRows {α : Type} (read : Nat → Node → Reading α) (room : Nat) :
    List (Option String × Node) → ElementTable α → Reading (ElementTable α)
  | [], table => .ok table
  | (none, _) :: _, _ => .error (.fault .malformed)
  | (some key, node) :: members, table => do
      let value ← read room node
      readRows read room members (table.insert key value)

/-- Reads an object whose keys are free. -/
def readTable {α : Type} (read : Nat → Node → Reading α) (room : Nat) (node : Node) :
    Reading (ElementTable α) :=
  match node with
  | .object members gap => do
      let table ← readRows read (← enter room) members ∅
      close gap
      return table
  | node => .error (node.unlike "a map")

mutual

/-- Reads a value of any type, the members of objects in the order of their keys. -/
def readValue (room : Nat) : Node → Reading Json
  | .null => .ok .null
  | .bool value => .ok (.bool value)
  | .number (some value) => .ok (.number value)
  | .string (some text) => .ok (.string text)
  | .number none | .string none => .error (.fault .malformed)
  | .broken place => .error (.fault place.used)
  | .array items gap => do
      let values ← readValues (← enter room) items
      close gap
      return .array values
  | .object members gap => do
      let rows ← readMembers (← enter room) members []
      close gap
      return .object rows

/-- Reads items of any type. -/
def readValues (room : Nat) : List Node → Reading (List Json)
  | [] => .ok []
  | item :: items => do
      let value ← readValue room item
      let values ← readValues room items
      return value :: values

/-- Reads members of any type into rows. -/
def readMembers (room : Nat) :
    List (Option String × Node) → List (String × Json) → Reading (List (String × Json))
  | [], rows => .ok rows
  | (none, _) :: _, _ => .error (.fault .malformed)
  | (some key, node) :: members, rows => do
      let value ← readValue room node
      readMembers room members (putRow key value rows)

end

end Node

/-! ## Records

A record is written as an object of named members, or as an array of all of them in order. Members
that may be left out come last.
-/

/-- A member of a record that is read into a draft. -/
structure Field (σ : Type) where
  name : String
  /-- Whether the draft has a value for the member. -/
  isFilled : σ → Bool
  /-- Reads the member into the draft. -/
  read : Nat → Node → σ → Reading σ

/-- The field that reads a value into a slot of the draft. -/
def Field.slot {σ α : Type} (name : String) (get : σ → Option α) (set : σ → α → σ)
    (read : Nat → Node → Reading α) : Field σ where
  name := name
  isFilled draft := (get draft).isSome
  read room node draft := (read room node).map (set draft)

/-- A sort of records, read into drafts of type `σ`. -/
structure Shape (σ α : Type) where
  /-- What the record is called in messages. -/
  title : String
  /-- The draft without any member. -/
  draft : σ
  fields : List (Field σ)
  /-- Makes the record, given the problem with a member that is not there. -/
  finish : (String → Problem) → σ → Reading α

/-- The value of a slot that has to be filled. -/
def require {α : Type} (absent : String → Problem) (name : String) : Option α → Reading α
  | some value => .ok value
  | none => .error (absent name)

namespace Shape

variable {σ α : Type}

/-- Reads the members of an object into a draft. -/
def readMembers (shape : Shape σ α) (room : Nat) :
    List (Option String × Node) → σ → Reading σ
  | [], draft => .ok draft
  | (none, _) :: _, _ => .error (.fault .malformed)
  | (some key, node) :: members, draft =>
      match shape.fields.find? fun field => field.name == key with
      | none => do
          node.passOver
          shape.readMembers room members draft
      | some field => do
          if field.isFilled draft then throw (.mismatch (.repeated field.name))
          let draft ← field.read room node draft
          shape.readMembers room members draft

/-- Reads the items of an array into a draft, one for each field in order. An item beyond the last
field is malformed text, whatever it holds. -/
def readItems (room : Nat) : List (Field σ) → List Node → σ → Reading σ
  | _, [], draft => .ok draft
  | [], _ :: _, _ => .error (.fault .malformed)
  | field :: fields, item :: items, draft => do
      let draft ← field.read room item draft
      readItems room fields items draft

/-- Reads a record. -/
def read (shape : Shape σ α) (room : Nat) (node : Node) : Reading α :=
  match node with
  | .object members gap => do
      let draft ← shape.readMembers (← enter room) members shape.draft
      close gap
      shape.finish (fun name => .mismatch (.missing name)) draft
  | .array items gap => do
      let draft ← readItems (← enter room) shape.fields items shape.draft
      close gap
      let wanted := shape.title ++ " with " ++ Text.ofNat shape.fields.length ++ " elements"
      shape.finish (fun _ => .mismatch (.tooShort items.length wanted)) draft
  | node => .error (node.unlike shape.title)

end Shape

/-- Types whose values are read from documents. -/
class Readable (α : Type) where
  /-- Reads a value, given the room for nesting. -/
  read : Nat → Node → Reading α

instance : Readable Json := ⟨Node.readValue⟩

instance : Readable Float := ⟨fun _ node => node.readFloat⟩

instance : Readable String := ⟨fun _ node => node.readString⟩

/-- Reads a whole document, after which nothing may follow. -/
def Document.get {α : Type} (read : Nat → Node → Reading α) (document : Document) : Reading α := do
  let value ← read fullRoom document.root
  match document.rest with
  | none => return value
  | some fault => throw (.fault fault)

end LogicTree.Json
