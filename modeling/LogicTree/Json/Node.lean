import LogicTree.Json.Token

/-! # Documents as read

A node is a value of a document as far as its text goes. Where the text gives out, the node says
so, and so does every array and object around it. Nothing is lost that a reader could ask for: items
and members stand in their order, with repeated keys and all.
-/

namespace LogicTree.Json

/-- A value of a document, as far as the text goes. -/
inductive Node where
  | null
  | bool (value : Bool)
  /-- A number; `none` if it is too large for a double. -/
  | number (value : Option JsonNumber)
  /-- A string; `none` if it is none that a reader can use. -/
  | string (text : Option String)
  /-- An array, and where the text gives out if it does so before the array is closed. -/
  | array (items : List Node) (gap : Option Break)
  /-- An object, and where the text gives out if it does so before the object is closed. -/
  | object (members : List (Option String × Node)) (gap : Option Break)
  /-- No value: the text gives out. -/
  | broken (place : Break)

namespace Node

/-- Where the text gives out inside a node. -/
def gap? : Node → Option Break
  | .array _ gap => gap
  | .object _ gap => gap
  | .broken place => some place
  | _ => none

end Node

/-- An array or object that is being read, with what has been read of it, the latest first. -/
inductive Frame where
  | array (items : List Node)
  /-- An object in which the value of a key is being read. -/
  | object (members : List (Option String × Node)) (key : Option String)

/-- Puts a node into the frames around it, all of which give out at a place. -/
def enclose (place : Break) : Node → List Frame → Node
  | node, [] => node
  | node, .array items :: frames =>
      enclose place (.array (node :: items).reverse (some place)) frames
  | node, .object members key :: frames =>
      enclose place (.object ((key, node) :: members).reverse (some place)) frames

/-- A document: its value, and the fault that a reader meets who reads on after it. -/
structure Document where
  root : Node
  rest : Option Fault

/-- What may come next in a document. -/
inductive Cursor where
  /-- A value. -/
  | wantValue (frames : List Frame)
  /-- The first item of an array, or its end. -/
  | firstItem (frames : List Frame)
  /-- A comma and an item, or the end of the array. -/
  | nextItem (items : List Node) (frames : List Frame)
  /-- The first key of an object, or its end. -/
  | firstKey (frames : List Frame)
  /-- A key. -/
  | wantKey (members : List (Option String × Node)) (frames : List Frame)
  /-- The colon after a key. -/
  | wantColon (members : List (Option String × Node)) (key : Option String) (frames : List Frame)
  /-- A comma and a member, or the end of the object. -/
  | nextKey (members : List (Option String × Node)) (frames : List Frame)
  /-- Nothing. -/
  | finished (root : Node)
  /-- Nothing is read any more. -/
  | over (document : Document)

namespace Cursor

/-- Goes on after a complete value. -/
def complete (node : Node) : List Frame → Cursor
  | [] => .finished node
  | .array items :: frames => .nextItem (node :: items) frames
  | .object members key :: frames => .nextKey ((key, node) :: members) frames

/-- The text gives out where a value is wanted. -/
def breakValue (place : Break) (frames : List Frame) : Document :=
  ⟨enclose place (.broken place) frames, none⟩

/-- The text gives out inside an array, between items. -/
def breakItems (place : Break) (items : List Node) (frames : List Frame) : Document :=
  ⟨enclose place (.array items.reverse (some place)) frames, none⟩

/-- The text gives out inside an object, between members. -/
def breakMembers (place : Break) (members : List (Option String × Node)) (frames : List Frame) :
    Document :=
  ⟨enclose place (.object members.reverse (some place)) frames, none⟩

/-- Takes in a token where a value is wanted. -/
def takeValue (frames : List Frame) : Token → Cursor
  | .null => complete .null frames
  | .bool value => complete (.bool value) frames
  | .number value => complete (.number value) frames
  | .string text => complete (.string text) frames
  | .openArray => .firstItem frames
  | .openObject => .firstKey frames
  | .cut _ place => .over (breakValue place frames)
  | .closeArray | .closeObject | .comma | .colon => .over (breakValue .malformed frames)

/-- Takes in a token where a key is wanted. -/
def takeKey (members : List (Option String × Node)) (frames : List Frame) : Token → Cursor
  | .string text => .wantColon members text frames
  | .cut true place => .over (breakMembers place members frames)
  | _ => .over (breakMembers .malformed members frames)

/-- Takes in a token. -/
def step (cursor : Cursor) (token : Token) : Cursor :=
  match cursor with
  | .wantValue frames => takeValue frames token
  | .firstItem frames =>
      match token with
      | .closeArray => complete (.array [] none) frames
      | token => takeValue (.array [] :: frames) token
  | .nextItem items frames =>
      match token with
      | .closeArray => complete (.array items.reverse none) frames
      | .comma => .wantValue (.array items :: frames)
      | _ => .over (breakItems .malformed items frames)
  | .firstKey frames =>
      match token with
      | .closeObject => complete (.object [] none) frames
      | token => takeKey [] frames token
  | .wantKey members frames => takeKey members frames token
  | .wantColon members key frames =>
      match token with
      | .colon => .wantValue (.object members key :: frames)
      | _ => .over (breakValue .malformed (.object members key :: frames))
  | .nextKey members frames =>
      match token with
      | .closeObject => complete (.object members.reverse none) frames
      | .comma => .wantKey members frames
      | _ => .over (breakMembers .malformed members frames)
  | .finished root => .over ⟨root, some .malformed⟩
  | .over document => .over document

/-- The document, when the bytes end with a fault. -/
def finish (cursor : Cursor) (ending : Fault) : Document :=
  let place : Break := ⟨ending, ending, false⟩
  match cursor with
  | .wantValue frames => breakValue place frames
  | .firstItem frames => breakItems place [] frames
  | .nextItem items frames => breakItems place items frames
  | .firstKey frames => breakMembers place [] frames
  | .wantKey members frames => breakMembers place members frames
  | .wantColon members key frames => breakValue place (.object members key :: frames)
  | .nextKey members frames => breakMembers place members frames
  | .finished root =>
      match ending with
      | .interrupted reason => ⟨root, some (.interrupted reason)⟩
      | _ => ⟨root, none⟩
  | .over document => document

end Cursor

/-- The document that bytes hold, which end with a fault, were more of them wanted. -/
def Document.read (bytes : Bytes) (ending : Fault) : Document :=
  ((tokens bytes ending).foldl Cursor.step (.wantValue [])).finish ending

end LogicTree.Json
