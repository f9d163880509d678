import LogicTree.Document.Writer
import LogicTree.Proofs.Json.Documents

/-! # Spellings of trees

A document may spell a record as an object, with its members in any order and members of other names
among them, or as the array of all its values. What is absent is left out of an object, or null. The
document that is written for a tree is one of the spellings of the tree.
-/

namespace LogicTree

open Json

/-! ## Records -/

/-- A record with some fields: the array of them all, or an object of those that are kept, among
    members of other names that hold anything. -/
inductive RecordText (fields kept : List (String × Markup)) : Markup → Prop where
  | array : RecordText fields kept (.array (fields.map Prod.snd))
  | object {members others : List (StringText × Markup)}
      (unknown : ∀ member ∈ others, ∃ name, member.1.text? = some name ∧ name ∉ fields.map Prod.fst)
      (perm : members.Perm ((kept.map fun field => (.printed field.1, field.2)) ++ others)) :
      RecordText fields kept (.object members)

/-- A field that may be absent, and the members that are kept of it. -/
inductive OptionalText {α : Type} (spells : α → Markup → Prop) (name : String) :
    Option α → Markup → List (String × Markup) → Prop where
  | leftOut : OptionalText spells name none .null []
  | null : OptionalText spells name none .null [(name, .null)]
  | present {value : α} {markup : Markup} (h : spells value markup) :
      OptionalText spells name (some value) markup [(name, markup)]

theorem RecordText.printed {fields kept : List (String × Markup)} {members : List (String × Json)}
    (hkept : (members.map fun member => (member.1, Markup.ofJson member.2)) = kept) :
    RecordText fields kept (.ofJson (.object members)) := by
  have nothing : ∀ member ∈ ([] : List (StringText × Markup)),
      ∃ name, member.1.text? = some name ∧ name ∉ fields.map Prod.fst := by
    intro member hmember
    cases hmember
  refine .object nothing ?_
  rw [List.append_nil, ← hkept, List.map_map, Markup.ofMembers_eq_map]
  exact .refl _

/-! ## Payloads and rules -/

namespace Payload

/-- The value of a payload beside its kind. -/
def content : Payload → Json
  | .text value => .string value
  | .number value => Json.ofFloat value
  | .integer value => .number (.ofInt64 value)
  | .flag value => .bool value

theorem toJson_eq (payload : Payload) :
    payload.toJson = .object [("kind", .string payload.kind), ("value", payload.content)] := by
  cases payload <;> rfl

def fields (payload : Payload) : List (String × Markup) :=
  [("kind", .string (.printed payload.kind)), ("value", .ofJson payload.content)]

def Spells (payload : Payload) : Markup → Prop :=
  RecordText payload.fields payload.fields

theorem spells_toJson (payload : Payload) : payload.Spells (.ofJson payload.toJson) := by
  rw [toJson_eq]
  exact .printed rfl

end Payload

namespace Rule

def fields (rule : Rule) (value : Markup) : List (String × Markup) :=
  [("name", .string (.printed rule.name)), ("value", value)]

def Spells (rule : Rule) (markup : Markup) : Prop :=
  ∃ value, rule.value.Spells value ∧
    RecordText (rule.fields value) (rule.fields value) markup

theorem spells_toJson (rule : Rule) : rule.Spells (.ofJson rule.toJson) :=
  ⟨_, rule.value.spells_toJson, .printed rfl⟩

end Rule

/-! ## Branches and levels -/

namespace Branch

/-- The fields that are always there. -/
def fields (branch : Branch) (value : Markup) : List (String × Markup) :=
  [("relative_id", .ofJson (.number (.ofUInt64 branch.id.toUInt64))),
    ("weight", .ofJson (Json.ofFloat branch.weight)), ("value", value)]

def Spells (branch : Branch) (markup : Markup) : Prop :=
  ∃ value rule file keptRule keptFile,
    branch.value.Spells value ∧
    OptionalText Rule.Spells "rule" branch.rule rule keptRule ∧
    OptionalText (fun text => (· = .string (.printed text))) "input_file" branch.inputFile file
      keptFile ∧
    RecordText (branch.fields value ++ [("rule", rule), ("input_file", file)])
      (branch.fields value ++ (keptRule ++ keptFile)) markup

theorem spells_toJson (branch : Branch) : branch.Spells (.ofJson branch.toJson) := by
  have hvalue := branch.value.spells_toJson
  obtain ⟨id, weight, value, rule, file⟩ := branch
  cases rule with
  | none =>
      cases file with
      | none => exact ⟨_, _, _, _, _, hvalue, .leftOut, .leftOut, .printed rfl⟩
      | some file => exact ⟨_, _, _, _, _, hvalue, .leftOut, .present rfl, .printed rfl⟩
  | some rule =>
      have hrule := rule.spells_toJson
      cases file with
      | none => exact ⟨_, _, _, _, _, hvalue, .present hrule, .leftOut, .printed rfl⟩
      | some file => exact ⟨_, _, _, _, _, hvalue, .present hrule, .present rfl, .printed rfl⟩

end Branch

theorem spells_map {α : Type} {spells : α → Markup → Prop} {write : α → Json}
    (h : ∀ value, spells value (.ofJson (write value))) (values : List α) :
    List.Forall₂ spells values (Markup.ofItems (values.map write)) := by
  induction values with
  | nil => exact .nil
  | cons value values ih => exact .cons (h value) ih

namespace Level

def fields (level : Level) (branches : List Markup) : List (String × Markup) :=
  [("level", .ofJson (.number (.ofUInt64 level.number))), ("label", .string (.printed level.label)),
    ("applies_to", .string (.printed level.appliesTo)), ("branches", .array branches)]

def Spells (level : Level) (markup : Markup) : Prop :=
  ∃ branches, List.Forall₂ Branch.Spells level.branches branches ∧
    RecordText (level.fields branches) (level.fields branches) markup

theorem spells_toJson (level : Level) : level.Spells (.ofJson level.toJson) :=
  ⟨_, spells_map Branch.spells_toJson level.branches, .printed rfl⟩

end Level

/-! ## Trees -/

namespace Tree

variable {E : Type} [Writable E]

def fields (tree : Tree E) (levels : List Markup) (rows : List (String × E)) :
    List (String × Markup) :=
  [("model_name", .string (.printed tree.modelName)), ("levels", .array levels),
    ("elements", .ofJson (.object (rows.map fun row => (row.1, Writable.toJson row.2))))]

/-- The elements may stand in any order. -/
def Spells (tree : Tree E) (markup : Markup) : Prop :=
  ∃ levels rows, List.Forall₂ Level.Spells tree.levels levels ∧ rows.Perm tree.elements.rows ∧
    RecordText (tree.fields levels rows) (tree.fields levels rows) markup

/-- A document that spells a tree, with any blanks between its tokens. -/
def IsSpelling (tree : Tree E) (text : Bytes) : Prop :=
  ∃ markup, tree.Spells markup ∧ Spaced markup.marks text

theorem spells_toJsonWith {tree : Tree E} {rows : List (String × E)}
    (perm : rows.Perm tree.elements.rows) : tree.Spells (.ofJson (tree.toJsonWith rows)) :=
  ⟨_, rows, spells_map Level.spells_toJson tree.levels, perm, .printed rfl⟩

theorem isSpelling_print {tree : Tree E} {rows : List (String × E)}
    (perm : rows.Perm tree.elements.rows) (spread : Spread) :
    tree.IsSpelling ((tree.toJsonWith rows).print spread) :=
  ⟨_, spells_toJsonWith perm, spaced_printAt spread 0 _⟩

end Tree

end LogicTree
