import LogicTree.Decimal.Layout

/-! # Branches

A branch is one weighted alternative of a branching level. It carries a payload, and may carry an
uncertainty rule and the name of an input file.
-/

namespace LogicTree

/-- What a branch or a rule stands for. -/
inductive Payload where
  | text (value : String)
  | number (value : Float)
  | integer (value : Int64)
  | flag (value : Bool)
  deriving DecidableEq

namespace Payload

/-- The payload as reports show it. -/
def display : Payload → String
  | .text value => value
  | .number value => Text.ofFloat value
  | .integer value => Text.ofInt value.toInt
  | .flag value => if value then "true" else "false"

/-- The name of the payload's kind in documents. -/
def kind : Payload → String
  | .text _ => "text"
  | .number _ => "number"
  | .integer _ => "integer"
  | .flag _ => "flag"

/-- Equality with numbers compared as numbers, so that no payload that is not a number agrees with
itself. -/
def agrees : Payload → Payload → Bool
  | .text a, .text b => a == b
  | .number a, .number b => a == b
  | .integer a, .integer b => a == b
  | .flag a, .flag b => a == b
  | _, _ => false

end Payload

/-- How a branch modifies an uncertain quantity. -/
structure Rule where
  name : String
  value : Payload
  deriving DecidableEq

/-- Equality with numbers compared as numbers. -/
def Rule.agrees (a b : Rule) : Bool :=
  a.name == b.name && a.value.agrees b.value

/-- One weighted alternative. Its id counts from one, in storage order, in a well-formed level. -/
structure Branch where
  id : UInt32
  weight : Float
  value : Payload
  rule : Option Rule := none
  inputFile : Option String := none
  deriving DecidableEq

namespace Branch

/-- Equality with numbers compared as numbers. -/
def agrees (a b : Branch) : Bool :=
  a.id == b.id && a.weight == b.weight && a.value.agrees b.value
    && (match a.rule, b.rule with
        | none, none => true
        | some r, some s => r.agrees s
        | _, _ => false)
    && a.inputFile == b.inputFile

end Branch

end LogicTree
