import LogicTree.Decimal.Shortest
import LogicTree.Elements

/-! # JSON values

Numbers are integers of up to 64 bits, signed or unsigned, or finite doubles. The members of an
object have an order, so that a document can be written in the order that suits it.
-/

namespace LogicTree

/-- A JSON number. -/
inductive JsonNumber where
  /-- An integer that a signed or an unsigned 64-bit word holds. -/
  | integer (value : Int) (inRange : -9223372036854775808 ≤ value ∧ value < 18446744073709551616)
  /-- A double that is neither infinite nor not a number. -/
  | real (value : Float) (finite : value.isFinite = true)
  deriving DecidableEq

namespace JsonNumber

/-- The number as a double; an integer is rounded to the nearest one. -/
def toFloat : JsonNumber → Float
  | .integer value _ => Float.ofInt value
  | .real value _ => value

/-- The number of an integer, if it is in range. -/
def ofInt? (value : Int) : Option JsonNumber :=
  if h : -9223372036854775808 ≤ value ∧ value < 18446744073709551616 then
    some (.integer value h)
  else none

/-- The number of a double, if it is finite. -/
def ofFloat? (value : Float) : Option JsonNumber :=
  if h : value.isFinite = true then some (.real value h) else none

/-- The number of a signed word. -/
def ofInt64 (value : Int64) : JsonNumber :=
  .integer value.toInt ⟨value.le_toInt, by have := value.toInt_lt; omega⟩

/-- The number of an unsigned word. -/
def ofUInt64 (value : UInt64) : JsonNumber :=
  .integer value.toNat ⟨by omega, by have := value.toNat_lt; omega⟩

/-- Equality of numbers of one sort, doubles being compared as numbers. -/
def agrees : JsonNumber → JsonNumber → Bool
  | .integer a _, .integer b _ => a == b
  | .real a _, .real b _ => a == b
  | _, _ => false

end JsonNumber

/-- A JSON value. -/
inductive Json where
  | null
  | bool (value : Bool)
  | number (value : JsonNumber)
  | string (value : String)
  | array (items : List Json)
  | object (members : List (String × Json))

namespace Json

/-- A double as a value. There is none for a double that is not finite, so that becomes null. -/
def ofFloat (value : Float) : Json :=
  match JsonNumber.ofFloat? value with
  | some finite => .number finite
  | none => .null

mutual

/-- Equality with numbers compared as numbers. -/
def agrees : Json → Json → Bool
  | .null, .null => true
  | .bool a, .bool b => a == b
  | .number a, .number b => a.agrees b
  | .string a, .string b => a == b
  | .array as, .array bs => agreeItems as bs
  | .object as, .object bs => agreeMembers as bs
  | _, _ => false

/-- Equality of items, one by one. -/
def agreeItems : List Json → List Json → Bool
  | [], [] => true
  | a :: as, b :: bs => a.agrees b && agreeItems as bs
  | _, _ => false

/-- Equality of members, one by one. -/
def agreeMembers : List (String × Json) → List (String × Json) → Bool
  | [], [] => true
  | (k, a) :: as, (l, b) :: bs => k == l && a.agrees b && agreeMembers as bs
  | _, _ => false

end

mutual

/-- The value with the members of every object in the order of their keys. -/
def sortKeys : Json → Json
  | .array items => .array (sortItems items)
  | .object members => .object (sortMembers members [])
  | value => value

/-- Items with their keys in order. -/
def sortItems : List Json → List Json
  | [] => []
  | item :: items => item.sortKeys :: sortItems items

/-- Puts members into rows in the order of their keys. -/
def sortMembers : List (String × Json) → List (String × Json) → List (String × Json)
  | [], rows => rows
  | (key, value) :: members, rows => sortMembers members (putRow key value.sortKeys rows)

end

end Json

end LogicTree
