import LogicTree.Text.Quoted
import LogicTree.Decimal.Layout

/-! # Problems met while reading a document

Reading stops at the first problem. Either the text itself gives out, or it is well formed and
holds something else than what is wanted there.
-/

namespace LogicTree

/-- A way in which the text of a document gives out. -/
inductive Fault where
  /-- The bytes are not a document. -/
  | malformed
  /-- The bytes end too early. -/
  | truncated
  /-- The device that supplies the bytes fails, for the reason given. -/
  | interrupted (reason : String)
  deriving DecidableEq

/-- What a document holds at some place. -/
inductive Found where
  | null
  | bool (value : Bool)
  | integer (value : Int)
  | real (value : Float)
  | text (value : String)
  | sequence
  | map
  deriving DecidableEq

/-- The words for what was found. -/
def Found.describe : Found → String
  | .null => "null"
  | .bool value => "boolean `" ++ (if value then "true" else "false") ++ "`"
  | .integer value => "integer `" ++ Text.ofInt value ++ "`"
  | .real value => "floating point `" ++ NumberLayout.document.text value ++ "`"
  | .text value => "string " ++ Text.quoted value
  | .sequence => "sequence"
  | .map => "map"

/-- A well-formed document that does not hold what is wanted. -/
inductive Mismatch where
  /-- A value of another type. -/
  | wrongType (found : Found) (wanted : String)
  /-- A value of the right type, out of range. -/
  | wrongValue (found : Found) (wanted : String)
  /-- A sequence that ends before all its items were there. -/
  | tooShort (length : Nat) (wanted : String)
  /-- An object without a member that has to be there. -/
  | missing (name : String)
  /-- An object with two members of one name. -/
  | repeated (name : String)
  /-- A payload of no known kind. -/
  | unknownKind (name : String)
  deriving DecidableEq

/-- The words for a mismatch. -/
def Mismatch.describe : Mismatch → String
  | .wrongType found wanted => "invalid type: " ++ found.describe ++ ", expected " ++ wanted
  | .wrongValue found wanted => "invalid value: " ++ found.describe ++ ", expected " ++ wanted
  | .tooShort length wanted =>
      "invalid length " ++ Text.ofNat length ++ ", expected " ++ wanted
  | .missing name => "missing field `" ++ name ++ "`"
  | .repeated name => "duplicate field `" ++ name ++ "`"
  | .unknownKind name =>
      "unknown variant `" ++ name ++ "`, expected one of `text`, `number`, `integer`, `flag`"

/-- The first problem in a document. -/
inductive Problem where
  | fault (cause : Fault)
  | mismatch (cause : Mismatch)
  deriving DecidableEq

/-- The words for a problem. A fault of the text has none of its own: where the text gives out is
for the reader to see. -/
def Problem.describe : Problem → String
  | .fault .malformed => "malformed document"
  | .fault .truncated => "document ends too early"
  | .fault (.interrupted reason) => reason
  | .mismatch cause => cause.describe

end LogicTree
