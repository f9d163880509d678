import LogicTree.Decimal.Layout
import LogicTree.Json.Value

/-! # Writing JSON

A value is written either in one line without blanks, or with every item and member on a line of
its own, indented by two blanks a level. Strings escape quotes, backslashes and control characters
and nothing else.
-/

namespace LogicTree.Json

/-- How a value is spread over lines. -/
inductive Spread where
  /-- In one line without blanks. -/
  | compact
  /-- One line for each item and member. -/
  | lines
  deriving DecidableEq

/-- The hexadecimal digit of a number below sixteen. -/
def hexDigit (n : UInt8) : UInt8 :=
  if n < 10 then 0x30 + n else 0x57 + n

/-- A byte of a string as it stands between the quotes. -/
def escapeByte (byte : UInt8) : Bytes :=
  if byte = 0x22 ∨ byte = 0x5c then [0x5c, byte]
  else if 0x20 ≤ byte then [byte]
  else match byte with
    | 0x08 => [0x5c, 0x62]
    | 0x09 => [0x5c, 0x74]
    | 0x0a => [0x5c, 0x6e]
    | 0x0c => [0x5c, 0x66]
    | 0x0d => [0x5c, 0x72]
    | _ => [0x5c, 0x75, 0x30, 0x30, hexDigit (byte / 16), hexDigit (byte % 16)]

/-- A string in quotes. -/
def printString (s : String) : Bytes :=
  0x22 :: ((Bytes.ofString s).flatMap escapeByte ++ [0x22])

/-- A number. -/
def printNumber : JsonNumber → Bytes
  | .integer value _ => Bytes.ofInt value
  | .real value _ => (NumberLayout.document.chars value).map fun c => c.toNat.toUInt8

/-- What stands before an item at a depth: a line break and the indentation, or nothing. -/
def Spread.lineBreak (depth : Nat) : Spread → Bytes
  | .compact => []
  | .lines => 0x0a :: List.replicate (2 * depth) 0x20

/-- What stands between a key and its value. -/
def Spread.afterKey : Spread → Bytes
  | .compact => [0x3a]
  | .lines => [0x3a, 0x20]

mutual

/-- The text of a value that starts at a depth. -/
def printAt (spread : Spread) (depth : Nat) : Json → Bytes
  | .null => [0x6e, 0x75, 0x6c, 0x6c]
  | .bool true => [0x74, 0x72, 0x75, 0x65]
  | .bool false => [0x66, 0x61, 0x6c, 0x73, 0x65]
  | .number value => printNumber value
  | .string value => printString value
  | .array [] => [0x5b, 0x5d]
  | .array (item :: items) =>
      0x5b :: (spread.lineBreak (depth + 1) ++ printAt spread (depth + 1) item
        ++ printItems spread (depth + 1) items ++ spread.lineBreak depth ++ [0x5d])
  | .object [] => [0x7b, 0x7d]
  | .object ((key, value) :: members) =>
      0x7b :: (spread.lineBreak (depth + 1) ++ printString key ++ spread.afterKey
        ++ printAt spread (depth + 1) value
        ++ printMembers spread (depth + 1) members ++ spread.lineBreak depth ++ [0x7d])

/-- The items of an array after the first, each after a comma. -/
def printItems (spread : Spread) (depth : Nat) : List Json → Bytes
  | [] => []
  | item :: items =>
      0x2c :: (spread.lineBreak depth ++ printAt spread depth item
        ++ printItems spread depth items)

/-- The members of an object after the first, each after a comma. -/
def printMembers (spread : Spread) (depth : Nat) : List (String × Json) → Bytes
  | [] => []
  | (key, value) :: members =>
      0x2c :: (spread.lineBreak depth ++ printString key ++ spread.afterKey
        ++ printAt spread depth value ++ printMembers spread depth members)

end

/-- The text of a value. -/
def print (spread : Spread) (value : Json) : Bytes :=
  value.printAt spread 0

end LogicTree.Json
