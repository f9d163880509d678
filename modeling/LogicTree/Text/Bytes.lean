/-! # Text as bytes

Documents, sinks and files deal in bytes. A string becomes its UTF-8 bytes, and bytes become a
string only when they are valid UTF-8.
-/

namespace LogicTree

/-- A byte stream. -/
abbrev Bytes := List UInt8

namespace Bytes

/-- The UTF-8 bytes of a string. -/
def ofString (s : String) : Bytes :=
  s.toByteArray.data.toList

/-- The string with these UTF-8 bytes, if they are valid. -/
def toString? (bytes : Bytes) : Option String :=
  String.fromUTF8? ⟨bytes.toArray⟩

/-- The bytes of the decimal digits of a number. -/
def ofNat (n : Nat) : Bytes :=
  (Nat.toDigits 10 n).map fun digit => digit.toNat.toUInt8

/-- The bytes of an integer: a minus sign before the digits of a negative one. -/
def ofInt : Int → Bytes
  | .ofNat n => ofNat n
  | .negSucc n => 0x2d :: ofNat (n + 1)

end Bytes

/-- Decimal text of an integer, with a minus sign before a negative one. -/
def Text.ofInt : Int → String
  | .ofNat n => String.ofList (Nat.toDigits 10 n)
  | .negSucc n => String.ofList ('-' :: Nat.toDigits 10 (n + 1))

/-- Decimal text of a natural number. -/
def Text.ofNat (n : Nat) : String :=
  String.ofList (Nat.toDigits 10 n)

end LogicTree
