import LogicTree.Text.Bytes

/-! # Numerals

Natural numbers written in decimal digits, as labels, arguments and settings spell them. Any number
of leading zeros is allowed, and a plus sign before them.
-/

namespace LogicTree.Text

/-- Appends a decimal digit on the right of a number. -/
def pushDigit (n : Nat) (digit : Char) : Nat :=
  n * 10 + (digit.toNat - 48)

/-- Value of a text of decimal digits, at least one; `none` for any other text. -/
def digitsValue? (digits : List Char) : Option Nat :=
  if digits.isEmpty || !digits.all Char.isDigit then none
  else some (digits.foldl pushDigit 0)

/-- The natural number that a numeral spells, with a plus sign before the digits or without. -/
def natural? : List Char → Option Nat
  | '+' :: digits => digitsValue? digits
  | digits => digitsValue? digits

end LogicTree.Text
