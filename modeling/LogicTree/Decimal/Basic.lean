/-! # Decimal numbers

A decimal is a natural number of units of a power of ten. Reading one rounds it to the nearest
double, a tie going to the even neighbour.
-/

namespace LogicTree

/-- The number `digits * 10 ^ exponent`. -/
structure Decimal where
  digits : Nat
  exponent : Int
  deriving Repr, DecidableEq

namespace Decimal

/-- The double nearest to a decimal; infinity when it is too large. -/
def toFloat (d : Decimal) : Float :=
  Float.ofScientific d.digits (d.exponent < 0) d.exponent.natAbs

/-- A decimal with a sign, as a double. Zero keeps its sign. -/
def toSignedFloat (negative : Bool) (d : Decimal) : Float :=
  if negative then -d.toFloat else d.toFloat

/-- Drops trailing zeros from `digits`, at most `fuel` of them. -/
def trim : Nat → Nat → Int → Decimal
  | 0, digits, exponent => ⟨digits, exponent⟩
  | fuel + 1, digits, exponent =>
      if digits ≠ 0 ∧ digits % 10 = 0 then trim fuel (digits / 10) (exponent + 1)
      else ⟨digits, exponent⟩

end Decimal

end LogicTree
