import LogicTree.Decimal.Basic

/-! # Shortest decimal of a double

The shortest decimal of a positive double is the one with the fewest digits that reads back as the
same double. Of two with that many digits the nearer one is taken, and a tie goes as the caller
says.
-/

namespace LogicTree

/-- Which of two equally near decimals to take. -/
inductive Tie where
  /-- The one further from zero. -/
  | away
  /-- The one whose last digit is even. -/
  | even
  deriving Repr, DecidableEq

namespace Float64

/-- A double's stored fraction, of 52 bits, is below this. -/
def fractionBound : Nat := 4503599627370496

/-- Magnitude of a finite double as `mantissa * 2 ^ exponent`. -/
def magnitude (f : Float) : Nat × Int :=
  let bits := f.toBits.toNat
  let biased := bits / fractionBound % 2048
  let fraction := bits % fractionBound
  if biased = 0 then (fraction, -1074) else (fraction + fractionBound, Int.ofNat biased - 1075)

/-- The sign bit, set on negative zero too. -/
def isNegative (f : Float) : Bool :=
  9223372036854775808 ≤ f.toBits.toNat

end Float64

/-- A positive rational number as a quotient. -/
structure Quotient where
  num : Nat
  den : Nat

namespace Quotient

/-- The value `mantissa * 2 ^ exponent`. -/
def ofBinary (mantissa : Nat) (exponent : Int) : Quotient :=
  let power := Nat.pow 2 exponent.natAbs
  if exponent < 0 then ⟨mantissa, power⟩ else ⟨mantissa * power, 1⟩

/-- The quotient times `10 ^ exponent`. -/
def scale (q : Quotient) (exponent : Int) : Quotient :=
  let power := Nat.pow 10 exponent.natAbs
  if exponent < 0 then ⟨q.num, q.den * power⟩ else ⟨q.num * power, q.den⟩

/-- Raises `e`, at most `fuel` times, while the quotient is at least `10 ^ (e + 1)`. -/
def climb (q : Quotient) : Nat → Int → Int
  | 0, e => e
  | fuel + 1, e =>
      let next := q.scale (-(e + 1))
      if next.den ≤ next.num then climb q fuel (e + 1) else e

/-- The exponent of the first decimal digit. The start is a lower estimate: a binary exponent
times a little less, or for negative ones a little more, than the logarithm of two. -/
def decimalExponent (q : Quotient) : Int :=
  let binary : Int := (q.num.log2 : Int) - (q.den.log2 : Int) - 1
  q.climb 4 (binary * 30103 / 100000 - 1)

end Quotient

namespace Decimal

/-- Decides between the two neighbours `low` and `low + 1` of a value on one decimal grid: the
nearer of those that read back. `part` is where the value lies between them, as a quotient. -/
def neighbour? (reads : Decimal → Bool) (tie : Tie) (low : Nat) (exponent : Int)
    (part : Quotient) : Option Decimal :=
  let down : Decimal := ⟨low, exponent⟩
  let up : Decimal := ⟨low + 1, exponent⟩
  match reads down, reads up with
  | false, false => none
  | true, false => some down
  | false, true => some up
  | true, true =>
      if 2 * part.num < part.den then some down
      else if 2 * part.num > part.den then some up
      else match tie with
        | .away => some up
        | .even => some (if low % 2 = 0 then down else up)

/-- Searches the grids of `17 - rest`, …, 17 digits for a decimal that reads back. `scaled` is the
value times a power of ten that leaves seventeen digits before the point. -/
def search (reads : Decimal → Bool) (tie : Tie) (scaled : Quotient) (exponent : Int) :
    Nat → Option Decimal
  | 0 => none
  | rest + 1 =>
      let unit := scaled.den * Nat.pow 10 rest
      match neighbour? reads tie (scaled.num / unit) (exponent + rest)
          ⟨scaled.num % unit, unit⟩ with
      | some d => some d
      | none => search reads tie scaled exponent rest

/-- The exact decimal of `mantissa * 2 ^ exponent`: every double has one, since a half is five
tenths. -/
def ofBinary (mantissa : Nat) (exponent : Int) : Decimal :=
  if exponent < 0 then ⟨mantissa * Nat.pow 5 exponent.natAbs, exponent⟩
  else ⟨mantissa * Nat.pow 2 exponent.natAbs, 0⟩

/-- The shortest decimal that reads back as the magnitude of a finite double, without trailing
zeros. -/
def shortest (tie : Tie) (f : Float) : Decimal :=
  let (mantissa, exponent) := Float64.magnitude f
  if mantissa = 0 then ⟨0, 0⟩ else
    let value := Quotient.ofBinary mantissa exponent
    let first := value.decimalExponent
    let reads (d : Decimal) : Bool := d.toFloat == f.abs
    match search reads tie (value.scale (16 - first)) (first - 16) 17 with
    | some d => trim 400 d.digits d.exponent
    | none => ofBinary mantissa exponent

end Decimal

end LogicTree
