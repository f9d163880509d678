import LogicTree.Decimal.Shortest
import LogicTree.Text.Bytes

/-! # Layouts of numbers

A layout says how the shortest digits of a double are set out: where positional notation ends,
whether a whole number keeps a point, how an exponent and the non-finite values are spelt. There is
one for reports and messages, one for documents and one for configuration files.
-/

namespace LogicTree

/-- How a double is set out as text. -/
structure NumberLayout where
  /-- Which of two equally near shortest decimals is written. -/
  tie : Tie
  /-- Exponents of the first digit that are written positionally; `none` for all of them. -/
  positional : Option (Int × Int)
  /-- Whether a whole number in positional notation ends in `.0`. -/
  keepsPoint : Bool
  /-- The word for a value that is not a number. -/
  notANumber : String

namespace NumberLayout

/-- Reports, labels and messages: never an exponent, and whole numbers without a point. -/
def plain : NumberLayout := ⟨.away, none, false, "NaN"⟩

/-- Documents: positional from `0.00001` up to below `1e+16`, and always a point or an exponent. -/
def document : NumberLayout := ⟨.even, some (-5, 15), true, "NaN"⟩

/-- Configuration files: positional, and always a point. -/
def settings : NumberLayout := ⟨.away, none, true, "nan"⟩

/-- Digits in positional notation, the first of them standing at ten to the `first`. -/
def positionalText (keepsPoint : Bool) (digits : List Char) (first : Int) : List Char :=
  if first < 0 then
    '0' :: '.' :: (List.replicate (first.natAbs - 1) '0' ++ digits)
  else
    let whole := first.natAbs + 1
    if digits.length ≤ whole then
      let point := if keepsPoint then ['.', '0'] else []
      digits ++ List.replicate (whole - digits.length) '0' ++ point
    else
      digits.take whole ++ '.' :: digits.drop whole

/-- Digits in scientific notation, with a sign on the exponent. -/
def scientificText (digits : List Char) (first : Int) : List Char :=
  let fraction := digits.drop 1
  digits.take 1 ++ (if fraction.isEmpty then [] else '.' :: fraction) ++
    'e' :: (if first < 0 then '-' else '+') :: Nat.toDigits 10 first.natAbs

/-- A non-negative decimal in this layout. -/
def decimalText (layout : NumberLayout) (d : Decimal) : List Char :=
  let digits := Nat.toDigits 10 d.digits
  let first : Int := d.exponent + (digits.length : Int) - 1
  let positional := match layout.positional with
    | none => true
    | some (low, high) => decide (low ≤ first ∧ first ≤ high)
  if positional then positionalText layout.keepsPoint digits first else scientificText digits first

/-- A double in this layout. -/
def chars (layout : NumberLayout) (f : Float) : List Char :=
  if f.isNaN then layout.notANumber.toList
  else
    let sign := if Float64.isNegative f then ['-'] else []
    if f.isFinite then sign ++ layout.decimalText (Decimal.shortest layout.tie f)
    else sign ++ ['i', 'n', 'f']

/-- A double in this layout, as a string. -/
def text (layout : NumberLayout) (f : Float) : String :=
  String.ofList (layout.chars f)

end NumberLayout

/-- A double as reports and messages show it. -/
def Text.ofFloat (f : Float) : String :=
  NumberLayout.plain.text f

end LogicTree
