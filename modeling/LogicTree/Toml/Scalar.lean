import LogicTree.Decimal.Basic
import LogicTree.Text.Numeral
import LogicTree.Toml.Value

/-! # Scalars of settings documents

Words, numbers and moments stand without quotes. The text of one is cut out first, and then has to
be one as a whole.
-/

namespace LogicTree.Toml

/-! ## Digits -/

/-- A base in which integers are written. -/
inductive Base where
  | binary
  | octal
  | decimal
  | hexadecimal
  deriving DecidableEq

namespace Base

/-- The number of digits of a base. -/
def size : Base → Nat
  | .binary => 2
  | .octal => 8
  | .decimal => 10
  | .hexadecimal => 16

/-- The value of a digit of a base. -/
def digit? (base : Base) (c : Char) : Option Nat :=
  let value :=
    if c.isDigit then c.toNat - 48
    else if 'a' ≤ c ∧ c ≤ 'f' then c.toNat - 87
    else if 'A' ≤ c ∧ c ≤ 'F' then c.toNat - 55
    else 16
  if value < base.size then some value else none

end Base

/-- The digits of a text, among which single underscores may stand between two digits. -/
def digits? (base : Base) : List Char → Option (List Nat)
  | [] => none
  | [c] => (base.digit? c).map ([·])
  | c :: '_' :: rest => do
      let digit ← base.digit? c
      return digit :: (← digits? base rest)
  | c :: rest => do
      let digit ← base.digit? c
      return digit :: (← digits? base rest)

/-- The number that digits make. -/
def ofDigits (base : Base) (digits : List Nat) : Nat :=
  digits.foldl (fun n digit => n * base.size + digit) 0

/-- The digits of a decimal number without needless zeros in front. -/
def wholeDigits? (text : List Char) : Option (List Nat) := do
  let digits ← digits? .decimal text
  match digits with
  | 0 :: _ :: _ => none
  | digits => some digits

/-- Takes a sign off a text: whether it is a minus sign, and the rest. -/
def takeSign : List Char → Bool × List Char
  | '-' :: rest => (true, rest)
  | '+' :: rest => (false, rest)
  | text => (false, text)

/-! ## Numbers -/

/-- The value of an integer, which has to fit in a signed word. -/
def ofInteger? (value : Int) : Option Value :=
  if -9223372036854775808 ≤ value ∧ value < 9223372036854775808 then some (.integer value)
  else none

/-- An integer: decimal with a sign or without, or in another base without a sign. -/
def integer? (text : List Char) : Option Value :=
  let inBase (base : Base) (digits : List Char) : Option Value :=
    (digits? base digits).bind fun digits => ofInteger? (ofDigits base digits)
  match text with
  | '0' :: 'x' :: digits => inBase .hexadecimal digits
  | '0' :: 'o' :: digits => inBase .octal digits
  | '0' :: 'b' :: digits => inBase .binary digits
  | text => do
      let (negative, digits) := takeSign text
      let value := ofDigits .decimal (← wholeDigits? digits)
      ofInteger? (if negative then -value else value)

/-- Splits a text at the first character that passes a test; the second part is absent if there is
none. -/
def splitAt? (test : Char → Bool) (text : List Char) : List Char × Option (List Char) :=
  match text.dropWhile fun c => !test c with
  | [] => (text, none)
  | _ :: rest => (text.takeWhile fun c => !test c, some rest)

/-- A number with a point, an exponent or both. One too large for a double is refused, while one
too far below zero becomes minus infinity. -/
def real? (text : List Char) : Option Value := do
  let (negative, text) := takeSign text
  if text == ['i', 'n', 'f'] then
    return .real (if negative then -(1.0 / 0.0) else 1.0 / 0.0)
  if text == ['n', 'a', 'n'] then
    return .real (0.0 / 0.0)
  let (mantissa, exponentText) := splitAt? (fun c => c == 'e' || c == 'E') text
  let (wholeText, fractionText) := splitAt? (fun c => c == '.') mantissa
  if exponentText.isNone && fractionText.isNone then none
  let whole ← wholeDigits? wholeText
  let fraction ← match fractionText with
    | some text => digits? .decimal text
    | none => some []
  let exponent : Int ← match exponentText with
    | some text => do
        let (negative, text) := takeSign text
        let value : Int := ofDigits .decimal (← digits? .decimal text)
        some (if negative then -value else value)
    | none => some 0
  let value := Decimal.toSignedFloat negative
    ⟨ofDigits .decimal (whole ++ fraction), exponent - fraction.length⟩
  if value == 1.0 / 0.0 then none else some (.real value)

/-! ## Moments -/

/-- The number of a text of digits, with nothing else in it. -/
def field? (text : List Char) : Option Nat :=
  Text.digitsValue? text

/-- Whether a number of digits lies in a range. -/
def fieldWithin (low high : Nat) (text : List Char) : Bool :=
  match field? text with
  | some n => decide (low ≤ n ∧ n ≤ high)
  | none => false

/-- The number of days of a month. -/
def daysOfMonth (year month : Nat) : Nat :=
  match month with
  | 2 => if year % 4 = 0 ∧ (year % 100 ≠ 0 ∨ year % 400 = 0) then 29 else 28
  | 4 | 6 | 9 | 11 => 30
  | _ => 31

/-- Whether a text is a day of the calendar: year, month and day. -/
def isDate : List Char → Bool
  | [y1, y2, y3, y4, '-', m1, m2, '-', d1, d2] =>
      match field? [y1, y2, y3, y4], field? [m1, m2] with
      | some year, some month =>
          decide (1 ≤ month ∧ month ≤ 12) && fieldWithin 1 (daysOfMonth year month) [d1, d2]
      | _, _ => false
  | _ => false

/-- Whether a text is a time of the day, possibly with a fraction of a second. -/
def isTime : List Char → Bool
  | h1 :: h2 :: ':' :: m1 :: m2 :: ':' :: s1 :: s2 :: fraction =>
      fieldWithin 0 23 [h1, h2] && fieldWithin 0 59 [m1, m2] && fieldWithin 0 60 [s1, s2]
        && match fraction with
          | [] => true
          | '.' :: digits => (field? digits).isSome
          | _ => false
  | _ => false

/-- Whether a text is a time of the day, possibly with a distance from universal time. -/
def isZonedTime (text : List Char) : Bool :=
  let time := text.takeWhile fun c => c.isDigit || c == ':' || c == '.'
  isTime time && match text.drop time.length with
    | [] | ['Z'] | ['z'] => true
    | [sign, h1, h2, ':', m1, m2] =>
        (sign == '+' || sign == '-') && fieldWithin 0 23 [h1, h2] && fieldWithin 0 59 [m1, m2]
    | _ => false

/-- Whether a text is a date, a time or both. -/
def isMoment (text : List Char) : Bool :=
  isTime text || match text.drop 10 with
    | [] => isDate text
    | separator :: time =>
        (separator == 'T' || separator == 't' || separator == ' ')
          && isDate (text.take 10) && isZonedTime time

/-! ## Words -/

/-- Whether a character belongs to a scalar. -/
def isScalarChar (c : Char) : Bool :=
  c.isAlphanum || c == '_' || c == '-' || c == '+' || c == '.' || c == ':'

/-- The value of the text of a scalar. -/
def scalar? (text : List Char) : Option Value :=
  if text == ['t', 'r', 'u', 'e'] then some (.bool true)
  else if text == ['f', 'a', 'l', 's', 'e'] then some (.bool false)
  else if isMoment text then some .moment
  else (integer? text).or (real? text)

/-- Cuts a scalar off a text. A date goes on over one blank if a digit follows. -/
def cutScalar (text : List Char) : List Char × List Char :=
  let word := text.takeWhile isScalarChar
  let rest := text.dropWhile isScalarChar
  match rest with
  | ' ' :: c :: _ =>
      if isDate word && c.isDigit then
        (word ++ ' ' :: (rest.drop 1).takeWhile isScalarChar,
          (rest.drop 1).dropWhile isScalarChar)
      else (word, rest)
  | rest => (word, rest)

end LogicTree.Toml
