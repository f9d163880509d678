import LogicTree.Decimal.Layout

/-! # Writing settings documents

A string is written in the first form that can hold it as it is: within a line in double or in
single quotes, then over lines in double or in single quotes. If there is none, it is written with
escapes.
-/

namespace LogicTree.Toml

/-- Whether a character is a control character other than a tab or a line feed. -/
def isControl (c : Char) : Bool :=
  (decide (c < '\x20') && c != '\t' && c != '\n') || c == '\x7f'

/-- Length of the longest run of a character, given the length of the run just before. -/
def longestRun (c : Char) : Nat → List Char → Nat
  | run, [] => run
  | run, first :: rest =>
      if first == c then longestRun c (run + 1) rest else max run (longestRun c 0 rest)

/-- The forms in which a string is written. -/
inductive TextForm where
  | basic
  | literal
  | multilineBasic
  | multilineLiteral
  deriving DecidableEq

/-- The form that a string takes. -/
def TextForm.ofChars (text : List Char) : TextForm :=
  let has (c : Char) : Bool := text.contains c
  let control := text.any isControl
  let newline := has '\n'
  if !has '\x22' && !has '\\' && !newline && !control then .basic
  else if !has '\x27' && !newline && !control then .literal
  else if !has '\\' && !control && longestRun '\x22' 0 text ≤ 2 then .multilineBasic
  else if !control && longestRun '\x27' 0 text ≤ 2 then .multilineLiteral
  else if newline then .multilineBasic
  else .basic

/-- A hexadecimal digit, in capitals. -/
def hexCapital (n : Nat) : Char :=
  if n < 10 then Char.ofNat (48 + n) else Char.ofNat (55 + n)

/-- A character as it stands in double quotes, other than quotes and line feeds. -/
def escapedForm (c : Char) : List Char :=
  match c with
  | '\x08' => ['\\', 'b']
  | '\t' => ['\\', 't']
  | '\x0c' => ['\\', 'f']
  | '\r' => ['\\', 'r']
  | '\\' => ['\\', '\\']
  | c =>
      if isControl c then
        ['\\', 'u', '0', '0', hexCapital (c.toNat / 16), hexCapital (c.toNat % 16)]
      else [c]

/-- The characters of a string within a line in double quotes. -/
def basicChars : List Char → List Char
  | [] => []
  | c :: rest =>
      (match c with
        | '\x22' => ['\\', '\x22']
        | '\n' => ['\\', 'n']
        | c => escapedForm c) ++ basicChars rest

/-- The characters of a string over lines in double quotes. The third quote of a run is escaped;
`run` counts the quotes before that are not. -/
def multilineChars (run : Nat) : List Char → List Char
  | [] => []
  | c :: rest =>
      if c == '\x22' then
        if run < 2 then c :: multilineChars (run + 1) rest
        else '\\' :: c :: multilineChars 0 rest
      else if c == '\n' then c :: multilineChars 0 rest
      else escapedForm c ++ multilineChars 0 rest

/-- A string with its quotes. -/
def writeText (text : List Char) : List Char :=
  let lead := if text.contains '\n' then ['\n'] else []
  let double := ['\x22', '\x22', '\x22']
  let single := ['\x27', '\x27', '\x27']
  match TextForm.ofChars text with
  | .basic => '\x22' :: (basicChars text ++ ['\x22'])
  | .literal => '\x27' :: (text ++ ['\x27'])
  | .multilineBasic => double ++ lead ++ multilineChars 0 text ++ double
  | .multilineLiteral => single ++ lead ++ text ++ single

/-- A line that gives a value to a key. -/
def line (key : String) (value : List Char) : List Char :=
  key.toList ++ ' ' :: '=' :: ' ' :: (value ++ ['\n'])

/-- A line that opens a table. -/
def header (key : String) : List Char :=
  '[' :: (key.toList ++ [']', '\n'])

end LogicTree.Toml
