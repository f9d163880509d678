import LogicTree.Toml.Scalar

/-! # Strings of settings documents

A string stands in quotes of one of two sorts, either within a line or, in three quotes, over
several lines. Double quotes allow escapes. Each function takes the text after the opening quotes,
and gives the string and the text after the closing ones.
-/

namespace LogicTree.Toml

/-- A string that has been read, and the text after it. -/
abbrev TextResult := Option (List Char × List Char)

/-- Puts a character before a string that has been read. -/
def consResult (c : Char) (result : TextResult) : TextResult :=
  result.map fun (text, rest) => (c :: text, rest)

/-- Whether a character may stand for itself within a line: no control character but the tab. -/
def isPlain (c : Char) : Bool :=
  c == '\t' || (decide ('\x20' ≤ c) && c != '\x7f')

/-- The character that a letter after a backslash stands for. -/
def escapedChar? (c : Char) : Option Char :=
  match c with
  | 'b' => some '\x08'
  | 't' => some '\t'
  | 'n' => some '\n'
  | 'f' => some '\x0c'
  | 'r' => some '\r'
  | '\x22' => some '\x22'
  | '\\' => some '\\'
  | _ => none

/-- The character with a number in hexadecimal digits. -/
def hexChar? (digits : List Char) : Option Char := do
  let value := ofDigits .hexadecimal (← digits.mapM Base.hexadecimal.digit?)
  if value.isValidChar then some (Char.ofNat value) else none

/-- A string in double quotes. -/
def basicText : List Char → TextResult
  | [] => none
  | '\x22' :: rest => some ([], rest)
  | '\\' :: 'u' :: a :: b :: c :: d :: rest =>
      match hexChar? [a, b, c, d] with
      | some char => consResult char (basicText rest)
      | none => none
  | '\\' :: 'U' :: a :: b :: c :: d :: e :: f :: g :: h :: rest =>
      match hexChar? [a, b, c, d, e, f, g, h] with
      | some char => consResult char (basicText rest)
      | none => none
  | '\\' :: letter :: rest =>
      match escapedChar? letter with
      | some char => consResult char (basicText rest)
      | none => none
  | c :: rest => if isPlain c && c != '\\' then consResult c (basicText rest) else none

/-- A string in single quotes. -/
def literalText : List Char → TextResult
  | [] => none
  | '\x27' :: rest => some ([], rest)
  | c :: rest => if isPlain c then consResult c (literalText rest) else none

/-- Three quotes, and up to two more before them that belong to the string. -/
def closing? (quote : Char) (text : List Char) : TextResult :=
  let run := (text.takeWhile (· == quote)).length
  if run < 3 then none
  else
    let kept := min (run - 3) 2
    some (List.replicate kept quote, text.drop (kept + 3))

/-- Whether only blanks stand before the end of the line. -/
def isLineEnd : List Char → Bool
  | ' ' :: rest | '\t' :: rest => isLineEnd rest
  | '\n' :: _ | '\r' :: '\n' :: _ => true
  | _ => false

/-- A string in three double quotes, in which a line ends in a line feed. While `skipping`, blanks
and line ends are passed over: a backslash at the end of a line does so up to the next other
character. -/
def multilineText (skipping : Bool) : List Char → TextResult
  | [] => none
  | '\\' :: 'u' :: a :: b :: c :: d :: rest =>
      match hexChar? [a, b, c, d] with
      | some char => consResult char (multilineText false rest)
      | none => none
  | '\\' :: 'U' :: a :: b :: c :: d :: e :: f :: g :: h :: rest =>
      match hexChar? [a, b, c, d, e, f, g, h] with
      | some char => consResult char (multilineText false rest)
      | none => none
  | '\\' :: letter :: rest =>
      match escapedChar? letter with
      | some char => consResult char (multilineText false rest)
      | none => if isLineEnd (letter :: rest) then multilineText true (letter :: rest) else none
  | '\r' :: '\n' :: rest =>
      if skipping then multilineText true rest
      else consResult '\n' (multilineText false rest)
  | c :: rest =>
      if skipping && (c == ' ' || c == '\t' || c == '\n') then multilineText true rest
      else if c == '\x22' then
        match closing? '\x22' (c :: rest) with
        | some result => some result
        | none => consResult c (multilineText false rest)
      else if (isPlain c && c != '\\') || c == '\n' then consResult c (multilineText false rest)
      else none

/-- A string in three single quotes, in which a line ends in a line feed. -/
def multilineLiteralText : List Char → TextResult
  | [] => none
  | '\r' :: '\n' :: rest => consResult '\n' (multilineLiteralText rest)
  | c :: rest =>
      if c == '\x27' then
        match closing? '\x27' (c :: rest) with
        | some result => some result
        | none => consResult c (multilineLiteralText rest)
      else if isPlain c || c == '\n' then consResult c (multilineLiteralText rest)
      else none

/-- Drops a line end right after the opening quotes. -/
def dropLineEnd : List Char → List Char
  | '\n' :: rest => rest
  | '\r' :: '\n' :: rest => rest
  | text => text

/-- A string of any sort, at its opening quotes. -/
def quotedText : List Char → TextResult
  | '\x22' :: '\x22' :: '\x22' :: rest => multilineText false (dropLineEnd rest)
  | '\x27' :: '\x27' :: '\x27' :: rest => multilineLiteralText (dropLineEnd rest)
  | '\x22' :: rest => basicText rest
  | '\x27' :: rest => literalText rest
  | _ => none

end LogicTree.Toml
