import LogicTree.Toml.Text

/-! # Reading settings documents

A document is a sequence of lines: headers, values of keys, comments and empty lines. A text that is
no document has no value; where it goes wrong is not said.
-/

namespace LogicTree.Toml

/-- Drops blanks within a line. -/
def dropBlanks : List Char → List Char
  | ' ' :: rest => dropBlanks rest
  | '\t' :: rest => dropBlanks rest
  | text => text

/-- Passes over blanks, line ends and comments. -/
def dropLines (inComment : Bool) : List Char → Option (List Char)
  | [] => some []
  | '\n' :: rest => dropLines false rest
  | '\r' :: '\n' :: rest => dropLines false rest
  | c :: rest =>
      if inComment then if isPlain c then dropLines true rest else none
      else if c == ' ' || c == '\t' then dropLines false rest
      else if c == '#' then dropLines true rest
      else some (c :: rest)

/-- Passes over a comment up to the end of its line. -/
def dropComment : List Char → Option (List Char)
  | [] => some []
  | '\n' :: rest => some rest
  | '\r' :: '\n' :: rest => some rest
  | c :: rest => if isPlain c then dropComment rest else none

/-- Passes over what may stand behind a statement: blanks, a comment and the line end. -/
def endLine (text : List Char) : Option (List Char) :=
  match dropBlanks text with
  | [] => some []
  | '\n' :: rest => some rest
  | '\r' :: '\n' :: rest => some rest
  | '#' :: rest => dropComment rest
  | _ => none

/-- Whether a character may stand in a key without quotes. -/
def isKeyChar (c : Char) : Bool :=
  c.isAlphanum || c == '_' || c == '-'

/-- One part of a key, with quotes or without. -/
def keyPart (text : List Char) : TextResult :=
  match text with
  | '\x22' :: rest => basicText rest
  | '\x27' :: rest => literalText rest
  | text =>
      let word := text.takeWhile isKeyChar
      if word.isEmpty then none else some (word, text.dropWhile isKeyChar)

/-- How many arrays and inline tables may stand in one another, and how many parts a key may
have. -/
def depthLimit : Nat := 79

/-- At most so many parts of a key, joined by points that may stand between blanks, and the text
after it and the blanks behind it. -/
def keyParts : Nat → List Char → Option (List String × List Char)
  | 0, _ => none
  | limit + 1, text => do
      let (part, rest) ← keyPart (dropBlanks text)
      match dropBlanks rest with
      | '.' :: rest => do
          let (parts, rest) ← keyParts limit rest
          return (String.ofList part :: parts, rest)
      | rest => return ([String.ofList part], rest)

/-- A key, and the text after it and the blanks behind it. -/
def key (text : List Char) : Option (List String × List Char) :=
  keyParts depthLimit text

mutual

/-- A value, and the text after it. -/
def value : Nat → Nat → List Char → Option (Value × List Char)
  | 0, _, _ => none
  | fuel + 1, depth, text =>
      match text with
      | '\x22' :: _ | '\x27' :: _ =>
          (quotedText text).map fun (content, rest) => (.text (String.ofList content), rest)
      | '[' :: rest =>
          if depthLimit ≤ depth then none
          else do
            let (items, rest) ← arrayItems fuel (depth + 1) (← dropLines false rest)
            return (.array items, rest)
      | '\x7b' :: rest =>
          if depthLimit ≤ depth then none
          else match dropBlanks rest with
            | '\x7d' :: rest => some (.table [], rest)
            | rest => do
                let (entries, rest) ← inlineEntries fuel (depth + 1) [] rest
                return (.table (finishEntries entries), rest)
      | text => do
          let (word, rest) := cutScalar text
          return (← scalar? word, rest)

/-- The items of an array up to its end, of which the last may have a comma behind it. -/
def arrayItems : Nat → Nat → List Char → Option (List Value × List Char)
  | 0, _, _ => none
  | fuel + 1, depth, text =>
      match text with
      | ']' :: rest => some ([], rest)
      | text => do
          let (item, rest) ← value fuel depth text
          match ← dropLines false rest with
          | ']' :: rest => return ([item], rest)
          | ',' :: rest => do
              let (items, rest) ← arrayItems fuel depth (← dropLines false rest)
              return (item :: items, rest)
          | _ => none

/-- The entries of an inline table up to its end. -/
def inlineEntries : Nat → Nat → Entries → List Char → Option (Entries × List Char)
  | 0, _, _, _ => none
  | fuel + 1, depth, entries, text => do
      let (path, rest) ← key text
      match rest with
      | '=' :: rest => do
          let (item, rest) ← value fuel depth (dropBlanks rest)
          let entries ← entries.assign path item
          match dropBlanks rest with
          | '\x7d' :: rest => return (entries, rest)
          | ',' :: rest => inlineEntries fuel depth entries rest
          | _ => none
      | _ => none

end

/-- The statements of a document, added to the entries so far. `header` is the path of the table
that the latest header opened. -/
def statements : Nat → List String → Entries → List Char → Option Entries
  | 0, _, _, _ => none
  | fuel + 1, header, root, text => do
      match ← dropLines false text with
      | [] => return root
      | '[' :: '[' :: rest => do
          let (path, rest) ← key rest
          match rest with
          | ']' :: ']' :: rest => do
              statements fuel path (← root.openNext path) (← endLine rest)
          | _ => none
      | '[' :: rest => do
          let (path, rest) ← key rest
          match rest with
          | ']' :: rest => do
              statements fuel path (← root.openTable path) (← endLine rest)
          | _ => none
      | text => do
          let (path, rest) ← key text
          match rest with
          | '=' :: rest => do
              let (item, rest) ← value fuel 0 (dropBlanks rest)
              statements fuel header (← root.assignIn header path item) (← endLine rest)
          | _ => none

/-- The table that a document holds. A byte order mark may stand before it. -/
def read? (text : String) : Option (List (String × Value)) :=
  let chars := match text.toList with
    | '\uFEFF' :: rest => rest
    | chars => chars
  (statements (chars.length + 1) [] [] chars).map finishEntries

end LogicTree.Toml
