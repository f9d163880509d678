import LogicTree.Text.Printable

/-! # Quoted text

A string inside double quotes, with escapes for what would not show.
-/

namespace LogicTree.Text

/-- A character inside double quotes. One that does not show becomes its code point in
hexadecimal digits between braces. -/
def quotedChar (c : Char) : List Char :=
  match c with
  | '\x00' => ['\\', '0']
  | '\t' => ['\\', 't']
  | '\n' => ['\\', 'n']
  | '\r' => ['\\', 'r']
  | '\x22' => ['\\', '\x22']
  | '\\' => ['\\', '\\']
  | c =>
      if isPrintable c then [c]
      else '\\' :: 'u' :: '\x7b' :: (Nat.toDigits 16 c.toNat ++ ['\x7d'])

/-- A string in double quotes. -/
def quoted (s : String) : String :=
  String.ofList ('\x22' :: (s.toList.flatMap quotedChar ++ ['\x22']))

end LogicTree.Text
