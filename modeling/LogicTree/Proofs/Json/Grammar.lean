import LogicTree.Proofs.Json.Numerals
import LogicTree.Proofs.Json.Strings

/-! # Numbers and strings of the grammar

A number may be spelled with any digits, point and exponent that JSON allows, and a string with
escapes for any of its characters. Each is cut off as one token, also where the number is too large
for a double or the escapes are no text.
-/

namespace LogicTree.Json

/-! ## Numbers -/

/-- What may stand behind the mantissa of a number: nothing, or a letter, perhaps a sign, and
    digits. -/
inductive IsExponent : List Char → Prop where
  | absent : IsExponent []
  | present {letter : Char} {sign digits : List Char} (isLetter : letter = 'e' ∨ letter = 'E')
      (isSign : sign = [] ∨ sign = ['+'] ∨ sign = ['-']) (nonempty : digits ≠ [])
      (isDigits : ∀ c ∈ digits, c.isDigit = true) : IsExponent (letter :: (sign ++ digits))

/-- A number in a text: as it is printed, or as the grammar allows it. -/
inductive NumberText where
  | printed (value : JsonNumber)
  | spelled (negative : Bool) (whole fraction exponent : List Char)
      (isWhole : NumberScan.IsWhole whole) (isFraction : ∀ c ∈ fraction, c.isDigit = true)
      (isExponent : IsExponent exponent)

namespace NumberText

/-- The characters behind the sign. -/
def unsigned (whole fraction exponent : List Char) : List Char :=
  whole ++ Numeral.pointed fraction ++ exponent

def bytes : NumberText → Bytes
  | .printed value => printNumber value
  | .spelled negative whole fraction exponent _ _ _ =>
      charBytes ((if negative then ['-'] else []) ++ unsigned whole fraction exponent)

/-- The number, unless it is too large for a double. -/
def value? : NumberText → Option JsonNumber
  | .printed value => some value
  | .spelled negative whole fraction exponent _ _ _ =>
      ((NumberScan.begun negative).run (charBytes (unsigned whole fraction exponent))).bind
        NumberScan.value?

end NumberText

namespace NumberScan

variable {scan : NumberScan}

theorem run_exponentText (hphase : scan.phase = .zero ∨ scan.phase = .whole ∨ scan.phase = .fraction)
    {exponent : List Char} (h : IsExponent exponent) :
    ∃ final, scan.run (charBytes exponent) = some final ∧ final.isComplete = true := by
  cases h with
  | absent =>
      refine ⟨scan, rfl, ?_⟩
      rcases hphase with hphase | hphase | hphase <;> rw [isComplete, hphase]
  | present isLetter isSign nonempty isDigits =>
      rename_i letter sign digits
      let mark : NumberScan := { scan with phase := .mark }
      have hletter : scan.next? letter.toNat.toUInt8 = some mark := by
        rcases isLetter with rfl | rfl <;> rcases hphase with hphase | hphase | hphase <;>
          simp [next?, hphase, mark, isDigit, Nat.toUInt8]
      rw [charBytes_cons, run_cons hletter, charBytes_append]
      -- a sign only decides in which phase the digits are met
      rcases isSign with rfl | rfl | rfl
      · exact ⟨_, run_exponentDigits (.inl rfl) nonempty isDigits, rfl⟩
      · let signed : NumberScan := { mark with phase := .markSign }
        have hsign : mark.next? '+'.toNat.toUInt8 = some signed := rfl
        rw [charBytes_cons, List.cons_append, run_cons hsign]
        exact ⟨_, run_exponentDigits (.inr rfl) nonempty isDigits, rfl⟩
      · let signed : NumberScan := { mark with phase := .markSign, exponentNegative := true }
        have hsign : mark.next? '-'.toNat.toUInt8 = some signed := rfl
        rw [charBytes_cons, List.cons_append, run_cons hsign]
        exact ⟨_, run_exponentDigits (.inr rfl) nonempty isDigits, rfl⟩

end NumberScan

theorem NumberText.scan_bytes (text : NumberText) (tokens : List Token) :
    ∃ scan, text.bytes.foldl Lexer.step ⟨tokens, .between⟩ = ⟨tokens, .number scan⟩ ∧
      scan.isComplete = true ∧ scan.value? = text.value? := by
  cases text with
  | printed value => exact scan_printNumber value tokens
  | spelled negative whole fraction exponent isWhole isFraction isExponent =>
      obtain ⟨final, hfinal, complete⟩ := NumberScan.run_exponentText
        (NumberScan.phase_atMantissa negative whole fraction) isExponent
      have hrun : (NumberScan.begun negative).run (charBytes (unsigned whole fraction exponent)) =
          some final := by
        rw [unsigned, charBytes_append, charBytes_append, NumberScan.run_append,
          NumberScan.run_append, NumberScan.run_begun negative isWhole]
        simp only [Option.bind_some, NumberScan.run_pointed negative whole isFraction, hfinal]
      have hhead := isWhole.head (Numeral.pointed fraction ++ exponent)
      rw [← List.append_assoc] at hhead
      refine ⟨final, foldl_step_signed negative hhead hrun, complete, ?_⟩
      rw [value?, hrun, Option.bind_some]

/-! ## Strings -/

/-- A piece of a string between its quotes. -/
inductive StringPiece where
  /-- A byte that stands for itself. -/
  | plain (byte : UInt8) (isPlain : 0x20 ≤ byte ∧ byte ≠ 0x22 ∧ byte ≠ 0x5c)
  /-- A backslash and a letter. -/
  | escape (letter byte : UInt8) (isLetter : escapedByte? letter = some byte)
  /-- A character, or half of a pair, by the digits of its number. -/
  | unit (a b c d : UInt8) (unit : Nat) (isUnit : hexQuad? a b c d = some unit)

/-- A string in a text: as it is printed, or as the grammar allows it. -/
inductive StringText where
  | printed (text : String)
  | spelled (pieces : List StringPiece)

def StringPiece.bytes : StringPiece → Bytes
  | .plain byte _ => [byte]
  | .escape letter _ _ => [0x5c, letter]
  | .unit a b c d _ _ => [0x5c, 0x75, a, b, c, d]

def StringText.bytes : StringText → Bytes
  | .printed text => printString text
  | .spelled pieces => 0x22 :: (pieces.flatMap StringPiece.bytes ++ [0x22])

namespace StringScan

/-- Puts a byte behind the bytes so far; half of a pair cannot wait any longer. -/
def pushByte (scan : StringScan) (byte : UInt8) : StringScan :=
  { scan.forgetLead with bytes := byte :: scan.forgetLead.bytes }

/-- Takes in a piece of a string. -/
def take (scan : StringScan) : StringPiece → StringScan
  | .plain byte _ => scan.pushByte byte
  | .escape _ byte _ => scan.pushByte byte
  | .unit _ _ _ _ unit _ => scan.pushUnit unit

/-- The text when the string ends here, if it is one. -/
def text? (scan : StringScan) : Option String :=
  if scan.forgetLead.spoilt then none else Bytes.toString? scan.forgetLead.bytes.reverse

end StringScan

/-- The text that a string stands for, if it is one. -/
def StringText.text? : StringText → Option String
  | .printed text => some text
  | .spelled pieces => (pieces.foldl StringScan.take {}).text?

namespace StringScan

variable {scan : StringScan}

theorem phase_forgetLead (scan : StringScan) : scan.forgetLead.phase = scan.phase := by
  unfold forgetLead
  split <;> rfl

theorem phase_pushUnit (scan : StringScan) (unit : Nat) : (scan.pushUnit unit).phase = .plain := by
  cases hlead : scan.lead with
  | some lead =>
      simp only [pushUnit, hlead]
      split <;> rfl
  | none =>
      simp only [pushUnit, hlead]
      split
      · rfl
      · split <;> rfl

theorem phase_take (hphase : scan.phase = .plain) (piece : StringPiece) :
    (scan.take piece).phase = .plain := by
  cases piece with
  | plain | escape => exact (phase_forgetLead scan).trans hphase
  | unit a b c d unit isUnit => exact phase_pushUnit scan unit

end StringScan

variable {scan : StringScan} {tokens : List Token}

theorem foldl_step_piece (hphase : scan.phase = .plain) (piece : StringPiece) :
    piece.bytes.foldl Lexer.step ⟨tokens, .string scan⟩ = ⟨tokens, .string (scan.take piece)⟩ := by
  obtain ⟨phase, bytes, lead, spoilt⟩ := scan
  obtain rfl : phase = .plain := hphase
  cases piece with
  | plain byte isPlain =>
      obtain ⟨high, hquote, hbackslash⟩ := isPlain
      have hlow : ¬ byte < 0x20 := UInt8.not_lt.2 high
      simp [StringPiece.bytes, Lexer.step, StringScan.step, StringScan.take, StringScan.pushByte,
        hquote, hbackslash, hlow]
  | escape letter byte isLetter =>
      have hunit : letter ≠ 0x75 := by
        intro heq
        rw [heq] at isLetter
        cases isLetter
      cases lead <;>
        simp [StringPiece.bytes, Lexer.step, StringScan.step, StringScan.take, StringScan.pushByte,
          StringScan.forgetLead, hunit, isLetter]
  | unit a b c d unit isUnit =>
      simp [StringPiece.bytes, Lexer.step, StringScan.step, StringScan.take, StringScan.pushUnit,
        isUnit]

theorem foldl_step_pieces (hphase : scan.phase = .plain) (pieces : List StringPiece) :
    (pieces.flatMap StringPiece.bytes).foldl Lexer.step ⟨tokens, .string scan⟩ =
        ⟨tokens, .string (pieces.foldl StringScan.take scan)⟩ ∧
      (pieces.foldl StringScan.take scan).phase = .plain := by
  induction pieces generalizing scan with
  | nil => exact ⟨rfl, hphase⟩
  | cons piece pieces ih =>
      obtain ⟨hpieces, hplain⟩ := ih (StringScan.phase_take hphase piece)
      rw [List.flatMap_cons, List.foldl_append, foldl_step_piece hphase]
      exact ⟨hpieces, hplain⟩

theorem step_closingQuote (hphase : scan.phase = .plain) :
    Lexer.step ⟨tokens, .string scan⟩ 0x22 = ⟨.string scan.text? :: tokens, .between⟩ := by
  simp [Lexer.step, StringScan.step, hphase, StringScan.text?]

theorem StringText.scan_bytes (text : StringText) (tokens : List Token) :
    text.bytes.foldl Lexer.step ⟨tokens, .between⟩ = ⟨.string text.text? :: tokens, .between⟩ := by
  cases text with
  | printed text => exact scan_printString text tokens
  | spelled pieces =>
      have hopen : Lexer.step ⟨tokens, .between⟩ 0x22 = ⟨tokens, .string {}⟩ := rfl
      obtain ⟨hpieces, hplain⟩ := @foldl_step_pieces {} tokens rfl pieces
      rw [bytes, List.foldl_cons, hopen, List.foldl_append, hpieces, List.foldl_cons,
        step_closingQuote hplain]
      rfl

end LogicTree.Json
