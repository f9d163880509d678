import LogicTree.Decimal.Basic
import LogicTree.Json.Problem
import LogicTree.Json.Value

/-! # Tokens of a JSON document

The bytes of a document are cut into tokens by a machine that takes one byte at a time. The text of
a document can give out inside a token: then a last token says so, and nothing follows it. Some
faults are only seen by a reader who wants the value of the token, and not by one who passes over
it, so a break carries a fault for each of them.
-/

namespace LogicTree.Json

/-- A place at which the text of a document gives out. -/
structure Break where
  /-- The fault that a reader who wants the value meets. -/
  used : Fault
  /-- The fault that a reader who passes over the value meets. -/
  ignored : Fault
  /-- Whether the place lies inside a word or a number. -/
  bare : Bool := false
  deriving DecidableEq

/-- The break at bytes that are no part of any document. -/
def Break.malformed : Break := ⟨.malformed, .malformed, false⟩

/-- A token of a document. -/
inductive Token where
  | openArray
  | closeArray
  | openObject
  | closeObject
  | comma
  | colon
  | null
  | bool (value : Bool)
  /-- A number; `none` if it is too large for a double. -/
  | number (value : Option JsonNumber)
  /-- A string; `none` if it holds half of a surrogate pair or bytes that are not UTF-8. -/
  | string (text : Option String)
  /-- The text gives out here, in a string or elsewhere. -/
  | cut (inString : Bool) (place : Break)
  deriving DecidableEq

/-! ## Numbers -/

/-- How far a number has been read. -/
inductive NumberPhase where
  /-- After the minus sign. -/
  | sign
  /-- After a leading zero. -/
  | zero
  /-- In the digits before the point. -/
  | whole
  /-- After the point. -/
  | point
  /-- In the digits after the point. -/
  | fraction
  /-- After the letter of the exponent. -/
  | mark
  /-- After the sign of the exponent. -/
  | markSign
  /-- In the digits of the exponent. -/
  | exponent
  deriving DecidableEq

/-- What has been read of a number. -/
structure NumberScan where
  phase : NumberPhase
  negative : Bool
  /-- All digits before the exponent. -/
  digits : Nat
  /-- How many of them stand after the point. -/
  places : Nat := 0
  exponentNegative : Bool := false
  exponent : Nat := 0

/-- Whether a byte is a decimal digit. -/
def isDigit (byte : UInt8) : Bool :=
  decide (0x30 ≤ byte) && decide (byte ≤ 0x39)

/-- Appends a digit on the right of a number. -/
def pushDigit (n : Nat) (byte : UInt8) : Nat :=
  n * 10 + (byte.toNat - 0x30)

namespace NumberScan

/-- Whether the number can end here. -/
def isComplete (scan : NumberScan) : Bool :=
  match scan.phase with
  | .zero | .whole | .fraction | .exponent => true
  | .sign | .point | .mark | .markSign => false

/-- Reads on, at a byte that belongs to the number. Otherwise there is no answer: the number ends
before the byte, or the byte is wrong. -/
def next? (scan : NumberScan) (byte : UInt8) : Option NumberScan :=
  let isPoint := byte == 0x2e
  let isMark := byte == 0x65 || byte == 0x45
  match scan.phase with
  | .sign =>
      if byte == 0x30 then some { scan with phase := .zero }
      else if isDigit byte then some { scan with phase := .whole, digits := pushDigit 0 byte }
      else none
  | .zero =>
      if isPoint then some { scan with phase := .point }
      else if isMark then some { scan with phase := .mark }
      else none
  | .whole =>
      if isDigit byte then some { scan with digits := pushDigit scan.digits byte }
      else if isPoint then some { scan with phase := .point }
      else if isMark then some { scan with phase := .mark }
      else none
  | .point =>
      if isDigit byte then
        some { scan with phase := .fraction, digits := pushDigit scan.digits byte, places := 1 }
      else none
  | .fraction =>
      if isDigit byte then
        some { scan with digits := pushDigit scan.digits byte, places := scan.places + 1 }
      else if isMark then some { scan with phase := .mark }
      else none
  | .mark =>
      if isDigit byte then some { scan with phase := .exponent, exponent := pushDigit 0 byte }
      else if byte == 0x2b then some { scan with phase := .markSign }
      else if byte == 0x2d then some { scan with phase := .markSign, exponentNegative := true }
      else none
  | .markSign =>
      if isDigit byte then some { scan with phase := .exponent, exponent := pushDigit 0 byte }
      else none
  | .exponent =>
      if isDigit byte then some { scan with exponent := pushDigit scan.exponent byte }
      else none

/-- Whether a byte that does not belong to the number makes it malformed. A digit after a leading
zero does. -/
def isSpoiltBy (scan : NumberScan) (byte : UInt8) : Bool :=
  !scan.isComplete || (scan.phase == .zero && isDigit byte)

/-- The number as a double, if it is not too large. -/
def real? (scan : NumberScan) : Option JsonNumber :=
  let exponent : Int := if scan.exponentNegative then -scan.exponent else scan.exponent
  JsonNumber.ofFloat? (Decimal.toSignedFloat scan.negative ⟨scan.digits, exponent - scan.places⟩)

/-- The number read. Digits alone are an integer while they fit in 64 bits; negative zero is a
double. -/
def value? (scan : NumberScan) : Option JsonNumber :=
  match scan.phase with
  | .zero | .whole =>
      if scan.negative then
        if scan.digits = 0 then scan.real?
        else (JsonNumber.ofInt? (-scan.digits)).or scan.real?
      else (JsonNumber.ofInt? scan.digits).or scan.real?
  | _ => scan.real?

/-- Whether the exponent read so far is beyond 31 bits and makes the number too large. -/
def isOverlarge (scan : NumberScan) : Bool :=
  scan.digits != 0 && !scan.exponentNegative && decide (scan.exponent ≥ 2147483648)

/-- The token that stands for a number at which the bytes of a document end. -/
def lastToken (scan : NumberScan) : Fault → Token
  | .interrupted reason =>
      .cut false ⟨if scan.isOverlarge then .malformed else .interrupted reason,
        .interrupted reason, true⟩
  | fault =>
      if scan.isComplete then .number scan.value? else .cut false ⟨fault, .malformed, true⟩

end NumberScan

/-! ## Strings -/

/-- How far a string has been read. -/
inductive StringPhase where
  | plain
  /-- After a backslash. -/
  | escape
  /-- In the digits of an escape, the latest first. -/
  | hex (digits : Bytes)
  deriving DecidableEq

/-- What has been read of a string. -/
structure StringScan where
  phase : StringPhase := .plain
  /-- The bytes so far, the latest first. -/
  bytes : Bytes := []
  /-- The first half of a surrogate pair that waits for the second. -/
  lead : Option Nat := none
  /-- Whether a half of a surrogate pair stands alone. -/
  spoilt : Bool := false

/-- The value of a hexadecimal digit. -/
def hexValue? (byte : UInt8) : Option Nat :=
  if 0x30 ≤ byte ∧ byte ≤ 0x39 then some (byte.toNat - 0x30)
  else if 0x41 ≤ byte ∧ byte ≤ 0x46 then some (byte.toNat - 0x37)
  else if 0x61 ≤ byte ∧ byte ≤ 0x66 then some (byte.toNat - 0x57)
  else none

/-- The number of four hexadecimal digits. -/
def hexQuad? (a b c d : UInt8) : Option Nat := do
  let a ← hexValue? a
  let b ← hexValue? b
  let c ← hexValue? c
  let d ← hexValue? d
  return ((a * 16 + b) * 16 + c) * 16 + d

/-- The byte that a letter after a backslash stands for. -/
def escapedByte? (letter : UInt8) : Option UInt8 :=
  match letter with
  | 0x22 => some 0x22
  | 0x5c => some 0x5c
  | 0x2f => some 0x2f
  | 0x62 => some 0x08
  | 0x66 => some 0x0c
  | 0x6e => some 0x0a
  | 0x72 => some 0x0d
  | 0x74 => some 0x09
  | _ => none

/-- What a byte does to a string. -/
inductive StringStep where
  | more (scan : StringScan)
  | closed (text : Option String)
  | malformed

namespace StringScan

/-- Puts a character behind the bytes so far. -/
def pushChar (scan : StringScan) (code : Nat) : StringScan :=
  { scan with bytes := (String.utf8EncodeChar (Char.ofNat code)).reverse ++ scan.bytes }

/-- Takes in the number of an escape: a character, or a half of a surrogate pair. -/
def pushUnit (scan : StringScan) (unit : Nat) : StringScan :=
  let scan := { scan with phase := .plain }
  let isTrail := decide (0xdc00 ≤ unit ∧ unit ≤ 0xdfff)
  match scan.lead with
  | some lead =>
      let scan := { scan with lead := none }
      if isTrail then scan.pushChar (0x10000 + (lead - 0xd800) * 0x400 + (unit - 0xdc00))
      else { scan with spoilt := true }
  | none =>
      if isTrail then { scan with spoilt := true }
      else if 0xd800 ≤ unit ∧ unit ≤ 0xdbff then { scan with lead := some unit }
      else scan.pushChar unit

/-- Gives up waiting for the second half of a surrogate pair. -/
def forgetLead (scan : StringScan) : StringScan :=
  if scan.lead.isSome then { scan with lead := none, spoilt := true } else scan

/-- Takes in a byte. -/
def step (scan : StringScan) (byte : UInt8) : StringStep :=
  match scan.phase with
  | .plain =>
      if byte == 0x5c then .more { scan with phase := .escape }
      else
        let scan := scan.forgetLead
        if byte == 0x22 then
          .closed (if scan.spoilt then none else Bytes.toString? scan.bytes.reverse)
        else if byte < 0x20 then .malformed
        else .more { scan with bytes := byte :: scan.bytes }
  | .escape =>
      if byte == 0x75 then .more { scan with phase := .hex [] }
      else
        let scan := scan.forgetLead
        match escapedByte? byte with
        | some escaped => .more { scan with phase := .plain, bytes := escaped :: scan.bytes }
        | none => .malformed
  | .hex [c, b, a] =>
      match hexQuad? a b c byte with
      | some unit => .more (scan.pushUnit unit)
      | none => .malformed
  | .hex digits => .more { scan with phase := .hex (byte :: digits) }

end StringScan

/-! ## The machine -/

/-- The token that is being read. -/
inductive Lexeme where
  /-- None. -/
  | between
  /-- A word, of which these bytes are still to come. -/
  | word (left : Bytes) (token : Token)
  | number (scan : NumberScan)
  | string (scan : StringScan)
  /-- Nothing is read any more: the text has given out. -/
  | over

/-- The tokens read, the latest first, and the token that is being read. -/
structure Lexer where
  tokens : List Token := []
  lexeme : Lexeme := .between

namespace Lexer

/-- Notes that the text gives out at a byte. -/
def fail (lexer : Lexer) (inString : Bool) : Lexer :=
  ⟨.cut inString .malformed :: lexer.tokens, .over⟩

/-- Takes in a byte between tokens. -/
def start (tokens : List Token) (byte : UInt8) : Lexer :=
  match byte with
  | 0x20 | 0x09 | 0x0a | 0x0d => ⟨tokens, .between⟩
  | 0x5b => ⟨.openArray :: tokens, .between⟩
  | 0x5d => ⟨.closeArray :: tokens, .between⟩
  | 0x7b => ⟨.openObject :: tokens, .between⟩
  | 0x7d => ⟨.closeObject :: tokens, .between⟩
  | 0x2c => ⟨.comma :: tokens, .between⟩
  | 0x3a => ⟨.colon :: tokens, .between⟩
  | 0x22 => ⟨tokens, .string {}⟩
  | 0x6e => ⟨tokens, .word [0x75, 0x6c, 0x6c] .null⟩
  | 0x74 => ⟨tokens, .word [0x72, 0x75, 0x65] (.bool true)⟩
  | 0x66 => ⟨tokens, .word [0x61, 0x6c, 0x73, 0x65] (.bool false)⟩
  | 0x2d => ⟨tokens, .number ⟨.sign, true, 0, 0, false, 0⟩⟩
  | 0x30 => ⟨tokens, .number ⟨.zero, false, 0, 0, false, 0⟩⟩
  | byte =>
      if isDigit byte then ⟨tokens, .number ⟨.whole, false, pushDigit 0 byte, 0, false, 0⟩⟩
      else ⟨.cut false .malformed :: tokens, .over⟩

/-- Takes in a byte. -/
def step (lexer : Lexer) (byte : UInt8) : Lexer :=
  match lexer.lexeme with
  | .between => start lexer.tokens byte
  | .word [] _ => lexer.fail false
  | .word [last] token =>
      if byte == last then ⟨token :: lexer.tokens, .between⟩ else lexer.fail false
  | .word (first :: left) token =>
      if byte == first then ⟨lexer.tokens, .word left token⟩ else lexer.fail false
  | .number scan =>
      match scan.next? byte with
      | some scan => ⟨lexer.tokens, .number scan⟩
      | none =>
          if scan.isSpoiltBy byte then lexer.fail false
          else start (.number scan.value? :: lexer.tokens) byte
  | .string scan =>
      match scan.step byte with
      | .more scan => ⟨lexer.tokens, .string scan⟩
      | .closed text => ⟨.string text :: lexer.tokens, .between⟩
      | .malformed => lexer.fail true
  | .over => lexer

/-- The tokens, in order, when the bytes end with a fault. -/
def finish (lexer : Lexer) (ending : Fault) : List Token :=
  match lexer.lexeme with
  | .between | .over => lexer.tokens.reverse
  | .word _ _ => (.cut false ⟨ending, ending, true⟩ :: lexer.tokens).reverse
  | .number scan => (scan.lastToken ending :: lexer.tokens).reverse
  | .string scan =>
      (.cut true ⟨if scan.spoilt then .malformed else ending, ending, false⟩ ::
        lexer.tokens).reverse

end Lexer

/-- The tokens of a document whose bytes end with a fault, were more of them wanted. -/
def tokens (bytes : Bytes) (ending : Fault) : List Token :=
  (bytes.foldl Lexer.step {}).finish ending

end LogicTree.Json
