import Mathlib.Tactic.IntervalCases
import LogicTree.Toml.Text
import LogicTree.Toml.Writer

/-! # Strings in settings documents

Whatever form a string is written in, it is read back at its opening quotes, and reading goes on
behind its closing ones. Within a line the form has no quote of its sort that is not escaped. Over
lines quotes may stand alone or in twos; those at the end join the three that close the string, and
reading hands them back.
-/

namespace LogicTree.Toml

/-! ## Characters -/

theorem char_of_toNat_lt {c : Char} {bound : Nat} (h : c.toNat < bound) :
    ∃ n < bound, c = Char.ofNat n :=
  ⟨c.toNat, h, (Char.ofNat_toNat c).symm⟩

theorem isControl_iff {c : Char} :
    isControl c = true ↔ (c.toNat < 32 ∧ c ≠ '\t' ∧ c ≠ '\n') ∨ c = '\x7f' := by
  simp [isControl, Char.lt_def, UInt32.lt_iff_toNat_lt, and_assoc]

theorem hexChar?_of_isControl {c : Char} (control : isControl c = true) :
    hexChar? ['0', '0', hexCapital (c.toNat / 16), hexCapital (c.toNat % 16)] = some c := by
  obtain ⟨low, -⟩ | rfl := isControl_iff.1 control
  · obtain ⟨n, bound, rfl⟩ := char_of_toNat_lt low
    interval_cases n <;> rfl
  · rfl

theorem isPlain_of_not_isControl {c : Char} (control : isControl c = false) (line : c ≠ '\n') :
    isPlain c = true := by
  have control : ¬ ((c.toNat < 32 ∧ c ≠ '\t' ∧ c ≠ '\n') ∨ c = '\x7f') := by
    rw [← isControl_iff, control]
    decide
  by_cases tab : c = '\t'
  · simp [isPlain, tab]
  · have printable : '\x20' ≤ c := by
      rw [Char.le_def, UInt32.le_iff_toNat_le]
      by_contra low
      exact control (.inl ⟨Nat.not_le.1 low, tab, line⟩)
    simp only [isPlain, Bool.or_eq_true, Bool.and_eq_true, decide_eq_true_eq, bne_iff_ne]
    exact .inr ⟨printable, fun last => control (.inr last)⟩

theorem escapedForm_cases (c : Char) :
    (isPlain c = true ∧ c ≠ '\\' ∧ escapedForm c = [c]) ∨ c = '\n' ∨
      (∃ letter, escapedChar? letter = some c ∧ escapedForm c = ['\\', letter]) ∨
      ∃ a b, hexChar? ['0', '0', a, b] = some c ∧ escapedForm c = ['\\', 'u', '0', '0', a, b] := by
  unfold escapedForm
  split
  · exact .inr (.inr (.inl ⟨'b', rfl, rfl⟩))
  · exact .inr (.inr (.inl ⟨'t', rfl, rfl⟩))
  · exact .inr (.inr (.inl ⟨'f', rfl, rfl⟩))
  · exact .inr (.inr (.inl ⟨'r', rfl, rfl⟩))
  · exact .inr (.inr (.inl ⟨'\\', rfl, rfl⟩))
  next backslash =>
    split
    next control => exact .inr (.inr (.inr ⟨_, _, hexChar?_of_isControl control, rfl⟩))
    next control =>
      by_cases line : c = '\n'
      · exact .inr (.inl line)
      · exact .inl ⟨isPlain_of_not_isControl (by simpa using control) line, backslash, rfl⟩

/-! ## Escapes -/

/-- Reading a string in double quotes: escapes are undone, and plain characters are kept. -/
structure Unescapes (read : List Char → TextResult) : Prop where
  letter : ∀ {letter c rest}, escapedChar? letter = some c →
    read ('\\' :: letter :: rest) = consResult c (read rest)
  unit : ∀ {a b c rest}, hexChar? ['0', '0', a, b] = some c →
    read ('\\' :: 'u' :: '0' :: '0' :: a :: b :: rest) = consResult c (read rest)
  plain : ∀ {c rest}, isPlain c = true → c ≠ '\x22' → c ≠ '\\' →
    read (c :: rest) = consResult c (read rest)

theorem Unescapes.escapedForm {read : List Char → TextResult} (unescapes : Unescapes read)
    {c : Char} (quote : c ≠ '\x22') (line : c ≠ '\n') (rest : List Char) :
    read (escapedForm c ++ rest) = consResult c (read rest) := by
  obtain ⟨plain, backslash, form⟩ | rfl | ⟨letter, escaped, form⟩ | ⟨a, b, unit, form⟩ :=
    escapedForm_cases c
  · rw [form]
    exact unescapes.plain plain quote backslash
  · exact absurd rfl line
  · rw [form]
    exact unescapes.letter escaped
  · rw [form]
    exact unescapes.unit unit

theorem escapedChar?_ne_unit {letter c : Char} (escaped : escapedChar? letter = some c) :
    letter ≠ 'u' ∧ letter ≠ 'U' := by
  constructor
  · rintro rfl
    cases escaped
  · rintro rfl
    cases escaped

theorem unescapes_basicText : Unescapes basicText := by
  constructor
  case letter =>
    intro letter c rest escaped
    obtain ⟨small, capital⟩ := escapedChar?_ne_unit escaped
    rw [basicText]
    · simp only [escaped]
    · exact fun _ _ _ _ _ unit => absurd unit small
    · exact fun _ _ _ _ _ _ _ _ _ unit => absurd unit capital
  case unit =>
    intro a b c rest unit
    rw [basicText]
    simp only [unit]
  case plain =>
    intro c rest plain quote backslash
    rw [basicText.eq_def]
    split <;> simp_all

theorem unescapes_multilineText : Unescapes (multilineText false) := by
  constructor
  case letter =>
    intro letter c rest escaped
    obtain ⟨small, capital⟩ := escapedChar?_ne_unit escaped
    rw [multilineText]
    · simp only [escaped]
    · exact fun _ _ _ _ _ unit => absurd unit small
    · exact fun _ _ _ _ _ _ _ _ _ unit => absurd unit capital
  case unit =>
    intro a b c rest unit
    rw [multilineText]
    simp only [unit]
  case plain =>
    intro c rest plain quote backslash
    rw [multilineText.eq_def]
    split <;> simp_all [isPlain]

/-! ## Strings within a line -/

theorem basicText_basicChars (text rest : List Char) :
    basicText (basicChars text ++ '\x22' :: rest) = some (text, rest) := by
  induction text with
  | nil => rw [basicChars, List.nil_append, basicText]
  | cons c text ih =>
      have kept : basicText (basicChars (c :: text) ++ '\x22' :: rest) =
          consResult c (basicText (basicChars text ++ '\x22' :: rest)) := by
        by_cases quote : c = '\x22'
        · subst quote
          exact unescapes_basicText.letter rfl
        by_cases line : c = '\n'
        · subst line
          exact unescapes_basicText.letter rfl
        rw [basicChars, List.append_assoc]
        · exact unescapes_basicText.escapedForm quote line _
        · exact quote
        · exact line
      rw [kept, ih]
      rfl

theorem literalText_append {text : List Char}
    (plain : ∀ c ∈ text, isPlain c = true ∧ c ≠ '\x27') (rest : List Char) :
    literalText (text ++ '\x27' :: rest) = some (text, rest) := by
  induction text with
  | nil => rw [List.nil_append, literalText]
  | cons c text ih =>
      obtain ⟨first, others⟩ := List.forall_mem_cons.1 plain
      rw [List.cons_append, literalText, if_pos first.1, ih others]
      · rfl
      · exact first.2

/-! ## Quotes at the end of a string over lines -/

/-- The number of quotes that a text starts with. -/
def lead (quote : Char) (text : List Char) : Nat :=
  (text.takeWhile (· == quote)).length

section quotes

variable {quote : Char} {text rest : List Char}

theorem lead_cons_self : lead quote (quote :: text) = lead quote text + 1 := by
  simp [lead]

theorem lead_cons_of_ne {c : Char} (other : c ≠ quote) : lead quote (c :: text) = 0 := by
  simp [lead, other]

theorem closing?_of_lead (few : lead quote text ≤ 2) : closing? quote text = none := by
  have few : (text.takeWhile (· == quote)).length < 3 := Nat.lt_succ_of_le few
  simp only [closing?, few, if_true]

/-- The three quotes that close a string, and what comes behind them. -/
def closed (quote : Char) (rest : List Char) : List Char :=
  quote :: quote :: quote :: '\n' :: rest

theorem closing?_replicate {k : Nat} (line : quote ≠ '\n') (few : k ≤ 2) :
    closing? quote (List.replicate k quote ++ closed quote rest) =
      some (List.replicate k quote, '\n' :: rest) := by
  have other : ('\n' == quote) = false := by simpa using line.symm
  interval_cases k <;> simp [closing?, closed, other]

end quotes

/-! ## Strings over lines in double quotes -/

section multiline

variable {text rest : List Char}

theorem multilineText_line :
    multilineText false ('\n' :: rest) = consResult '\n' (multilineText false rest) := by
  rw [multilineText] <;> simp

theorem multilineText_closing {result : List Char × List Char}
    (closes : closing? '\x22' ('\x22' :: rest) = some result) :
    multilineText false ('\x22' :: rest) = some result := by
  rw [multilineText] <;> simp [closes]

theorem multilineText_quote (few : lead '\x22' ('\x22' :: rest) ≤ 2) :
    multilineText false ('\x22' :: rest) = consResult '\x22' (multilineText false rest) := by
  rw [multilineText] <;> simp [closing?_of_lead few]

theorem escapedForm_head {c : Char} (quote : c ≠ '\x22') (line : c ≠ '\n') (chars : List Char) :
    ∃ first others, escapedForm c ++ chars = first :: others ∧
      first ≠ '\x22' ∧ first ≠ '\n' ∧ first ≠ '\r' := by
  obtain ⟨plain, -, form⟩ | rfl | ⟨letter, -, form⟩ | ⟨a, b, -, form⟩ := escapedForm_cases c
  · refine ⟨c, chars, by rw [form]; rfl, quote, line, ?_⟩
    rintro rfl
    cases plain
  · exact absurd rfl line
  · exact ⟨'\\', letter :: chars, by rw [form]; rfl, by decide, by decide, by decide⟩
  · exact ⟨'\\', _, by rw [form]; rfl, by decide, by decide, by decide⟩

/-- Of the quotes that a string goes on with, after `run` others, either there are no more than two
    in all, or the rest of the string is nothing else. -/
theorem multilineChars_lead {run : Nat} (few : run ≤ 2) (text rest : List Char) :
    (∃ k, run + k ≤ 2 ∧ text = List.replicate k '\x22') ∨
      run + lead '\x22' (multilineChars run text ++ closed '\x22' rest) ≤ 2 := by
  induction text generalizing run with
  | nil => exact .inl ⟨0, few, rfl⟩
  | cons c text ih =>
      by_cases quote : c = '\x22'
      · subst quote
        by_cases room : run < 2
        · have more : run + 1 ≤ 2 := room
          obtain ⟨k, bound, rfl⟩ | bound := ih more
          · exact .inl ⟨k + 1, by omega, rfl⟩
          · right
            simp only [multilineChars, room, beq_self_eq_true, if_true, List.cons_append, lead_cons_self]
            omega
        · right
          simp only [multilineChars, room, beq_self_eq_true, if_true, if_false, List.cons_append]
          rw [lead_cons_of_ne (by decide)]
          exact few
      · right
        by_cases line : c = '\n'
        · subst line
          simpa [multilineChars, lead] using few
        · obtain ⟨first, others, form, other, -⟩ := escapedForm_head quote line
            (multilineChars 0 text ++ closed '\x22' rest)
          simp only [multilineChars, quote, line, beq_iff_eq, if_false, List.append_assoc, form]
          rw [lead_cons_of_ne other]
          exact few

theorem multilineChars_replicate {run k : Nat} (few : run + k ≤ 2) :
    multilineChars run (List.replicate k '\x22') = List.replicate k '\x22' := by
  induction k generalizing run with
  | zero => rfl
  | succ k ih =>
      have room : run < 2 := by omega
      simp only [List.replicate_succ, multilineChars, room, beq_self_eq_true, if_true]
      rw [ih (by omega)]

/-- Reading stops at the first of the quotes that the string ends in, and at no quote before. -/
theorem multilineText_multilineChars (run : Nat) (text rest : List Char) :
    multilineText false (multilineChars run text ++ closed '\x22' rest) =
      some (text, '\n' :: rest) := by
  induction text generalizing run with
  | nil => exact multilineText_closing (closing?_replicate (k := 0) (by decide) (by decide))
  | cons c text ih =>
      by_cases quote : c = '\x22'
      · subst quote
        by_cases room : run < 2
        · simp only [multilineChars, room, beq_self_eq_true, if_true, List.cons_append]
          have more : run + 1 ≤ 2 := room
          obtain ⟨k, few, rfl⟩ | few := multilineChars_lead more text rest
          · rw [multilineChars_replicate few]
            exact multilineText_closing (closing?_replicate (k := k + 1) (by decide) (by omega))
          · rw [multilineText_quote (by rw [lead_cons_self]; omega), ih]
            rfl
        · simp only [multilineChars, room, beq_self_eq_true, if_true, if_false, List.cons_append]
          rw [unescapes_multilineText.letter rfl, ih]
          rfl
      by_cases line : c = '\n'
      · subst line
        simp only [multilineChars, quote, beq_iff_eq, if_false, if_true, List.cons_append]
        rw [multilineText_line, ih]
        rfl
      · simp only [multilineChars, quote, line, beq_iff_eq, if_false, List.append_assoc]
        rw [unescapes_multilineText.escapedForm quote line, ih]
        rfl

end multiline

/-! ## Strings over lines in single quotes -/

section literal

variable {text rest : List Char}

theorem multilineLiteralText_closing {result : List Char × List Char}
    (closes : closing? '\x27' ('\x27' :: rest) = some result) :
    multilineLiteralText ('\x27' :: rest) = some result := by
  rw [multilineLiteralText] <;> simp [closes]

theorem multilineLiteralText_quote (few : lead '\x27' ('\x27' :: rest) ≤ 2) :
    multilineLiteralText ('\x27' :: rest) = consResult '\x27' (multilineLiteralText rest) := by
  rw [multilineLiteralText] <;> simp [closing?_of_lead few]

theorem multilineLiteralText_cons {c : Char} (quote : c ≠ '\x27') (control : isControl c = false) :
    multilineLiteralText (c :: rest) = consResult c (multilineLiteralText rest) := by
  have kept : isPlain c = true ∨ c = '\n' := by
    by_cases line : c = '\n'
    · exact .inr line
    · exact .inl (isPlain_of_not_isControl control line)
  rw [multilineLiteralText]
  · simp [quote, kept]
  · rintro others rfl
    cases control

theorem longestRun_lead {run : Nat} (few : longestRun '\x27' run text ≤ 2) (rest : List Char) :
    (∃ k, run + k ≤ 2 ∧ text = List.replicate k '\x27') ∨
      run + lead '\x27' (text ++ closed '\x27' rest) ≤ 2 := by
  induction text generalizing run with
  | nil => exact .inl ⟨0, few, rfl⟩
  | cons c text ih =>
      by_cases quote : c = '\x27'
      · subst quote
        simp only [longestRun, beq_self_eq_true, if_true] at few
        obtain ⟨k, bound, rfl⟩ | bound := ih few
        · exact .inl ⟨k + 1, by omega, rfl⟩
        · right
          rw [List.cons_append, lead_cons_self]
          omega
      · right
        simp only [longestRun, beq_iff_eq, quote, if_false] at few
        rw [List.cons_append, lead_cons_of_ne quote]
        omega

theorem multilineLiteralText_append {run : Nat} (few : longestRun '\x27' run text ≤ 2)
    (control : ∀ c ∈ text, isControl c = false) (rest : List Char) :
    multilineLiteralText (text ++ closed '\x27' rest) = some (text, '\n' :: rest) := by
  induction text generalizing run with
  | nil => exact multilineLiteralText_closing (closing?_replicate (k := 0) (by decide) (by decide))
  | cons c text ih =>
      obtain ⟨first, others⟩ := List.forall_mem_cons.1 control
      by_cases quote : c = '\x27'
      · subst quote
        simp only [longestRun, beq_self_eq_true, if_true] at few
        obtain ⟨k, bound, rfl⟩ | bound := longestRun_lead few rest
        · exact multilineLiteralText_closing
            (closing?_replicate (k := k + 1) (by decide) (by omega))
        · rw [List.cons_append, multilineLiteralText_quote (by rw [lead_cons_self]; omega),
            ih few others]
          rfl
      · simp only [longestRun, beq_iff_eq, quote, if_false] at few
        have fewer : longestRun '\x27' 0 text ≤ 2 := by omega
        rw [List.cons_append, multilineLiteralText_cons quote first, ih fewer others]
        rfl

end literal

/-! ## Strings of any form -/

theorem dropLineEnd_of_ne {c : Char} {rest : List Char} (line : c ≠ '\n') (back : c ≠ '\r') :
    dropLineEnd (c :: rest) = c :: rest := by
  unfold dropLineEnd
  split <;> simp_all

theorem dropLineEnd_multilineChars (text rest : List Char) :
    dropLineEnd ((if text.contains '\n' then ['\n'] else []) ++
        (multilineChars 0 text ++ closed '\x22' rest)) =
      multilineChars 0 text ++ closed '\x22' rest := by
  by_cases some : text.contains '\n' = true
  · rw [if_pos some]
    rfl
  rw [if_neg some]
  cases text with
  | nil => rfl
  | cons c text =>
      have line : c ≠ '\n' := by
        rintro rfl
        simp at some
      by_cases quote : c = '\x22'
      · subst quote
        rfl
      · obtain ⟨first, others, form, -, line', back⟩ := escapedForm_head quote line
          (multilineChars 0 text ++ closed '\x22' rest)
        simp only [multilineChars, quote, line, beq_iff_eq, if_false, List.append_assoc, form]
        exact dropLineEnd_of_ne line' back

theorem dropLineEnd_literal {text : List Char} (control : ∀ c ∈ text, isControl c = false)
    (rest : List Char) :
    dropLineEnd ((if text.contains '\n' then ['\n'] else []) ++ (text ++ closed '\x27' rest)) =
      text ++ closed '\x27' rest := by
  by_cases some : text.contains '\n' = true
  · rw [if_pos some]
    rfl
  rw [if_neg some]
  cases text with
  | nil => rfl
  | cons c text =>
      have first := control c List.mem_cons_self
      refine dropLineEnd_of_ne ?_ ?_
      · rintro rfl
        simp at some
      · rintro rfl
        cases first

/-- What a form asks of the strings that are written in it. -/
def TextForm.Fits (text : List Char) : TextForm → Prop
  | .basic | .multilineBasic => True
  | .literal => ∀ c ∈ text, isPlain c = true ∧ c ≠ '\x27'
  | .multilineLiteral =>
      (∀ c ∈ text, isControl c = false) ∧ longestRun '\x27' 0 text ≤ 2

theorem TextForm.fits_ofChars (text : List Char) : (ofChars text).Fits text := by
  unfold ofChars
  simp only
  split_ifs with _ literal _ multiline
  · trivial
  · simp only [Bool.and_eq_true, Bool.not_eq_true', List.any_eq_false, List.contains_eq_mem, decide_eq_false_iff_not] at literal
    obtain ⟨⟨quote, line⟩, control⟩ := literal
    intro c member
    refine ⟨isPlain_of_not_isControl (by simpa using control c member) ?_, ?_⟩
    · rintro rfl
      exact line member
    · rintro rfl
      exact quote member
  · trivial
  · simp only [Bool.and_eq_true, Bool.not_eq_true', List.any_eq_false, decide_eq_true_eq] at multiline
    exact ⟨fun c member => by simpa using multiline.1 c member, multiline.2⟩
  · trivial
  · trivial

theorem basicChars_head (text rest : List Char) :
    ∃ first others, basicChars text ++ '\x22' :: '\n' :: rest = first :: others ∧
      (first ≠ '\x22' ∨ others.head? = some '\n') := by
  cases text with
  | nil => exact ⟨'\x22', '\n' :: rest, rfl, .inr rfl⟩
  | cons c text =>
      by_cases quote : c = '\x22'
      · subst quote
        exact ⟨'\\', _, rfl, .inl (by decide)⟩
      by_cases line : c = '\n'
      · subst line
        exact ⟨'\\', _, rfl, .inl (by decide)⟩
      obtain ⟨first, others, form, other, -⟩ := escapedForm_head quote line
        (basicChars text ++ '\x22' :: '\n' :: rest)
      refine ⟨first, others, ?_, .inl other⟩
      rw [basicChars, List.append_assoc]
      · exact form
      · exact quote
      · exact line

theorem quotedText_basic (text rest : List Char) :
    quotedText ('\x22' :: (basicChars text ++ '\x22' :: '\n' :: rest)) =
      some (text, '\n' :: rest) := by
  rw [← basicText_basicChars text ('\n' :: rest)]
  obtain ⟨first, others, chars, alone⟩ := basicChars_head text rest
  rw [chars, quotedText]
  intro more opening
  cases opening
  simp at alone

theorem quotedText_literal {text : List Char}
    (plain : ∀ c ∈ text, isPlain c = true ∧ c ≠ '\x27') (rest : List Char) :
    quotedText ('\x27' :: (text ++ '\x27' :: '\n' :: rest)) = some (text, '\n' :: rest) := by
  rw [← literalText_append plain ('\n' :: rest)]
  cases text with
  | nil => rfl
  | cons c text =>
      rw [List.cons_append, quotedText]
      intro more opening
      obtain ⟨rfl, -⟩ := List.cons.inj opening
      exact absurd rfl (plain _ List.mem_cons_self).2

theorem quotedText_writeText (text rest : List Char) :
    quotedText (writeText text ++ '\n' :: rest) = some (text, '\n' :: rest) := by
  have fits := TextForm.fits_ofChars text
  unfold writeText
  cases form : TextForm.ofChars text with
  | basic => simpa using quotedText_basic text rest
  | literal =>
      rw [form] at fits
      simpa using quotedText_literal fits rest
  | multilineBasic =>
      have inside := dropLineEnd_multilineChars text rest
      rw [← multilineText_multilineChars 0 text rest, ← inside]
      simp [quotedText, closed]
  | multilineLiteral =>
      rw [form] at fits
      obtain ⟨control, few⟩ := fits
      have inside := dropLineEnd_literal control rest
      rw [← multilineLiteralText_append few control rest, ← inside]
      simp [quotedText, closed]

end LogicTree.Toml
