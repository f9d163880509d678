import LogicTree.Proofs.Json.Numerals
import LogicTree.Toml.Reader

/-! # Numbers in settings documents

An integer is written as its digits, and a double as a numeral with a point and without an exponent.
The word that such a number makes is cut out as a whole, it is no moment, and it is read as the
number that was written.
-/

namespace LogicTree.Toml

open Float.Model Float.Model.UnpackedFloat Float64 Json NumberScan

/-! ## Digits -/

/-- The number of a decimal digit. -/
def digitOf (c : Char) : Nat := c.toNat - 48

section digits

variable {c : Char} {cs : List Char}

theorem digit?_of_isDigit (digit : c.isDigit = true) : Base.decimal.digit? c = some (digitOf c) := by
  have range := toNat_of_isDigit digit
  have small : c.toNat - 48 < 10 := by omega
  simp only [Base.digit?, digit, if_true, Base.size, small]
  rfl

theorem digits?_of_isDigit (digits : ∀ c ∈ cs, c.isDigit = true) (nonempty : cs ≠ []) :
    digits? .decimal cs = some (cs.map digitOf) := by
  induction cs with
  | nil => exact absurd rfl nonempty
  | cons c cs ih =>
      obtain ⟨first, others⟩ := List.forall_mem_cons.1 digits
      cases cs with
      | nil =>
          rw [digits?, digit?_of_isDigit first]
          rfl
      | cons d ds =>
          have joined : d ≠ '_' := by
            rintro rfl
            exact absurd (others _ List.mem_cons_self) (by decide)
          rw [digits?, digit?_of_isDigit first, ih others (by simp)]
          · rfl
          · simp
          · intro rest joint
            exact joined (List.cons.inj joint).1

theorem digits?_eq_none_of_mem {base : Base} (other : base.digit? c = none) (joint : c ≠ '_')
    (member : c ∈ cs) : digits? base cs = none := by
  fun_induction digits? base cs with
  | case1 => cases member
  | case2 d =>
      obtain rfl : c = d := by simpa using member
      rw [other]
      rfl
  | case3 d rest ih =>
      simp only [List.mem_cons] at member
      obtain rfl | rfl | member := member
      · simp [other]
      · exact absurd rfl joint
      · simp [ih member]
  | case4 d rest _ _ ih =>
      obtain rfl | member := List.mem_cons.1 member
      · simp [other]
      · simp [ih member]

end digits

/-! ## The word of a number -/

/-- Digits with a point among them or without, from a digit on. -/
structure IsUnsigned (cs : List Char) : Prop where
  chars : ∀ c ∈ cs, c.isDigit = true ∨ c = '.'
  head : ∃ c rest, cs = c :: rest ∧ c.isDigit = true

/-- A number with a minus sign or without one. -/
def signed (negative : Bool) (cs : List Char) : List Char :=
  (if negative then ['-'] else []) ++ cs

section word

variable {negative : Bool} {cs : List Char}

theorem IsUnsigned.not_mem {c : Char} (number : IsUnsigned cs) (digit : c.isDigit = false)
    (point : c ≠ '.') : c ∉ cs := by
  intro member
  obtain digit' | point' := number.chars c member
  · rw [digit] at digit'
    cases digit'
  · exact point point'

theorem isScalarChar_of_mem_signed (negative : Bool) (number : IsUnsigned cs) :
    ∀ c ∈ signed negative cs, isScalarChar c = true := by
  intro c member
  obtain sign | member := List.mem_append.1 member
  · cases negative with
    | false => cases sign
    | true =>
        obtain rfl := List.mem_singleton.1 sign
        rfl
  · obtain digit | rfl := number.chars c member
    · simp [isScalarChar, Char.isAlphanum, digit]
    · rfl

theorem cutScalar_append {word : List Char} (chars : ∀ c ∈ word, isScalarChar c = true)
    (rest : List Char) :
    cutScalar (word ++ '\n' :: rest) = (word, '\n' :: rest) := by
  have cut : (word ++ '\n' :: rest).takeWhile isScalarChar = word := by
    rw [List.takeWhile_append_of_pos chars, List.takeWhile_cons_of_neg (by decide), List.append_nil]
  have left : (word ++ '\n' :: rest).dropWhile isScalarChar = '\n' :: rest := by
    rw [List.dropWhile_append_of_pos chars, List.dropWhile_cons_of_neg (by decide)]
  rw [cutScalar, cut, left]
  rfl

theorem takeSign_signed (number : IsUnsigned cs) :
    takeSign (signed negative cs) = (negative, cs) := by
  obtain ⟨c, rest, rfl, digit⟩ := number.head
  cases negative with
  | true => rfl
  | false =>
      rw [signed, if_neg (by decide), List.nil_append, takeSign]
      · rintro others minus
        rw [(List.cons.inj minus).1] at digit
        cases digit
      · rintro others plus
        rw [(List.cons.inj plus).1] at digit
        cases digit

theorem tail_signed (negative : Bool) (number : IsUnsigned cs) :
    ∀ c ∈ (signed negative cs).tail, c.isDigit = true ∨ c = '.' := by
  intro c member
  cases negative with
  | false => exact number.chars c (List.mem_of_mem_tail member)
  | true => exact number.chars c member

theorem isMoment_eq_false {word : List Char} (chars : ∀ c ∈ word.tail, c.isDigit = true ∨ c = '.') :
    isMoment word = false := by
  have noTime : isTime word = false := by
    unfold isTime
    split
    next h1 h2 m1 m2 s1 s2 fraction =>
      have colon := chars ':' (by simp)
      simp at colon
    · rfl
  have noDate : isDate word = false := by
    unfold isDate
    split
    next y1 y2 y3 y4 m1 m2 d1 d2 =>
      have hyphen := chars '-' (by simp)
      simp at hyphen
    · rfl
  unfold isMoment
  rw [noTime, Bool.false_or]
  split
  · exact noDate
  next separator time dropped =>
    have inside : separator ∈ word.tail := by
      apply List.mem_of_mem_drop (i := 9)
      rw [List.drop_tail, dropped]
      exact List.mem_cons_self
    have other : (separator == 'T' || separator == 't' || separator == ' ') = false := by
      obtain digit | rfl := chars separator inside
      · by_contra letter
        simp only [Bool.not_eq_false, Bool.or_eq_true, beq_iff_eq] at letter
        obtain (rfl | rfl) | rfl := letter <;> cases digit
      · rfl
    rw [other]
    rfl

theorem scalar?_signed (number : IsUnsigned cs) :
    scalar? (signed negative cs) = (integer? (signed negative cs)).or (real? (signed negative cs)) := by
  have letter : ∀ c, c.isDigit = false → c ≠ '.' → c ≠ '-' → c ∉ signed negative cs := by
    intro c digit point minus member
    obtain sign | member := List.mem_append.1 member
    · cases negative with
      | false => cases sign
      | true => exact minus (List.mem_singleton.1 sign)
    · exact number.not_mem digit point member
  have noTrue : (signed negative cs == ['t', 'r', 'u', 'e']) = false := by
    rw [beq_eq_false_iff_ne]
    intro same
    exact letter 'e' rfl (by decide) (by decide) (same ▸ by decide)
  have noFalse : (signed negative cs == ['f', 'a', 'l', 's', 'e']) = false := by
    rw [beq_eq_false_iff_ne]
    intro same
    exact letter 'e' rfl (by decide) (by decide) (same ▸ by decide)
  rw [scalar?, noTrue, noFalse, isMoment_eq_false (tail_signed negative number)]
  rfl

theorem integer?_signed (number : IsUnsigned cs) :
    integer? (signed negative cs) = (wholeDigits? cs).bind fun digits =>
      let value : Int := ofDigits .decimal digits
      ofInteger? (if negative then -value else value) := by
  have inBase : ∀ letter rest, letter.isDigit = false → letter ≠ '.' →
      signed negative cs ≠ '0' :: letter :: rest := by
    intro letter rest digit point same
    obtain digit' | point' := tail_signed negative number letter (by simp [same])
    · rw [digit] at digit'
      cases digit'
    · exact point point'
  unfold integer?
  simp only
  split
  next same => exact absurd same (inBase _ _ rfl (by decide))
  next same => exact absurd same (inBase _ _ rfl (by decide))
  next same => exact absurd same (inBase _ _ rfl (by decide))
  · rw [takeSign_signed number]
    rfl

end word

/-! ## Integers -/

theorem isUnsigned_toDigits (n : Nat) : IsUnsigned (Nat.toDigits 10 n) := by
  obtain ⟨c, rest, chars, digit⟩ := (isWhole_toDigits n).head []
  rw [List.append_nil] at chars
  exact ⟨fun c member => .inl (Text.isDigit_toDigits member), c, rest, chars, digit⟩

theorem wholeDigits?_of_isWhole {cs : List Char} (whole : IsWhole cs) :
    wholeDigits? cs = some (cs.map digitOf) := by
  obtain ⟨digits, nonempty, zero⟩ := whole
  rw [wholeDigits?, digits?_of_isDigit digits nonempty]
  simp only [Option.bind_eq_bind, Option.bind_some]
  split
  next d ds same =>
    obtain ⟨c, rest, rfl, first, others⟩ := List.map_eq_cons_iff.1 same
    have range := toNat_of_isDigit (digits c List.mem_cons_self)
    have least : c = '0' := by
      apply Char.toNat_inj.1
      change c.toNat = 48
      change c.toNat - 48 = 0 at first
      omega
    subst least
    obtain rfl : rest = [] := by simpa using zero rfl
    cases others
  · rfl

theorem ofDigits_map_digitOf (cs : List Char) :
    ofDigits .decimal (cs.map digitOf) = Nat.ofDigitChars 10 cs 0 := by
  rw [ofDigits, List.foldl_map, ← Text.foldl_pushDigit]
  rfl

theorem scalar?_toDigits {n : Nat} (fits : n < 9223372036854775808) :
    scalar? (Nat.toDigits 10 n) = some (.integer n) := by
  have number := isUnsigned_toDigits n
  have read : integer? (signed false (Nat.toDigits 10 n)) = some (.integer n) := by
    rw [integer?_signed number, wholeDigits?_of_isWhole (isWhole_toDigits n), Option.bind_some,
      ofDigits_map_digitOf, Nat.ofDigitChars_ten_toDigits]
    change ofInteger? n = _
    rw [ofInteger?, if_pos ⟨by omega, by omega⟩]
  have word : signed false (Nat.toDigits 10 n) = Nat.toDigits 10 n := rfl
  rw [← word, scalar?_signed number, read, Option.some_or]

/-! ## Doubles -/

section split

variable {test : Char → Bool} {before after : List Char}

theorem splitAt?_eq_none (without : ∀ c ∈ before, test c = false) :
    splitAt? test before = (before, none) := by
  have nothing : (before.dropWhile fun c => !test c) = [] := by
    rw [List.dropWhile_eq_nil_iff]
    intro c member
    rw [without c member]
    rfl
  rw [splitAt?, nothing]

theorem splitAt?_append {c : Char} (without : ∀ c ∈ before, test c = false) (passes : test c = true) :
    splitAt? test (before ++ c :: after) = (before, some after) := by
  have kept : ∀ c ∈ before, (!test c) = true := by
    intro c member
    rw [without c member]
    rfl
  rw [splitAt?, List.dropWhile_append_of_pos kept, List.dropWhile_cons_of_neg (by simp [passes]),
    List.takeWhile_append_of_pos kept, List.takeWhile_cons_of_neg (by simp [passes]),
    List.append_nil]

end split

section real

variable {negative : Bool} {whole fraction : List Char}

theorem isUnsigned_pointed (isWhole : IsWhole whole) (digits : ∀ c ∈ fraction, c.isDigit = true) :
    IsUnsigned (whole ++ '.' :: fraction) := by
  refine ⟨?_, isWhole.head _⟩
  intro c member
  simp only [List.mem_append, List.mem_cons] at member
  obtain first | rfl | last := member
  · exact .inl (isWhole.1 c first)
  · exact .inr rfl
  · exact .inl (digits c last)

theorem real?_pointed (isWhole : IsWhole whole) (digits : ∀ c ∈ fraction, c.isDigit = true)
    (nonempty : fraction ≠ []) {value : Float}
    (decimal : Decimal.toSignedFloat negative
      ⟨Nat.ofDigitChars 10 (whole ++ fraction) 0, 0 - fraction.length⟩ = value)
    (small : (value == 1.0 / 0.0) = false) :
    real? (signed negative (whole ++ '.' :: fraction)) = some (.real value) := by
  have number := isUnsigned_pointed isWhole digits
  have noInfinity : (whole ++ '.' :: fraction == ['i', 'n', 'f']) = false := by
    rw [beq_eq_false_iff_ne]
    intro same
    exact number.not_mem (c := 'i') rfl (by decide) (same ▸ by decide)
  have noNumber : (whole ++ '.' :: fraction == ['n', 'a', 'n']) = false := by
    rw [beq_eq_false_iff_ne]
    intro same
    exact number.not_mem (c := 'n') rfl (by decide) (same ▸ by decide)
  have noExponent : ∀ c ∈ whole ++ '.' :: fraction, (c == 'e' || c == 'E') = false := by
    intro c member
    by_contra letter
    simp only [Bool.not_eq_false, Bool.or_eq_true, beq_iff_eq] at letter
    obtain rfl | rfl := letter
    · exact number.not_mem rfl (by decide) member
    · exact number.not_mem rfl (by decide) member
  have noPoint : ∀ c ∈ whole, (c == '.') = false := by
    intro c member
    rw [beq_eq_false_iff_ne]
    rintro rfl
    exact absurd (isWhole.1 _ member) (by decide)
  unfold real?
  rw [takeSign_signed number]
  simp only [noInfinity, noNumber, splitAt?_eq_none noExponent, splitAt?_append noPoint (beq_self_eq_true '.'),
    wholeDigits?_of_isWhole isWhole, digits?_of_isDigit digits nonempty]
  have spelt : Decimal.toSignedFloat negative
      ⟨ofDigits .decimal (whole.map digitOf ++ fraction.map digitOf),
        0 - (fraction.map digitOf).length⟩ = value := by
    rw [← List.map_append, ofDigits_map_digitOf, List.length_map, decimal]
  change (if (Decimal.toSignedFloat negative _ == 1.0 / 0.0) = true then none
    else some (Value.real (Decimal.toSignedFloat negative _))) = _
  rw [spelt, if_neg (by simp [small])]

end real

theorem not_infinity_of_isFinite {value : Float} (finite : value.isFinite = true) :
    (value == 1.0 / 0.0) = false := by
  have finite : (parts value).isFinite = true := finite
  rw [Bool.eq_false_iff]
  intro same
  have same : UnpackedFloat.compare (parts value) (.infinity .positive) = some .eq :=
    beq_iff_eq.1 same
  cases hparts : parts value with
  | notANumber | infinity =>
      rw [hparts] at finite
      cases finite
  | zero =>
      rw [hparts] at same
      cases same
  | finite s =>
      rw [hparts] at same
      cases s <;> cases same

/-- The value of a double that has been written: all that are no number become the same. -/
def readBack (value : Float) : Float :=
  if value.isNaN then 0.0 / 0.0 else value

theorem eq_infinity {value : Float} (number : value.isNaN = false) (infinite : value.isFinite = false) :
    value = if isNegative value then -(1.0 / 0.0) else 1.0 / 0.0 := by
  have infinite : (parts value).isFinite = false := infinite
  obtain ⟨s, sign⟩ := isNumber_iff_sign?.1 (not_isNaN_iff.1 number)
  have negative := isNegative_iff sign
  apply parts_injective
  cases hparts : parts value with
  | notANumber =>
      rw [hparts] at sign
      cases sign
  | zero | finite =>
      rw [hparts] at infinite
      cases infinite
  | infinity t =>
      rw [hparts] at sign
      cases sign
      cases s <;> simp [negative] <;> rfl

theorem settings_cases (value : Float) :
    (∃ whole fraction, IsWhole whole ∧ (∀ c ∈ fraction, c.isDigit = true) ∧
        NumberLayout.settings.chars value =
          signed (isNegative value) (whole ++ '.' :: fraction) ∧
        real? (signed (isNegative value) (whole ++ '.' :: fraction)) = some (.real value) ∧
        value.isNaN = false) ∨
      (NumberLayout.settings.chars value = ['n', 'a', 'n'] ∧ value.isNaN = true) ∨
      (NumberLayout.settings.chars value = ['i', 'n', 'f'] ∧ value = 1.0 / 0.0) ∨
      (NumberLayout.settings.chars value = ['-', 'i', 'n', 'f'] ∧ value = -(1.0 / 0.0)) := by
  unfold NumberLayout.chars
  split
  next notANumber => exact .inr (.inl ⟨rfl, notANumber⟩)
  next number =>
    have number : value.isNaN = false := by simpa using number
    simp only
    split
    next finite =>
      obtain ⟨⟨whole, fraction, exponent⟩, real, rfl, text, same⟩ :=
        Numeral.positional (Decimal.shortest_exponent_of_zero .away finite)
      have nonempty : fraction ≠ [] := real.marked.resolve_right (not_not_intro rfl)
      have layout : NumberLayout.settings.decimalText (Decimal.shortest .away value) =
          whole ++ '.' :: fraction := by
        calc
          NumberLayout.settings.decimalText (Decimal.shortest .away value)
              = (⟨whole, fraction, none⟩ : Numeral).chars := text
          _ = whole ++ '.' :: fraction := by
            simp [Numeral.chars, Numeral.pointed, Numeral.marked, nonempty]
      refine .inl ⟨whole, fraction, real.whole, real.fraction, ?_, ?_, number⟩
      · rw [← layout]
        rfl
      · exact real?_pointed real.whole real.fraction nonempty
          (Decimal.toSignedFloat_of_value finite same) (not_infinity_of_isFinite finite)
    next infinite =>
      have same := eq_infinity number (by simpa using infinite)
      by_cases negative : isNegative value = true
      · rw [if_pos negative] at same ⊢
        exact .inr (.inr (.inr ⟨rfl, same⟩))
      · rw [if_neg negative] at same ⊢
        exact .inr (.inr (.inl ⟨rfl, same⟩))

theorem scalar?_settings (value : Float) :
    scalar? (NumberLayout.settings.chars value) = some (.real (readBack value)) := by
  obtain ⟨whole, fraction, isWhole, digits, chars, read, number⟩ | ⟨chars, notANumber⟩ |
    ⟨chars, rfl⟩ | ⟨chars, rfl⟩ := settings_cases value
  · have pointed := isUnsigned_pointed isWhole digits
    have noInteger : wholeDigits? (whole ++ '.' :: fraction) = none := by
      rw [wholeDigits?, digits?_eq_none_of_mem (c := '.') rfl (by decide) (by simp)]
      rfl
    rw [chars, scalar?_signed pointed, integer?_signed pointed, read, noInteger, readBack, number]
    rfl
  · rw [chars, readBack, notANumber]
    rfl
  · rw [chars]
    rfl
  · rw [chars]
    rfl

theorem isScalarChar_of_mem_settings (value : Float) :
    ∀ c ∈ NumberLayout.settings.chars value, isScalarChar c = true := by
  obtain ⟨whole, fraction, isWhole, digits, chars, -⟩ | ⟨chars, -⟩ | ⟨chars, -⟩ | ⟨chars, -⟩ :=
    settings_cases value
  · rw [chars]
    exact isScalarChar_of_mem_signed _ (isUnsigned_pointed isWhole digits)
  · rw [chars]
    exact List.all_eq_true.1 rfl
  · rw [chars]
    exact List.all_eq_true.1 rfl
  · rw [chars]
    exact List.all_eq_true.1 rfl

end LogicTree.Toml
