import Mathlib
import LogicTree.Text.Numeral

/-! # Digits of numbers

The decimal digits of a number are read back as the number, by labels and by documents.
Only zero starts with the digit zero, so digits that start with another one are the
digits of their value. A numeral may have zeros before them, and a plus sign in front.
-/

namespace LogicTree.Text

theorem foldl_pushDigit (digits : List Char) (n : Nat) :
    digits.foldl pushDigit n = Nat.ofDigitChars 10 digits n := by
  rw [Nat.ofDigitChars_eq_foldl]
  simp only [Nat.mul_comm 10]
  rfl

theorem isDigit_toDigits {n : Nat} {c : Char} (hc : c ∈ Nat.toDigits 10 n) : c.isDigit :=
  Nat.isDigit_of_mem_toDigits (by decide) (by decide) hc

@[simp] theorem digitsValue?_toDigits (n : Nat) :
    digitsValue? (Nat.toDigits 10 n) = some n := by
  have hall : (Nat.toDigits 10 n).all Char.isDigit = true :=
    List.all_eq_true.2 fun c hc => isDigit_toDigits hc
  rw [digitsValue?, if_neg (by simp [hall, Nat.toDigits_ne_nil]), foldl_pushDigit,
    Nat.ofDigitChars_ten_toDigits]

@[simp] theorem natural?_toDigits (n : Nat) : natural? (Nat.toDigits 10 n) = some n := by
  cases hdigits : Nat.toDigits 10 n with
  | nil => exact absurd hdigits Nat.toDigits_ne_nil
  | cons c rest =>
      have hdigit : c.isDigit := isDigit_toDigits (n := n) (by simp [hdigits])
      have hplus : c ≠ '+' := by
        rintro rfl
        exact absurd hdigit (by decide)
      rw [natural?]
      · rw [← hdigits, digitsValue?_toDigits]
      · simpa using hplus

theorem toDigits_injective : Function.Injective (Nat.toDigits 10) := by
  intro m n h
  have hvalues := natural?_toDigits m
  rw [h, natural?_toDigits] at hvalues
  exact (Option.some.inj hvalues).symm

theorem digitChar_ne_zero : ∀ d < 10, d ≠ 0 → Nat.digitChar d ≠ '0' := by decide

theorem toDigits_head_ne_zero {n : Nat} (h : n ≠ 0) : (Nat.toDigits 10 n).head? ≠ some '0' := by
  induction n using Nat.strongRecOn with
  | ind n ih =>
      by_cases hsmall : n < 10
      · rw [Nat.toDigits_of_lt_base hsmall]
        simpa using digitChar_ne_zero n hsmall h
      · have hquotient : n / 10 ≠ 0 := by omega
        rw [Nat.toDigits_of_base_le (by decide) (by omega),
          List.head?_append_of_ne_nil _ Nat.toDigits_ne_nil]
        exact ih (n / 10) (by omega) hquotient

theorem digitChar_sub : ∀ d < 10, Nat.digitChar d = Char.ofNat (48 + d) := by decide

theorem digitChar_of_isDigit {c : Char} (digit : c.isDigit = true) :
    c.toNat - '0'.toNat < 10 ∧ Nat.digitChar (c.toNat - '0'.toNat) = c := by
  obtain ⟨least, most⟩ := Char.isDigit_iff_toNat.1 digit
  change 48 ≤ c.toNat at least
  change c.toNat ≤ 57 at most
  change c.toNat - 48 < 10 ∧ Nat.digitChar (c.toNat - 48) = c
  have small : c.toNat - 48 < 10 := by omega
  refine ⟨small, ?_⟩
  rw [digitChar_sub _ small, Nat.add_sub_cancel' least, Char.ofNat_toNat]

theorem toDigits_ofDigitChars {digits : List Char} (decimal : ∀ c ∈ digits, c.isDigit = true)
    (nonempty : digits ≠ []) (head : digits.head? ≠ some '0') :
    Nat.toDigits 10 (Nat.ofDigitChars 10 digits 0) = digits := by
  -- The last digit is the remainder. The others start with no zero, so their value is not zero.
  induction digits using List.reverseRecOn with
  | nil => exact absurd rfl nonempty
  | append_singleton digits c ih =>
      obtain ⟨small, char⟩ := digitChar_of_isDigit (decimal c (by simp))
      have last : Nat.toDigits 10 (c.toNat - '0'.toNat) = [c] := by
        rw [Nat.toDigits_of_lt_base small, char]
      rw [Nat.ofDigitChars_append, Nat.ofDigitChars_cons, Nat.ofDigitChars_nil]
      by_cases alone : digits = []
      · subst alone
        simpa using last
      · rw [List.head?_append_of_ne_nil _ alone] at head
        have before := ih (fun c hc => decimal c (List.mem_append_left _ hc)) alone head
        have positive : 0 < Nat.ofDigitChars 10 digits 0 := by
          rw [Nat.pos_iff_ne_zero]
          intro zero
          rw [zero] at before
          rw [← before] at head
          exact head rfl
        rw [← Nat.toDigits_append_toDigits (by decide) positive small, before, last]

/-! ## Numerals -/

/-- Decimal digits, at least one, and the value that they have. -/
structure IsDigits (digits : List Char) (value : Nat) : Prop where
  nonempty : digits ≠ []
  decimal : ∀ c ∈ digits, c.isDigit = true
  valued : Nat.ofDigitChars 10 digits 0 = value

/-- A numeral of a value: digits of it, on their own or behind a plus sign. -/
inductive IsNumeral : List Char → Nat → Prop where
  | plain {digits : List Char} {value : Nat} (h : IsDigits digits value) : IsNumeral digits value
  | signed {digits : List Char} {value : Nat} (h : IsDigits digits value) :
      IsNumeral ('+' :: digits) value

theorem digitsValue?_eq_some_iff {digits : List Char} {value : Nat} :
    digitsValue? digits = some value ↔ IsDigits digits value := by
  rw [digitsValue?, foldl_pushDigit]
  constructor
  · intro h
    split at h
    · cases h
    · next test =>
        simp only [Bool.or_eq_true, List.isEmpty_iff, Bool.not_eq_true', not_or,
          Bool.not_eq_false, List.all_eq_true] at test
        exact ⟨test.1, test.2, Option.some.inj h⟩
  · rintro ⟨nonempty, decimal, rfl⟩
    have all : digits.all Char.isDigit = true := List.all_eq_true.2 decimal
    simp [nonempty, all]

theorem IsDigits.not_signed {digits : List Char} {value : Nat} :
    ¬ IsDigits ('+' :: digits) value := fun h => by
  have := h.decimal '+' List.mem_cons_self
  cases this

theorem natural?_eq_some_iff {text : List Char} {value : Nat} :
    natural? text = some value ↔ IsNumeral text value := by
  constructor
  · intro h
    unfold natural? at h
    split at h
    · exact .signed (digitsValue?_eq_some_iff.1 h)
    · exact .plain (digitsValue?_eq_some_iff.1 h)
  · rintro (digits | digits)
    · rw [natural?]
      · exact digitsValue?_eq_some_iff.2 digits
      · rintro rest rfl
        exact digits.not_signed
    · exact digitsValue?_eq_some_iff.2 digits

theorem IsNumeral.ne_nil {text : List Char} {value : Nat} (h : IsNumeral text value) :
    text ≠ [] := by
  cases h with
  | plain digits => exact digits.nonempty
  | signed digits => exact List.cons_ne_nil _ _

theorem IsNumeral.underscore_notMem {text : List Char} {value : Nat} (h : IsNumeral text value) :
    '_' ∉ text := by
  have notDigit : ∀ {digits value}, IsDigits digits value → '_' ∉ digits :=
    fun digits member => by cases digits.decimal _ member
  cases h with
  | plain digits => exact notDigit digits
  | signed digits =>
      intro member
      rcases List.mem_cons.1 member with same | member
      · cases same
      · exact notDigit digits member

end LogicTree.Text
