import LogicTree.Json.Printer
import LogicTree.Json.Token
import LogicTree.Proofs.Digits
import LogicTree.Proofs.Decimal.Shortest

/-! # Numbers in documents

A number is written as a numeral: digits, perhaps a point and more digits, perhaps an
exponent. Scanning a numeral byte by byte gathers its digits, the places behind its point
and its exponent, so a number is scanned as the value that was written.
-/

namespace LogicTree.Json

/-- The bytes of characters below 128. -/
def charBytes (chars : List Char) : Bytes :=
  chars.map fun c => c.toNat.toUInt8

@[simp] theorem charBytes_append (as bs : List Char) :
    charBytes (as ++ bs) = charBytes as ++ charBytes bs :=
  List.map_append

@[simp] theorem charBytes_cons (c : Char) (cs : List Char) :
    charBytes (c :: cs) = c.toNat.toUInt8 :: charBytes cs := rfl

/-! ## Digits -/

variable {c : Char}

theorem toNat_of_isDigit (h : c.isDigit = true) : 48 ≤ c.toNat ∧ c.toNat ≤ 57 := by
  simp only [Char.isDigit, Bool.and_eq_true, decide_eq_true_eq, ge_iff_le,
    UInt32.le_iff_toNat_le] at h
  exact h

theorem toNat_digitByte (h : c.isDigit = true) : c.toNat.toUInt8.toNat = c.toNat := by
  have := toNat_of_isDigit h
  simp only [Nat.toUInt8, UInt8.toNat_ofNat']
  omega

theorem isDigit_digitByte (h : c.isDigit = true) : isDigit c.toNat.toUInt8 = true := by
  have hrange := toNat_of_isDigit h
  have hbyte := toNat_digitByte h
  simp only [isDigit, Bool.and_eq_true, decide_eq_true_eq, UInt8.le_iff_toNat_le, hbyte]
  exact hrange

theorem pushDigit_digitByte (h : c.isDigit = true) (n : Nat) (cs : List Char) :
    Nat.ofDigitChars 10 cs (pushDigit n c.toNat.toUInt8) = Nat.ofDigitChars 10 (c :: cs) n := by
  rw [Nat.ofDigitChars_cons, pushDigit, toNat_digitByte h, Nat.mul_comm]
  rfl

namespace NumberScan

variable {scan : NumberScan} {cs : List Char}

/-- Reads bytes that all belong to the number. -/
def run (scan : NumberScan) (bytes : Bytes) : Option NumberScan :=
  bytes.foldlM next? scan

theorem run_cons {next : NumberScan} {byte : UInt8} (h : scan.next? byte = some next)
    (bytes : Bytes) : scan.run (byte :: bytes) = next.run bytes := by
  rw [run, List.foldlM_cons, h]
  rfl

theorem run_append (scan : NumberScan) (as bs : Bytes) :
    scan.run (as ++ bs) = (scan.run as).bind fun scan => scan.run bs :=
  List.foldlM_append

theorem run_whole (hphase : scan.phase = .whole) (hdigits : ∀ c ∈ cs, c.isDigit = true) :
    scan.run (charBytes cs) = some { scan with digits := Nat.ofDigitChars 10 cs scan.digits } := by
  induction cs generalizing scan with
  | nil => rfl
  | cons c cs ih =>
      obtain ⟨hc, hcs⟩ := List.forall_mem_cons.1 hdigits
      have hnext : scan.next? c.toNat.toUInt8 =
          some { scan with digits := pushDigit scan.digits c.toNat.toUInt8 } := by
        simp [next?, hphase, isDigit_digitByte hc]
      rw [charBytes_cons, run_cons hnext,
        @ih { scan with digits := pushDigit scan.digits c.toNat.toUInt8 } hphase hcs,
        pushDigit_digitByte hc]

theorem run_fraction (hphase : scan.phase = .fraction) (hdigits : ∀ c ∈ cs, c.isDigit = true) :
    scan.run (charBytes cs) =
      some { scan with
        digits := Nat.ofDigitChars 10 cs scan.digits, places := scan.places + cs.length } := by
  induction cs generalizing scan with
  | nil => rfl
  | cons c cs ih =>
      obtain ⟨hc, hcs⟩ := List.forall_mem_cons.1 hdigits
      have hnext : scan.next? c.toNat.toUInt8 =
          some { scan with
            digits := pushDigit scan.digits c.toNat.toUInt8, places := scan.places + 1 } := by
        simp [next?, hphase, isDigit_digitByte hc]
      rw [charBytes_cons, run_cons hnext,
        @ih { scan with
          digits := pushDigit scan.digits c.toNat.toUInt8, places := scan.places + 1 } hphase hcs,
        pushDigit_digitByte hc, List.length_cons, Nat.add_assoc, Nat.add_comm 1]

theorem run_exponent (hphase : scan.phase = .exponent) (hdigits : ∀ c ∈ cs, c.isDigit = true) :
    scan.run (charBytes cs) =
      some { scan with exponent := Nat.ofDigitChars 10 cs scan.exponent } := by
  induction cs generalizing scan with
  | nil => rfl
  | cons c cs ih =>
      obtain ⟨hc, hcs⟩ := List.forall_mem_cons.1 hdigits
      have hnext : scan.next? c.toNat.toUInt8 =
          some { scan with exponent := pushDigit scan.exponent c.toNat.toUInt8 } := by
        simp [next?, hphase, isDigit_digitByte hc]
      rw [charBytes_cons, run_cons hnext,
        @ih { scan with exponent := pushDigit scan.exponent c.toNat.toUInt8 } hphase hcs,
        pushDigit_digitByte hc]

/-- The scan of a number of which at most the sign has been read. -/
def begun (negative : Bool) : NumberScan := ⟨.sign, negative, 0, 0, false, 0⟩

/-- Digits that may stand before a point: a zero alone, or any that do not start with
    zero. -/
def IsWhole (cs : List Char) : Prop :=
  (∀ c ∈ cs, c.isDigit = true) ∧ cs ≠ [] ∧ (cs.head? = some '0' → cs = ['0'])

/-- After the digits before a point, the scan is at a zero or among other digits. -/
def atWhole (negative : Bool) (cs : List Char) : NumberScan :=
  ⟨if cs = ['0'] then .zero else .whole, negative, Nat.ofDigitChars 10 cs 0, 0, false, 0⟩

theorem run_begun (negative : Bool) (hwhole : IsWhole cs) :
    (begun negative).run (charBytes cs) = some (atWhole negative cs) := by
  obtain ⟨hdigits, nonempty, hzero⟩ := hwhole
  cases cs with
  | nil => exact absurd rfl nonempty
  | cons c cs =>
      by_cases hc : c = '0'
      · obtain rfl : cs = [] := by simpa [hc] using hzero
        subst hc
        rfl
      · obtain ⟨hdigit, hrest⟩ := List.forall_mem_cons.1 hdigits
        have hbyte : (c.toNat.toUInt8 == 0x30) = false := by
          rw [beq_eq_false_iff_ne]
          intro heq
          have hnat : c.toNat = 48 := by
            rw [← toNat_digitByte hdigit, heq]
            rfl
          exact hc (Char.toNat_inj.1 hnat)
        have hnext : (begun negative).next? c.toNat.toUInt8 =
            some { begun negative with phase := .whole, digits := pushDigit 0 c.toNat.toUInt8 } := by
          simp [next?, begun, hbyte, isDigit_digitByte hdigit]
        rw [charBytes_cons, run_cons hnext, run_whole rfl hrest, pushDigit_digitByte hdigit]
        simp [atWhole, begun, hc]

end NumberScan

/-! ## Numerals -/

/-- A decimal as written: the digits before and behind the point, and the exponent. -/
structure Numeral where
  whole : List Char
  fraction : List Char
  exponent : Option Int

namespace Numeral

/-- The point and the digits behind it, if there are any. -/
def pointed (fraction : List Char) : List Char :=
  if fraction.isEmpty then [] else '.' :: fraction

/-- The exponent with its sign, if there is one. -/
def marked : Option Int → List Char
  | none => []
  | some e => 'e' :: (if e < 0 then '-' else '+') :: Nat.toDigits 10 e.natAbs

/-- The characters of a numeral. -/
def chars (numeral : Numeral) : List Char :=
  numeral.whole ++ pointed numeral.fraction ++ marked numeral.exponent

/-- The decimal that a numeral spells. -/
def decimal (numeral : Numeral) : Decimal :=
  ⟨Nat.ofDigitChars 10 (numeral.whole ++ numeral.fraction) 0,
    numeral.exponent.getD 0 - numeral.fraction.length⟩

/-- A numeral of a double: it has a point or an exponent. -/
structure IsReal (numeral : Numeral) : Prop where
  whole : NumberScan.IsWhole numeral.whole
  fraction : ∀ c ∈ numeral.fraction, c.isDigit = true
  marked : numeral.fraction ≠ [] ∨ numeral.exponent ≠ none

end Numeral

namespace NumberScan

open Numeral

variable {scan : NumberScan} {cs : List Char}

/-- Where the mantissa of a numeral has been read. -/
def atMantissa (negative : Bool) (whole fraction : List Char) : NumberScan :=
  if fraction.isEmpty then atWhole negative whole
  else ⟨.fraction, negative, Nat.ofDigitChars 10 (whole ++ fraction) 0, fraction.length, false, 0⟩

theorem phase_atWhole (negative : Bool) (whole : List Char) :
    (atWhole negative whole).phase = .zero ∨ (atWhole negative whole).phase = .whole := by
  unfold atWhole
  split
  · exact .inl rfl
  · exact .inr rfl

theorem run_pointed (negative : Bool) (whole : List Char) {fraction : List Char}
    (hdigits : ∀ c ∈ fraction, c.isDigit = true) :
    (atWhole negative whole).run (charBytes (pointed fraction)) =
      some (atMantissa negative whole fraction) := by
  cases fraction with
  | nil => rfl
  | cons c cs =>
      obtain ⟨hdigit, hrest⟩ := List.forall_mem_cons.1 hdigits
      let behind : NumberScan := { atWhole negative whole with phase := .point }
      let first : NumberScan :=
        { behind with
          phase := .fraction, digits := pushDigit behind.digits c.toNat.toUInt8, places := 1 }
      have hpoint : (atWhole negative whole).next? '.'.toNat.toUInt8 = some behind := by
        rcases phase_atWhole negative whole with hphase | hphase <;>
          simp [next?, hphase, isDigit, behind, Nat.toUInt8]
      have hfirst : behind.next? c.toNat.toUInt8 = some first := by
        simp [next?, behind, first, isDigit_digitByte hdigit]
      have hplaces : 1 + cs.length = (c :: cs).length := by
        rw [List.length_cons, Nat.add_comm]
      rw [pointed, if_neg (by simp), charBytes_cons, run_cons hpoint, charBytes_cons,
        run_cons hfirst, @run_fraction first cs rfl hrest, atMantissa, if_neg (by simp)]
      simp only [first, behind, atWhole, pushDigit_digitByte hdigit, hplaces,
        Nat.ofDigitChars_append]

theorem phase_atMantissa (negative : Bool) (whole fraction : List Char) :
    (atMantissa negative whole fraction).phase = .zero ∨
      (atMantissa negative whole fraction).phase = .whole ∨
        (atMantissa negative whole fraction).phase = .fraction := by
  unfold atMantissa
  split
  · exact (phase_atWhole negative whole).imp_right .inl
  · exact .inr (.inr rfl)

theorem run_exponentDigits (hphase : scan.phase = .mark ∨ scan.phase = .markSign)
    (nonempty : cs ≠ []) (hdigits : ∀ c ∈ cs, c.isDigit = true) :
    scan.run (charBytes cs) =
      some { scan with phase := .exponent, exponent := Nat.ofDigitChars 10 cs 0 } := by
  cases cs with
  | nil => exact absurd rfl nonempty
  | cons c cs =>
      obtain ⟨hc, hcs⟩ := List.forall_mem_cons.1 hdigits
      let first : NumberScan :=
        { scan with phase := .exponent, exponent := pushDigit 0 c.toNat.toUInt8 }
      have hfirst : scan.next? c.toNat.toUInt8 = some first := by
        rcases hphase with hphase | hphase <;> simp [next?, hphase, first, isDigit_digitByte hc]
      rw [charBytes_cons, run_cons hfirst, @run_exponent first cs rfl hcs]
      simp only [first, pushDigit_digitByte hc]

/-- Where the exponent of a numeral has been read. -/
def atExponent (scan : NumberScan) (e : Int) : NumberScan :=
  { scan with phase := .exponent, exponentNegative := decide (e < 0), exponent := e.natAbs }

theorem run_marked (hphase : scan.phase = .zero ∨ scan.phase = .whole ∨ scan.phase = .fraction)
    (hnegative : scan.exponentNegative = false) (e : Int) :
    scan.run (charBytes (marked (some e))) = some (scan.atExponent e) := by
  let letter : NumberScan := { scan with phase := .mark }
  let signed : NumberScan :=
    { scan with phase := .markSign, exponentNegative := decide (e < 0) }
  have hletter : scan.next? 'e'.toNat.toUInt8 = some letter := by
    rcases hphase with hphase | hphase | hphase <;>
      simp [next?, hphase, isDigit, letter, Nat.toUInt8]
  have hsigned : letter.next? (if e < 0 then '-' else '+').toNat.toUInt8 = some signed := by
    by_cases hneg : e < 0
    · simp [next?, letter, signed, hneg, isDigit, Nat.toUInt8]
    · simp [next?, letter, signed, hneg, hnegative, isDigit, Nat.toUInt8]
  have hdigits : signed.run (charBytes (Nat.toDigits 10 e.natAbs)) =
      some { signed with phase := .exponent, exponent := e.natAbs } := by
    rw [run_exponentDigits (.inr rfl) Nat.toDigits_ne_nil fun _ hc => Text.isDigit_toDigits hc,
      Nat.ofDigitChars_ten_toDigits]
  rw [marked, charBytes_cons, run_cons hletter, charBytes_cons, run_cons hsigned, hdigits]
  rfl

theorem run_chars (negative : Bool) {numeral : Numeral} (hreal : numeral.IsReal) :
    ∃ scan, (begun negative).run (charBytes numeral.chars) = some scan ∧
      scan.isComplete = true ∧
      scan.value? = JsonNumber.ofFloat? (Decimal.toSignedFloat negative numeral.decimal) := by
  obtain ⟨hwhole, hfraction, hmarked⟩ := hreal
  have hmantissa : (begun negative).run (charBytes (numeral.whole ++ pointed numeral.fraction)) =
      some (atMantissa negative numeral.whole numeral.fraction) := by
    rw [charBytes_append, run_append, run_begun negative hwhole]
    exact run_pointed negative numeral.whole hfraction
  rw [chars, charBytes_append, run_append, hmantissa]
  cases hexponent : numeral.exponent with
  | none =>
      have nonempty : numeral.fraction ≠ [] := hmarked.resolve_right (by simp [hexponent])
      refine ⟨_, rfl, ?_, ?_⟩
      · simp [atMantissa, nonempty, isComplete]
      · simp [atMantissa, nonempty, value?, real?, decimal, hexponent]
  | some e =>
      have hnegative : (atMantissa negative numeral.whole numeral.fraction).exponentNegative =
          false := by
        unfold atMantissa
        split <;> rfl
      refine ⟨_, run_marked (phase_atMantissa negative _ _) hnegative e, rfl, ?_⟩
      have hvalue : (if e < 0 then -(e.natAbs : Int) else e.natAbs) = e := by
        split <;> omega
      have hsame : (⟨(atMantissa negative numeral.whole numeral.fraction).digits,
          e - (atMantissa negative numeral.whole numeral.fraction).places⟩ : Decimal) =
            numeral.decimal := by
        unfold atMantissa
        split
        · next hempty =>
          simp [decimal, hexponent, atWhole, List.isEmpty_iff.1 hempty]
        · simp [decimal, hexponent]
      have hsign : (atMantissa negative numeral.whole numeral.fraction).negative = negative := by
        unfold atMantissa
        split <;> rfl
      simp only [atExponent, value?, real?, decide_eq_true_eq, hvalue, hsame, hsign]

end NumberScan

/-! ## The layout of documents -/

theorem isWhole_of_head {cs : List Char} (hdigits : ∀ c ∈ cs, c.isDigit = true)
    (nonempty : cs ≠ []) (hhead : cs.head? ≠ some '0') : NumberScan.IsWhole cs :=
  ⟨hdigits, nonempty, fun hzero => absurd hzero hhead⟩

theorem isWhole_zero : NumberScan.IsWhole ['0'] := by
  refine ⟨?_, by simp, fun _ => rfl⟩
  simp [Char.isDigit]

theorem isWhole_toDigits (n : Nat) : NumberScan.IsWhole (Nat.toDigits 10 n) := by
  by_cases h : n = 0
  · rw [h]
    exact isWhole_zero
  · exact isWhole_of_head (fun c hc => Text.isDigit_toDigits hc) Nat.toDigits_ne_nil
      (Text.toDigits_head_ne_zero h)

theorem isDigit_of_mem_zeros {c : Char} {n : Nat} (hc : c ∈ List.replicate n '0') :
    c.isDigit = true := by
  rw [List.eq_of_mem_replicate hc]
  decide

namespace Numeral

variable {d : Decimal}

/-- Where the first digit of a decimal stands. -/
def first (d : Decimal) : Int :=
  d.exponent + ((Nat.toDigits 10 d.digits).length : Int) - 1

theorem below_one (h : first d < 0) :
    ∃ numeral : Numeral, numeral.IsReal ∧ numeral.exponent = none ∧
      NumberLayout.positionalText true (Nat.toDigits 10 d.digits) (first d) = numeral.chars ∧
      numeral.decimal.value = d.value := by
  let fraction := List.replicate ((first d).natAbs - 1) '0' ++ Nat.toDigits 10 d.digits
  have nonempty : fraction ≠ [] := by
    intro hnil
    exact Nat.toDigits_ne_nil (List.append_eq_nil_iff.1 hnil).2
  have hdigits : Nat.ofDigitChars 10 (['0'] ++ fraction) 0 = d.digits := by
    rw [Nat.ofDigitChars_append, show Nat.ofDigitChars 10 ['0'] 0 = 0 from rfl,
      Nat.ofDigitChars_append, Nat.ofDigitChars_replicate_zero, Nat.mul_zero,
      Nat.ofDigitChars_ten_toDigits]
  have hplaces : (0 : Int) - (fraction.length : Int) = d.exponent := by
    simp only [fraction, first, List.length_append, List.length_replicate] at h ⊢
    omega
  refine ⟨⟨['0'], fraction, none⟩, ⟨isWhole_zero, ?_, .inl nonempty⟩, rfl, ?_, ?_⟩
  · intro c hc
    rcases List.mem_append.1 hc with hzero | hdigit
    · exact isDigit_of_mem_zeros hzero
    · exact Text.isDigit_toDigits hdigit
  · rw [NumberLayout.positionalText, if_pos h, chars, pointed, if_neg (by simpa using nonempty)]
    simp [marked, fraction]
  · have hsame : (⟨['0'], fraction, none⟩ : Numeral).decimal = d := by
      simp only [decimal, hdigits, Option.getD_none, hplaces]
    rw [hsame]

theorem whole_number (hzero : d.digits = 0 → d.exponent = 0) (h : ¬ first d < 0)
    (hfits : (Nat.toDigits 10 d.digits).length ≤ (first d).natAbs + 1) :
    ∃ numeral : Numeral, numeral.IsReal ∧ numeral.exponent = none ∧
      NumberLayout.positionalText true (Nat.toDigits 10 d.digits) (first d) = numeral.chars ∧
      numeral.decimal.value = d.value := by
  -- the digits fit before the point, so the exponent counts the places they leave open
  have hopen : (first d).natAbs + 1 - (Nat.toDigits 10 d.digits).length = d.exponent.natAbs := by
    simp only [first] at h hfits ⊢
    omega
  have hnonneg : 0 ≤ d.exponent := by
    simp only [first] at h hfits
    omega
  let whole := Nat.toDigits 10 d.digits ++ List.replicate d.exponent.natAbs '0'
  have hwhole : NumberScan.IsWhole whole := by
    by_cases hd : d.digits = 0
    · simp only [whole, hzero hd, Int.natAbs_zero, List.replicate_zero, List.append_nil]
      exact isWhole_toDigits d.digits
    · refine isWhole_of_head ?_ ?_ ?_
      · intro c hc
        rcases List.mem_append.1 hc with hdigit | hpad
        · exact Text.isDigit_toDigits hdigit
        · exact isDigit_of_mem_zeros hpad
      · exact fun hnil => Nat.toDigits_ne_nil (List.append_eq_nil_iff.1 hnil).1
      · rw [List.head?_append_of_ne_nil _ Nat.toDigits_ne_nil]
        exact Text.toDigits_head_ne_zero hd
  have hdigits : Nat.ofDigitChars 10 (whole ++ ['0']) 0 = 10 * (10 ^ d.exponent.natAbs * d.digits) := by
    rw [Nat.ofDigitChars_append, Nat.ofDigitChars_append, Nat.ofDigitChars_replicate_zero,
      Nat.ofDigitChars_ten_toDigits]
    rfl
  refine ⟨⟨whole, ['0'], none⟩, ⟨hwhole, by simp [Char.isDigit], .inl (by simp)⟩, rfl, ?_, ?_⟩
  · rw [NumberLayout.positionalText, if_neg h]
    simp only [if_pos hfits, hopen]
    simp [chars, pointed, marked, whole]
  · rw [decimal, Decimal.value, Decimal.value, Decimal.zpow_of_nonneg _ hnonneg]
    simp only [hdigits, Option.getD_none, List.length_singleton]
    push_cast
    rw [zpow_neg_one]
    ring

/-- A decimal whose point falls among its digits. -/
theorem split_digits (h : ¬ first d < 0)
    (hlong : ¬ (Nat.toDigits 10 d.digits).length ≤ (first d).natAbs + 1) :
    ∃ numeral : Numeral, numeral.IsReal ∧ numeral.exponent = none ∧
      NumberLayout.positionalText true (Nat.toDigits 10 d.digits) (first d) = numeral.chars ∧
      numeral.decimal.value = d.value := by
  let digits := Nat.toDigits 10 d.digits
  have hplaces : (0 : Int) - ((digits.drop ((first d).natAbs + 1)).length : Int) = d.exponent := by
    simp only [first, digits, List.length_drop] at h hlong ⊢
    omega
  have nonempty : digits.drop ((first d).natAbs + 1) ≠ [] := by
    simpa [digits] using hlong
  have hwhole : NumberScan.IsWhole (digits.take ((first d).natAbs + 1)) := by
    refine isWhole_of_head (fun c hc => Text.isDigit_toDigits (List.mem_of_mem_take hc)) ?_ ?_
    · simp [digits, Nat.toDigits_ne_nil]
    · rw [List.head?_take, if_neg (by omega)]
      apply Text.toDigits_head_ne_zero
      intro hd
      simp [hd, Nat.toDigits_zero] at hlong
  refine ⟨⟨digits.take ((first d).natAbs + 1), digits.drop ((first d).natAbs + 1), none⟩,
    ⟨hwhole, fun c hc => Text.isDigit_toDigits (List.mem_of_mem_drop hc), .inl nonempty⟩,
    rfl, ?_, ?_⟩
  · rw [NumberLayout.positionalText, if_neg h]
    simp only [if_neg hlong]
    rw [chars, pointed, if_neg (by simpa using nonempty)]
    simp [marked, digits]
  · have hsame : (⟨digits.take ((first d).natAbs + 1), digits.drop ((first d).natAbs + 1),
        none⟩ : Numeral).decimal = d := by
      simp only [decimal, List.take_append_drop, Option.getD_none, hplaces]
      simp only [digits, Nat.ofDigitChars_ten_toDigits]
    rw [hsame]

theorem positional (hzero : d.digits = 0 → d.exponent = 0) :
    ∃ numeral : Numeral, numeral.IsReal ∧ numeral.exponent = none ∧
      NumberLayout.positionalText true (Nat.toDigits 10 d.digits) (first d) = numeral.chars ∧
      numeral.decimal.value = d.value := by
  by_cases hbelow : first d < 0
  · exact below_one hbelow
  · by_cases hfits : (Nat.toDigits 10 d.digits).length ≤ (first d).natAbs + 1
    · exact whole_number hzero hbelow hfits
    · exact split_digits hbelow hfits

theorem scientific (hd : d.digits ≠ 0) :
    ∃ numeral : Numeral, numeral.IsReal ∧
      NumberLayout.scientificText (Nat.toDigits 10 d.digits) (first d) = numeral.chars ∧
      numeral.decimal.value = d.value := by
  let digits := Nat.toDigits 10 d.digits
  have hwhole : NumberScan.IsWhole (digits.take 1) := by
    refine isWhole_of_head (fun c hc => Text.isDigit_toDigits (List.mem_of_mem_take hc)) ?_ ?_
    · simp [digits, Nat.toDigits_ne_nil]
    · rw [List.head?_take, if_neg (by decide)]
      exact Text.toDigits_head_ne_zero hd
  have hlength : 0 < digits.length := List.length_pos_iff.2 Nat.toDigits_ne_nil
  have hplaces : first d - ((digits.drop 1).length : Int) = d.exponent := by
    simp only [first, digits, List.length_drop] at hlength ⊢
    omega
  refine ⟨⟨digits.take 1, digits.drop 1, some (first d)⟩,
    ⟨hwhole, fun c hc => Text.isDigit_toDigits (List.mem_of_mem_drop hc), .inr (by simp)⟩, ?_, ?_⟩
  · rw [NumberLayout.scientificText, chars, pointed, marked]
  · have hsame : (⟨digits.take 1, digits.drop 1, some (first d)⟩ : Numeral).decimal = d := by
      simp only [decimal, List.take_append_drop, Option.getD_some, hplaces]
      simp only [digits, Nat.ofDigitChars_ten_toDigits]
    rw [hsame]

/-- Documents write a decimal as a numeral of the same value. -/
theorem decimalText_document (hzero : d.digits = 0 → d.exponent = 0) :
    ∃ numeral : Numeral, numeral.IsReal ∧
      NumberLayout.document.decimalText d = numeral.chars ∧ numeral.decimal.value = d.value := by
  have htext : NumberLayout.document.decimalText d =
      if -5 ≤ first d ∧ first d ≤ 15 then
        NumberLayout.positionalText true (Nat.toDigits 10 d.digits) (first d)
      else NumberLayout.scientificText (Nat.toDigits 10 d.digits) (first d) := by
    simp only [NumberLayout.decimalText, NumberLayout.document, decide_eq_true_eq]
    rfl
  rw [htext]
  by_cases hpositional : -5 ≤ first d ∧ first d ≤ 15
  · rw [if_pos hpositional]
    obtain ⟨numeral, hreal, -, htext, hvalue⟩ := positional hzero
    exact ⟨numeral, hreal, htext, hvalue⟩
  · rw [if_neg hpositional]
    apply scientific
    intro hd
    apply hpositional
    simp [first, hd, hzero hd, Nat.toDigits_zero]

end Numeral

/-! ## Numbers as tokens -/

open NumberScan

variable {tokens : List Token}

theorem foldl_step_number {scan final : NumberScan} {bytes : Bytes}
    (h : scan.run bytes = some final) :
    bytes.foldl Lexer.step ⟨tokens, .number scan⟩ = ⟨tokens, .number final⟩ := by
  induction bytes generalizing scan with
  | nil =>
      obtain rfl : scan = final := Option.some.inj h
      rfl
  | cons byte bytes ih =>
      cases hnext : scan.next? byte with
      | none => simp [run, List.foldlM_cons, hnext] at h
      | some next =>
          rw [run_cons hnext] at h
          rw [List.foldl_cons, Lexer.step]
          simp only [hnext]
          exact ih h

theorem start_digit {byte : UInt8} (h : isDigit byte = true) :
    ∃ scan, (begun false).next? byte = some scan ∧
      Lexer.start tokens byte = ⟨tokens, .number scan⟩ := by
  have hrange : 48 ≤ byte.toNat ∧ byte.toNat ≤ 57 := by
    simpa [isDigit, UInt8.le_iff_toNat_le] using h
  obtain ⟨n, hlow, hhigh, rfl⟩ : ∃ n, 48 ≤ n ∧ n ≤ 57 ∧ byte = UInt8.ofNat n :=
    ⟨byte.toNat, hrange.1, hrange.2, UInt8.ofNat_toNat.symm⟩
  interval_cases n <;> exact ⟨_, rfl, rfl⟩

theorem foldl_step_unsigned {cs : List Char} {scan : NumberScan}
    (hhead : ∃ c rest, cs = c :: rest ∧ c.isDigit = true)
    (hrun : (begun false).run (charBytes cs) = some scan) :
    (charBytes cs).foldl Lexer.step ⟨tokens, .between⟩ = ⟨tokens, .number scan⟩ := by
  obtain ⟨c, rest, rfl, hdigit⟩ := hhead
  obtain ⟨next, hnext, hstart⟩ := @start_digit tokens _ (isDigit_digitByte hdigit)
  rw [charBytes_cons, run_cons hnext] at hrun
  rw [charBytes_cons, List.foldl_cons, Lexer.step]
  simp only [hstart]
  exact foldl_step_number hrun

theorem NumberScan.IsWhole.head {cs : List Char} (h : IsWhole cs) (rest : List Char) :
    ∃ c rest', cs ++ rest = c :: rest' ∧ c.isDigit = true := by
  obtain ⟨hdigits, nonempty, -⟩ := h
  cases cs with
  | nil => exact absurd rfl nonempty
  | cons c cs => exact ⟨c, cs ++ rest, rfl, hdigits c (by simp)⟩

theorem foldl_step_signed (negative : Bool) {cs : List Char} {scan : NumberScan}
    (hhead : ∃ c rest, cs = c :: rest ∧ c.isDigit = true)
    (hrun : (begun negative).run (charBytes cs) = some scan) :
    (charBytes ((if negative then ['-'] else []) ++ cs)).foldl Lexer.step ⟨tokens, .between⟩ =
      ⟨tokens, .number scan⟩ := by
  cases negative with
  | false => exact foldl_step_unsigned hhead hrun
  | true =>
      have hminus : Lexer.step ⟨tokens, .between⟩ '-'.toNat.toUInt8 =
          ⟨tokens, .number (begun true)⟩ := rfl
      simp only [↓reduceIte, List.cons_append, List.nil_append, charBytes_cons, List.foldl_cons,
        hminus]
      exact foldl_step_number hrun

theorem printNumber_real {value : Float} (finite : value.isFinite = true) :
    printNumber (.real value finite) =
      charBytes ((if Float64.isNegative value then ['-'] else []) ++
        NumberLayout.document.decimalText (Decimal.shortest .even value)) := by
  have hnumber : value.isNaN = false :=
    Float64.not_isNaN_iff.2 (Float64.isNumber_of_isFinite finite)
  rw [printNumber, NumberLayout.chars]
  simp only [hnumber, finite, Bool.false_eq_true, ↓reduceIte]
  rfl

theorem printNumber_integer {value : Int}
    (inRange : -9223372036854775808 ≤ value ∧ value < 18446744073709551616) :
    printNumber (.integer value inRange) =
      charBytes ((if decide (value < 0) then ['-'] else []) ++ Nat.toDigits 10 value.natAbs) := by
  cases value with
  | ofNat n => rfl
  | negSucc n =>
      rw [decide_eq_true (Int.negSucc_lt_zero n)]
      rfl

theorem NumberScan.value?_integer {scan : NumberScan} (hphase : scan.phase = .zero ∨ scan.phase = .whole)
    {value : Int} (inRange : -9223372036854775808 ≤ value ∧ value < 18446744073709551616)
    (hdigits : scan.digits = value.natAbs) (hsign : scan.negative = decide (value < 0)) :
    scan.value? = some (.integer value inRange) := by
  have hread : JsonNumber.ofInt? value = some (.integer value inRange) := dif_pos inRange
  by_cases hneg : value < 0
  · have hne : value.natAbs ≠ 0 := by omega
    have hvalue : -(value.natAbs : Int) = value := by omega
    rw [decide_eq_true hneg] at hsign
    rcases hphase with hphase | hphase <;>
      simp only [value?, hphase, hsign, hdigits, hne, hvalue, hread, ↓reduceIte, Option.some_or]
  · have hvalue : (value.natAbs : Int) = value := by omega
    rw [decide_eq_false hneg] at hsign
    rcases hphase with hphase | hphase <;>
      simp only [value?, hphase, hsign, hdigits, hvalue, hread, Bool.false_eq_true, ↓reduceIte,
        Option.some_or]

theorem scan_printNumber (value : JsonNumber) (tokens : List Token) :
    ∃ scan, (printNumber value).foldl Lexer.step ⟨tokens, .between⟩ = ⟨tokens, .number scan⟩ ∧
      scan.isComplete = true ∧ scan.value? = some value := by
  cases value with
  | integer value inRange =>
      have hwhole := isWhole_toDigits value.natAbs
      have hhead := hwhole.head []
      rw [List.append_nil] at hhead
      have hphase := phase_atWhole (decide (value < 0)) (Nat.toDigits 10 value.natAbs)
      refine ⟨atWhole (decide (value < 0)) (Nat.toDigits 10 value.natAbs), ?_, ?_, ?_⟩
      · rw [printNumber_integer]
        exact foldl_step_signed _ hhead (run_begun _ hwhole)
      · rcases hphase with hphase | hphase <;> simp [isComplete, hphase]
      · exact value?_integer hphase inRange Nat.ofDigitChars_ten_toDigits rfl
  | real value finite =>
      obtain ⟨numeral, hreal, htext, hvalue⟩ :=
        Numeral.decimalText_document (Decimal.shortest_exponent_of_zero .even finite)
      obtain ⟨scan, hrun, hcomplete, hscan⟩ :=
        run_chars (Float64.isNegative value) hreal
      have hsame := Decimal.toSignedFloat_of_value finite hvalue
      refine ⟨scan, ?_, hcomplete, ?_⟩
      · rw [printNumber_real, htext]
        refine foldl_step_signed _ ?_ hrun
        rw [Numeral.chars, List.append_assoc]
        exact hreal.whole.head _
      · rw [hscan, hsame]
        exact dif_pos finite

end LogicTree.Json
