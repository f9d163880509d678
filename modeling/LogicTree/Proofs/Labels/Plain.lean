import LogicTree.Proofs.Elements
import LogicTree.Proofs.Labels.Grammar
import LogicTree.Tree.Weights

/-! # Plain labels

Numerals may have a plus sign and leading zeros, so many texts name the same path. Without signs and
leading zeros they are one text, the label of the path. Weights are asked for by any of the texts; an
element is found only by the very text that it is attached to.
-/

namespace LogicTree.Path

open Text

/-- A segment without a plus sign in front. -/
def withoutSign : List Char → List Char
  | '+' :: digits => digits
  | digits => digits

/-- A segment without a plus sign in front and without leading zeros. -/
def plainSegment (segment : List Char) : List Char :=
  (withoutSign segment).dropWhile (· == '0')

/-- A text with its segments made plain. -/
def plainLabel (text : String) : String :=
  String.ofList (['_'].intercalate ((segments text.toList).map plainSegment))

/-- No segment of the text starts with a plus sign or a zero. -/
def IsPlain (text : String) : Prop :=
  ∀ segment ∈ segments text.toList, segment.head? ≠ some '+' ∧ segment.head? ≠ some '0'

theorem withoutSign_of_ne {segment : List Char} (head : segment.head? ≠ some '+') :
    withoutSign segment = segment := by
  unfold withoutSign
  split
  · exact absurd rfl head
  · rfl

theorem dropWhile_zeros_eq_self_iff {digits : List Char} :
    digits.dropWhile (· == '0') = digits ↔ digits.head? ≠ some '0' := by
  cases digits with
  | nil => simp
  | cons c digits =>
      rw [List.dropWhile_eq_self_iff]
      simp

theorem plainSegment_eq_self_iff {segment : List Char} :
    plainSegment segment = segment ↔ segment.head? ≠ some '+' ∧ segment.head? ≠ some '0' := by
  by_cases signed : segment.head? = some '+'
  · obtain ⟨digits, rfl⟩ := List.head?_eq_some_iff.1 signed
    have shorter := List.length_dropWhile_le (· == '0') digits
    have changed : digits.dropWhile (· == '0') ≠ '+' :: digits := fun same => by
      rw [same, List.length_cons] at shorter
      omega
    simpa [plainSegment, withoutSign] using changed
  · rw [plainSegment, withoutSign_of_ne signed, dropWhile_zeros_eq_self_iff]
    exact (and_iff_right signed).symm

theorem isDigits_withoutSign {segment : List Char} {value : Nat}
    (numeral : IsNumeral segment value) : IsDigits (withoutSign segment) value := by
  cases numeral with
  | signed digits => exact digits
  | plain digits =>
      have unsigned : segment.head? ≠ some '+' := by
        intro signed
        obtain ⟨rest, rfl⟩ := List.head?_eq_some_iff.1 signed
        exact digits.not_signed
      rwa [withoutSign_of_ne unsigned]

theorem ofDigitChars_dropWhile (digits : List Char) :
    Nat.ofDigitChars 10 (digits.dropWhile (· == '0')) 0 = Nat.ofDigitChars 10 digits 0 := by
  induction digits with
  | nil => rfl
  | cons c digits ih =>
      by_cases zero : c = '0'
      · subst zero
        rw [List.dropWhile_cons_of_pos rfl, ih, Nat.ofDigitChars_cons]
        rfl
      · rw [List.dropWhile_cons_of_neg (by simpa using zero)]

theorem plainSegment_of_isNumeral {segment : List Char} {value : Nat}
    (numeral : IsNumeral segment value) (positive : value ≠ 0) :
    plainSegment segment = Nat.toDigits 10 value := by
  have digits := isDigits_withoutSign numeral
  have valued : Nat.ofDigitChars 10 (plainSegment segment) 0 = value := by
    rw [plainSegment, ofDigitChars_dropWhile, digits.valued]
  have decimal : ∀ c ∈ plainSegment segment, c.isDigit = true :=
    fun c member => digits.decimal c ((List.dropWhile_sublist _).mem member)
  have nonempty : plainSegment segment ≠ [] := by
    intro nil
    rw [nil] at valued
    exact positive valued.symm
  have head : (plainSegment segment).head? ≠ some '0' := by
    intro zero
    have kept := List.head?_dropWhile_not (· == '0') (withoutSign segment)
    rw [plainSegment] at zero
    rw [zero] at kept
    cases kept
  rw [← valued, toDigits_ofDigitChars decimal nonempty head]

theorem map_plainSegment {pieces : List (List Char)} {ids : List UInt32}
    (numerals : List.Forall₂ IsNumeral pieces (ids.map UInt32.toNat)) (zero : 0 ∉ ids) :
    pieces.map plainSegment = ids.map fun id => Nat.toDigits 10 id.toNat := by
  induction ids generalizing pieces with
  | nil =>
      rw [List.forall₂_nil_right_iff.1 numerals]
      rfl
  | cons id ids ih =>
      obtain ⟨piece, pieces, numeral, later, rfl⟩ := List.forall₂_cons_right_iff.1 numerals
      obtain ⟨first, others⟩ := not_or.1 (List.mem_cons.not.1 zero)
      have positive : id.toNat ≠ 0 := fun h => first (UInt32.toNat_inj.1 h.symm)
      rw [List.map_cons, List.map_cons, plainSegment_of_isNumeral numeral positive,
        ih later others]

theorem labelChars_eq_intercalate {ids : List UInt32} (nonempty : ids ≠ []) :
    labelChars ids = ['_'].intercalate (ids.map fun id => Nat.toDigits 10 id.toNat) := by
  rw [← segments_labelChars ids nonempty, intercalate_segments]

/-! ## Texts of a path -/

theorem isPlain_iff {text : String} :
    IsPlain text ↔ (segments text.toList).map plainSegment = segments text.toList := by
  rw [IsPlain, ← List.map_id (segments text.toList), List.map_map, List.map_inj_left]
  simp only [List.map_id]
  exact forall₂_congr fun segment _ => plainSegment_eq_self_iff.symm

theorem plainLabel_of_isPlain {text : String} (plain : IsPlain text) : plainLabel text = text := by
  rw [plainLabel, isPlain_iff.1 plain, intercalate_segments, String.ofList_toList]

section spelled

variable {text : String} {path : Path}

theorem plainSegments_of_ofLabel (read : ofLabel text = .ok path) :
    path.ids ≠ [] ∧
      (segments text.toList).map plainSegment =
        path.ids.map fun id => Nat.toDigits 10 id.toNat := by
  obtain ⟨-, segmentsRead⟩ := ofLabel_eq_ok_iff.1 read
  obtain ⟨numerals, zero⟩ := readSegments_eq_ok_iff.1 segmentsRead
  refine ⟨?_, map_plainSegment numerals zero⟩
  intro nil
  rw [nil] at numerals
  exact segments_ne_nil _ (List.forall₂_nil_right_iff.1 numerals)

theorem label_eq_plainLabel (read : ofLabel text = .ok path) : path.label = plainLabel text := by
  obtain ⟨nonempty, plain⟩ := plainSegments_of_ofLabel read
  rw [label, plainLabel, plain, labelChars_eq_intercalate nonempty]

theorem label_eq_iff_isPlain (read : ofLabel text = .ok path) :
    path.label = text ↔ IsPlain text := by
  constructor
  · rintro rfl
    obtain ⟨nonempty, plain⟩ := plainSegments_of_ofLabel read
    rw [isPlain_iff, plain, toList_label, segments_labelChars _ nonempty]
  · intro plain
    rw [label_eq_plainLabel read, plainLabel_of_isPlain plain]

end spelled

/-- The label of a path is any text of the path without its plus signs and leading zeros; so it is
    the text itself exactly if that has none. Two texts of one path are the same text after these
    are removed, so they are the same if neither has any. All trees give them the same weights, but
    an element that is attached to one of them is found under the other only if they are the same
    text. -/
theorem label_of_spelling {text : String} {path : Path} (read : ofLabel text = .ok path) :
    path.label = plainLabel text ∧ (path.label = text ↔ IsPlain text) ∧
    ∀ other, ofLabel other = .ok path →
      plainLabel other = plainLabel text ∧ (IsPlain other → IsPlain text → other = text) ∧
      ∀ {E : Type} (tree : Tree E),
        tree.weight other = tree.weight text ∧ tree.totalWeight other = tree.totalWeight text ∧
        ∀ element, (tree.addElement text element).elements.get? other =
          if other = text then some element else tree.elements.get? other := by
  refine ⟨label_eq_plainLabel read, label_eq_iff_isPlain read, fun other alike => ?_⟩
  have plain : plainLabel other = plainLabel text := by
    rw [← label_eq_plainLabel read, ← label_eq_plainLabel alike]
  refine ⟨plain, fun plainOther plainText => ?_, fun tree => ⟨?_, ?_, fun element => ?_⟩⟩
  · rw [← plainLabel_of_isPlain plainOther, plain, plainLabel_of_isPlain plainText]
  · rw [Tree.weight, Tree.weight, read, alike]
  · rw [Tree.totalWeight, Tree.totalWeight, read, alike]
  · exact tree.elements.get?_insert text other element

/-- Two texts of the path that takes the seventh branch and then the first. -/
theorem label_of_spelling_signed :
    ofLabel "+07_1" = .ok ⟨[7, 1]⟩ ∧ ofLabel "7_+001" = .ok ⟨[7, 1]⟩ ∧
      Path.label ⟨[7, 1]⟩ = plainLabel "+07_1" ∧ plainLabel "7_+001" = plainLabel "+07_1" := by
  have read : ofLabel "+07_1" = .ok ⟨[7, 1]⟩ := by decide
  have alike : ofLabel "7_+001" = .ok ⟨[7, 1]⟩ := by decide
  obtain ⟨label, -, others⟩ := label_of_spelling read
  exact ⟨read, alike, label, (others _ alike).1⟩

/-- A plus sign is not kept: the first branch is named by two texts, of which one is the label, and
    an element is attached to only one of them. -/
theorem signed_label_not_kept :
    let tree : Tree String := Tree.empty.addElement "1" "kept"
    ofLabel "+1" = .ok ⟨[1]⟩ ∧ ofLabel "1" = .ok ⟨[1]⟩ ∧ Path.label ⟨[1]⟩ ≠ "+1" ∧
      tree.elements.get? "1" = some "kept" ∧ tree.elements.get? "+1" = none := by
  decide

end LogicTree.Path
