import LogicTree.Proofs.Labels
import LogicTree.Proofs.Steps

/-! # The grammar of labels

A label is made of segments with single underscores between them, and every segment is a numeral of
an id. Reading accepts exactly these texts and gives the ids that the numerals stand for; it refuses
every other text for its first segment that is no numeral of an id.
-/

namespace LogicTree.Path

open Text

/-! ## Segments -/

theorem segments_eq_splitOn (text : List Char) : segments text = text.splitOn '_' := by
  induction text with
  | nil => rfl
  | cons c text ih =>
      rw [segments, List.splitOn_cons_eq_if_modifyHead, ih]
      by_cases underscore : c = '_'
      · simp [underscore]
      · obtain ⟨first, others, pieces⟩ :=
          List.exists_cons_of_ne_nil (List.splitOn_ne_nil '_' text)
        simp [underscore, pieces]

theorem intercalate_segments (text : List Char) : ['_'].intercalate (segments text) = text := by
  rw [segments_eq_splitOn, List.intercalate_splitOn]

theorem segments_intercalate {pieces : List (List Char)} (nonempty : pieces ≠ [])
    (whole : ∀ piece ∈ pieces, '_' ∉ piece) : segments (['_'].intercalate pieces) = pieces := by
  rw [segments_eq_splitOn, List.splitOn_intercalate _ whole nonempty]

theorem segments_ne_nil (text : List Char) : segments text ≠ [] := by
  rw [segments_eq_splitOn]
  exact List.splitOn_ne_nil _ _

/-! ## Ids -/

/-- A text spells values: it is made of numerals of them, with single underscores between them. -/
def Spells (text : List Char) (values : List Nat) : Prop :=
  ∃ pieces : List (List Char), pieces ≠ [] ∧ text = ['_'].intercalate pieces ∧
    List.Forall₂ IsNumeral pieces values

/-- A text spells values that can be ids. -/
def SpellsIds (text : List Char) (values : List Nat) : Prop :=
  Spells text values ∧ ∀ value ∈ values, 1 ≤ value ∧ value ≤ 4294967295

theorem underscore_notMem {pieces : List (List Char)} {values : List Nat}
    (numerals : List.Forall₂ IsNumeral pieces values) : ∀ piece ∈ pieces, '_' ∉ piece := by
  induction numerals with
  | nil => exact fun _ member => nomatch member
  | cons numeral _ ih => exact List.forall_mem_cons.2 ⟨numeral.underscore_notMem, ih⟩

theorem spells_iff {text : List Char} {values : List Nat} :
    Spells text values ↔ List.Forall₂ IsNumeral (segments text) values := by
  constructor
  · rintro ⟨pieces, nonempty, rfl, numerals⟩
    rwa [segments_intercalate nonempty (underscore_notMem numerals)]
  · intro numerals
    exact ⟨segments text, segments_ne_nil text, (intercalate_segments text).symm, numerals⟩

/-! ## Reading segments -/

theorem readSegment_eq_ok_iff {label : String} {segment : List Char} {id : UInt32} :
    readSegment label segment = .ok id ↔ IsNumeral segment id.toNat ∧ id ≠ 0 := by
  rw [← natural?_eq_some_iff, readSegment]
  cases natural? segment with
  | none => simp
  | some value =>
      by_cases zero : value = 0
      · subst zero
        simp [← UInt32.toNat_inj, eq_comm]
      · by_cases fits : value < 4294967296
        · have same : value.toUInt32 = id ↔ value = id.toNat := by
            rw [← UInt32.toNat_inj, Nat.toUInt32, UInt32.toNat_ofNat_of_lt' fits]
          have positive : value = id.toNat → id ≠ 0 := by
            rintro rfl rfl
            exact zero rfl
          simpa [zero, fits, same] using positive
        · have large : value ≠ id.toNat := by
            have := id.toNat_lt
            omega
          simp [zero, fits, large]

theorem readSegment_eq_error_iff {label : String} {segment : List Char} {failure : Error} :
    readSegment label segment = .error failure ↔
      IsNumeral segment 0 ∧ failure = zeroSegment label ∨
        (∀ value, IsNumeral segment value → 4294967295 < value) ∧
          failure = readSegment.notAnId label segment := by
  simp only [← natural?_eq_some_iff, readSegment, zeroSegment]
  cases natural? segment with
  | none => simp [eq_comm]
  | some value =>
      by_cases zero : value = 0
      · simp [zero, eq_comm]
      · by_cases fits : value < 4294967296
        · have small : ¬ 4294967295 < value := by omega
          simp [zero, fits, small]
        · have large : 4294967295 < value := by omega
          simp [zero, fits, large, eq_comm]

theorem readSegments_eq_ok_iff {label : String} {pieces : List (List Char)} {ids : List UInt32} :
    readSegments label pieces = .ok ids ↔
      List.Forall₂ IsNumeral pieces (ids.map UInt32.toNat) ∧ 0 ∉ ids := by
  induction pieces generalizing ids with
  | nil => cases ids <;> simp [readSegments]
  | cons piece pieces ih =>
      cases ids with
      | nil => simp [readSegments, bind_eq_ok_iff, pure_eq_ok]
      | cons id ids =>
          simp only [readSegments, bind_eq_ok_iff, pure_eq_ok, readSegment_eq_ok_iff, ih,
            Except.ok.injEq, List.cons.injEq, List.map_cons, List.forall₂_cons, List.mem_cons,
            not_or]
          constructor
          · rintro ⟨first, ⟨numeral, positive⟩, others, ⟨numerals, zero⟩, rfl, rfl⟩
            exact ⟨⟨numeral, numerals⟩, Ne.symm positive, zero⟩
          · rintro ⟨⟨numeral, numerals⟩, positive, zero⟩
            exact ⟨id, ⟨numeral, Ne.symm positive⟩, ids, ⟨numerals, zero⟩, rfl, rfl⟩

theorem readSegments_eq_error_iff {label : String} {pieces : List (List Char)} {failure : Error} :
    readSegments label pieces = .error failure ↔
      ∃ before piece after, pieces = before ++ piece :: after ∧
        (∃ ids, readSegments label before = .ok ids) ∧
        readSegment label piece = .error failure := by
  induction pieces with
  | nil => simp [readSegments]
  | cons piece pieces ih =>
      constructor
      · intro refused
        rw [readSegments, bind_eq_error_iff] at refused
        rcases refused with refused | ⟨id, read, refused⟩
        · exact ⟨[], piece, pieces, rfl, ⟨[], rfl⟩, refused⟩
        · rcases bind_eq_error_iff.1 refused with refused | ⟨ids, -, later⟩
          · obtain ⟨before, next, after, rfl, ⟨ids, earlier⟩, refused⟩ := ih.1 refused
            refine ⟨piece :: before, next, after, rfl, ⟨id :: ids, ?_⟩, refused⟩
            rw [readSegments, read, earlier]
            rfl
          · cases later
      · rintro ⟨before, next, after, split, ⟨ids, earlier⟩, refused⟩
        rw [readSegments, bind_eq_error_iff]
        cases before with
        | nil =>
            obtain ⟨rfl, rfl⟩ := List.cons.inj split
            exact .inl refused
        | cons first before =>
            obtain ⟨rfl, rfl⟩ := List.cons.inj split
            rw [readSegments, bind_eq_ok_iff] at earlier
            obtain ⟨id, read, earlier⟩ := earlier
            obtain ⟨others, earlier, -⟩ := bind_eq_ok_iff.1 earlier
            have later := ih.2 ⟨before, next, after, rfl, ⟨others, earlier⟩, refused⟩
            exact .inr ⟨id, read, bind_eq_error_iff.2 (.inl later)⟩

/-! ## Reading labels -/

theorem ofLabel_eq_ok_iff {text : String} {path : Path} :
    ofLabel text = .ok path ↔
      text ≠ "" ∧ readSegments text (segments text.toList) = .ok path.ids := by
  rw [ofLabel]
  by_cases empty : text = ""
  · subst empty
    simp
  · have some : ¬ text.isEmpty = true := by rwa [String.isEmpty_iff]
    rw [if_neg some, map_eq_ok_iff]
    constructor
    · rintro ⟨ids, read, rfl⟩
      exact ⟨empty, read⟩
    · rintro ⟨-, read⟩
      exact ⟨path.ids, read, rfl⟩

theorem ofLabel_eq_error_iff {text : String} {failure : Error} :
    ofLabel text = .error failure ↔
      text = "" ∧ failure = .malformedLabel "empty label" ∨
        text ≠ "" ∧ ∃ before piece after, segments text.toList = before ++ piece :: after ∧
          (∃ ids, readSegments text before = .ok ids) ∧
          readSegment text piece = .error failure := by
  rw [ofLabel, ← readSegments_eq_error_iff]
  by_cases empty : text = ""
  · subst empty
    simp [@eq_comm _ failure]
  · have some : ¬ text.isEmpty = true := by rwa [String.isEmpty_iff]
    rw [if_neg some]
    cases readSegments text (segments text.toList) with
    | error e => simp [Except.map, empty]
    | ok ids => simp [Except.map, empty]

theorem malformed_of_ofLabel {text : String} {failure : Error}
    (refused : ofLabel text = .error failure) : ∃ reason, failure = .malformedLabel reason := by
  rcases ofLabel_eq_error_iff.1 refused with ⟨-, rfl⟩ | ⟨-, before, piece, after, -, -, refused⟩
  · exact ⟨_, rfl⟩
  · rcases readSegment_eq_error_iff.1 refused with ⟨-, rfl⟩ | ⟨-, rfl⟩
    · exact ⟨_, rfl⟩
    · exact ⟨_, rfl⟩

theorem zero_notMem_iff {ids : List UInt32} :
    0 ∉ ids ↔ ∀ value ∈ ids.map UInt32.toNat, 1 ≤ value ∧ value ≤ 4294967295 := by
  rw [List.forall_mem_map]
  constructor
  · intro zero id member
    have positive : id.toNat ≠ 0 := by
      intro h
      obtain rfl : id = 0 := UInt32.toNat_inj.1 h
      exact zero member
    have fits := id.toNat_lt
    omega
  · intro range member
    exact absurd (range 0 member).1 (by decide)

theorem ofLabel_eq_ok_iff_spellsIds {text : String} {path : Path} :
    ofLabel text = .ok path ↔ SpellsIds text.toList (path.ids.map UInt32.toNat) := by
  rw [ofLabel_eq_ok_iff, readSegments_eq_ok_iff, SpellsIds, spells_iff, zero_notMem_iff]
  refine and_iff_right_of_imp ?_
  rintro ⟨numerals, -⟩ rfl
  obtain ⟨value, values, numeral, -⟩ := List.forall₂_cons_left_iff.1 numerals
  exact numeral.ne_nil rfl

theorem exists_ids_of_spellsIds {text : List Char} {values : List Nat}
    (spelled : SpellsIds text values) : ∃ ids : List UInt32, ids.map UInt32.toNat = values := by
  refine ⟨values.map UInt32.ofNat, ?_⟩
  rw [List.map_map, List.map_congr_left, List.map_id]
  intro value member
  have fits := (spelled.2 value member).2
  exact UInt32.toNat_ofNat_of_lt' (by change value < 4294967296; omega)

/-- A text is read as a label exactly if it is made of numerals of numbers from 1 to 4294967295,
    with single underscores between them, and then it is read as the path of these numbers. Every
    other text is refused as malformed. -/
theorem ofLabel_grammar (text : String) :
    (∀ path, ofLabel text = .ok path ↔
      SpellsIds text.toList (path.ids.map UInt32.toNat)) ∧
    ((∃ path, ofLabel text = .ok path) ↔ ∃ values, SpellsIds text.toList values) ∧
    ((∃ reason, ofLabel text = .error (.malformedLabel reason)) ↔
      ¬ ∃ values, SpellsIds text.toList values) := by
  have accepts : (∃ path, ofLabel text = .ok path) ↔ ∃ values, SpellsIds text.toList values := by
    constructor
    · rintro ⟨path, read⟩
      exact ⟨_, ofLabel_eq_ok_iff_spellsIds.1 read⟩
    · rintro ⟨values, spelled⟩
      obtain ⟨ids, rfl⟩ := exists_ids_of_spellsIds spelled
      exact ⟨⟨ids⟩, ofLabel_eq_ok_iff_spellsIds.2 spelled⟩
  refine ⟨fun path => ofLabel_eq_ok_iff_spellsIds, accepts, ?_⟩
  rw [← accepts]
  cases read : ofLabel text with
  | ok path => simp
  | error failure =>
      obtain ⟨reason, rfl⟩ := malformed_of_ofLabel read
      simp

end LogicTree.Path
