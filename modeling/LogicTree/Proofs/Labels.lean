import LogicTree.Path
import LogicTree.Proofs.Digits

/-! # Labels of paths

A label is read by splitting it at the underscores and reading every piece. Digits have
no underscore in them, so the pieces of a path's label are the numerals of its ids, and
reading the label gives the path back. Only a path without decisions and a path with an
id that is zero are not read back: their labels are refused.
-/

namespace LogicTree.Path

theorem segments_of_notMem {text : List Char} (h : '_' ∉ text) : segments text = [text] := by
  induction text with
  | nil => rfl
  | cons c text ih =>
      obtain ⟨hc, htext⟩ := not_or.1 (List.mem_cons.not.1 h)
      simp [segments, Ne.symm hc, ih htext]

theorem segments_append {text : List Char} (h : '_' ∉ text) (rest : List Char) :
    segments (text ++ '_' :: rest) = text :: segments rest := by
  induction text with
  | nil => simp [segments]
  | cons c text ih =>
      obtain ⟨hc, htext⟩ := not_or.1 (List.mem_cons.not.1 h)
      simp [segments, Ne.symm hc, ih htext]

theorem segments_labelChars (ids : List UInt32) (nonempty : ids ≠ []) :
    segments (labelChars ids) = ids.map fun id => Nat.toDigits 10 id.toNat := by
  induction ids with
  | nil => exact absurd rfl nonempty
  | cons id ids ih =>
      cases ids with
      | nil => exact segments_of_notMem Nat.underscore_not_in_toDigits
      | cons next ids =>
          rw [labelChars, segments_append Nat.underscore_not_in_toDigits, ih (by simp)]
          · rfl
          · simp

theorem labelChars_ne_nil {ids : List UInt32} (nonempty : ids ≠ []) : labelChars ids ≠ [] := by
  intro hnil
  have hsegments := segments_labelChars ids nonempty
  rw [hnil] at hsegments
  cases ids with
  | nil => exact nonempty rfl
  | cons id ids =>
      obtain ⟨hdigits, -⟩ := List.cons.inj hsegments
      exact Nat.toDigits_ne_nil hdigits.symm

theorem labelChars_injective : Function.Injective labelChars := by
  intro ids others h
  by_cases hids : ids = []
  · subst hids
    by_contra hothers
    exact labelChars_ne_nil (Ne.symm hothers) h.symm
  · have hothers : others ≠ [] := by
      rintro rfl
      exact labelChars_ne_nil hids h
    have hnumerals : ids.map (fun id => Nat.toDigits 10 id.toNat) =
        others.map fun id => Nat.toDigits 10 id.toNat := by
      rw [← segments_labelChars ids hids, ← segments_labelChars others hothers, h]
    refine List.map_injective_iff.2 ?_ hnumerals
    intro id other hdigits
    exact UInt32.toNat_inj.1 (Text.toDigits_injective hdigits)

theorem toList_label (path : Path) : path.label.toList = labelChars path.ids := String.toList_ofList

theorem label_injective : Function.Injective label := by
  intro path other h
  have hchars : labelChars path.ids = labelChars other.ids := by
    rw [← toList_label, ← toList_label, h]
  exact congrArg Path.mk (labelChars_injective hchars)

/-! ## Reading the numerals of ids -/

theorem readSegment_toDigits (label : String) {id : UInt32} (hid : id ≠ 0) :
    readSegment label (Nat.toDigits 10 id.toNat) = .ok id := by
  have hpos : id.toNat ≠ 0 := fun h => hid (UInt32.toNat_inj.1 h)
  have hlt : id.toNat < 4294967296 := id.toNat_lt
  simp [readSegment, hpos, hlt]

/-- The complaint about a label with a segment that is zero. -/
def zeroSegment (label : String) : Error :=
  .malformedLabel ("'" ++ label ++ "': branch ids start at 1")

theorem readSegment_zero (label : String) :
    readSegment label (Nat.toDigits 10 (0 : UInt32).toNat) = .error (zeroSegment label) := by
  rw [readSegment, Text.natural?_toDigits]
  rfl

theorem readSegments_numerals (label : String) {ids : List UInt32} (hids : 0 ∉ ids) :
    readSegments label (ids.map fun id => Nat.toDigits 10 id.toNat) = .ok ids := by
  induction ids with
  | nil => rfl
  | cons id ids ih =>
      obtain ⟨hid, hrest⟩ := not_or.1 (List.mem_cons.not.1 hids)
      rw [List.map_cons, readSegments, readSegment_toDigits label (Ne.symm hid), ih hrest]
      rfl

theorem readSegments_zero (label : String) {ids : List UInt32} (hzero : 0 ∈ ids) :
    readSegments label (ids.map fun id => Nat.toDigits 10 id.toNat) =
      .error (zeroSegment label) := by
  induction ids with
  | nil => cases hzero
  | cons id ids ih =>
      rw [List.map_cons, readSegments]
      by_cases hid : id = 0
      · rw [hid, readSegment_zero]
        rfl
      · have hrest : 0 ∈ ids := (List.mem_cons.1 hzero).resolve_left (Ne.symm hid)
        rw [readSegment_toDigits label hid, ih hrest]
        rfl

/-! ## Reading labels -/

theorem ofLabel_label_of_nil {path : Path} (hnil : path.ids = []) :
    ofLabel path.label = .error (.malformedLabel "empty label") := by
  obtain rfl : path = ⟨[]⟩ := congrArg Path.mk hnil
  rfl

theorem ofLabel_label_of_ne_nil {path : Path} (nonempty : path.ids ≠ []) :
    ofLabel path.label =
      (readSegments path.label (path.ids.map fun id => Nat.toDigits 10 id.toNat)).map Path.mk := by
  have hsome : ¬ path.label.isEmpty = true := by
    rw [String.isEmpty_iff, ← String.toList_eq_nil_iff, toList_label]
    exact labelChars_ne_nil nonempty
  rw [ofLabel, if_neg hsome, toList_label, segments_labelChars _ nonempty]

theorem ofLabel_label {path : Path} (nonempty : path.ids ≠ []) (hids : 0 ∉ path.ids) :
    ofLabel path.label = .ok path := by
  rw [ofLabel_label_of_ne_nil nonempty, readSegments_numerals _ hids]
  rfl

theorem ofLabel_label_of_zero {path : Path} (hzero : 0 ∈ path.ids) :
    ofLabel path.label = .error (zeroSegment path.label) := by
  rw [ofLabel_label_of_ne_nil (List.ne_nil_of_mem hzero), readSegments_zero _ hzero]
  rfl

/-- A path is read back from its label exactly if it decides something and all its ids count from
    one; otherwise its label is refused as malformed. No two paths have the same label. -/
theorem label_read_back_iff (path : Path) :
    (ofLabel path.label = .ok path ↔ path.ids ≠ [] ∧ 0 ∉ path.ids) ∧
      (ofLabel path.label = .ok path ∨ ∃ text, ofLabel path.label = .error (.malformedLabel text)) ∧
      ∀ other : Path, path.label = other.label ↔ path = other := by
  have hlabels : ∀ other : Path, path.label = other.label ↔ path = other := fun other =>
    label_injective.eq_iff
  by_cases hnil : path.ids = []
  · have hrefused := ofLabel_label_of_nil hnil
    refine ⟨?_, .inr ⟨_, hrefused⟩, hlabels⟩
    simp [hrefused, hnil]
  · by_cases hzero : 0 ∈ path.ids
    · have hrefused := ofLabel_label_of_zero hzero
      refine ⟨?_, .inr ⟨_, hrefused⟩, hlabels⟩
      simp [hrefused, hzero]
    · have hread := ofLabel_label hnil hzero
      exact ⟨iff_of_true hread ⟨hnil, hzero⟩, .inl hread, hlabels⟩

end LogicTree.Path
