import LogicTree.Proofs.Document.Loading
import LogicTree.Proofs.Document.Values

/-! # Trees in other spellings

A document that spells a tree is read as the tree, however the members of its records are ordered,
whatever else stands among them, and whether a record is an object or an array. Only elements that
nest too deep are in the way, as they are for the document that is written.
-/

namespace LogicTree

open Json

namespace Tree

variable {tree : Tree Json}

theorem ofBytes_spelling_iff (finite : tree.firstNonFinite? = none)
    (ordered : ∀ row ∈ tree.elements.rows, row.2.Ordered) {text : Bytes} (h : tree.IsSpelling text) :
    (Tree.ofBytes text : Except Error (Tree Json)) = .ok tree ↔
      ∀ row ∈ tree.elements.rows, row.2.nesting < elementRoom := by
  constructor
  · intro loaded row hrow
    -- whatever is loaded is read again from its own node
    obtain ⟨-, hfits⟩ : tree.firstNonFinite? = none ∧
        ∀ row ∈ tree.elements.rows, row.2.Fits elementRoom :=
      sound_of_ofBytes (fun _ _ => fits_of_readValue) loaded
    have hread := read_element (ordered row hrow)
    by_contra deep
    rw [if_neg deep] at hread
    cases (hfits row hrow).symm.trans hread
  · intro shallow
    refine ofBytes_of_isSpelling finite (fun row hrow => survives_iff.2 ?_) h
    rw [read_element (ordered row hrow), if_pos (shallow row hrow)]

/-- What is written for a tree of values may be respelled: with the members of the tree, its levels,
    branches, rules and payloads in another order and members of other names among them, with the
    elements in another order, with null for an absent rule or file, with other blanks, and with
    arrays for these records. Each such document is read as the tree exactly if no element nests
    beyond the room that is left for it. -/
theorem ofBytes_respelled (ordered : ∀ row ∈ tree.elements.rows, row.2.Ordered)
    {rows : List (String × Json)} {bytes : Bytes} (perm : rows.Perm tree.elements.rows)
    (written : tree.toBytesWith rows = .ok bytes) :
    tree.IsSpelling bytes ∧ ∀ text, tree.IsSpelling text →
      ((Tree.ofBytes text : Except Error (Tree Json)) = .ok tree ↔
        ∀ row ∈ tree.elements.rows, row.2.nesting < elementRoom) := by
  rw [toBytesWith_eq] at written
  cases finite : tree.firstNonFinite? with
  | some field =>
      rw [finite] at written
      cases written
  | none =>
      rw [finite] at written
      cases written
      exact ⟨isSpelling_print perm .lines, fun text h => ofBytes_spelling_iff finite ordered h⟩

/-- An object of the members that are kept and others, the last one first. -/
def reversed (kept : List (String × Markup)) (others : List (StringText × Markup)) : Markup :=
  .object (((kept.map fun member => (StringText.printed member.1, member.2)) ++ others).reverse)

theorem recordText_reversed {fields kept : List (String × Markup)}
    {others : List (StringText × Markup)}
    (unknown : ∀ member ∈ others, ∃ name, member.1.text? = some name ∧ name ∉ fields.map Prod.fst) :
    RecordText fields kept (reversed kept others) :=
  .object unknown (List.reverse_perm _)

def flagBranch : Branch := ⟨1, 1.0, .flag true, none, some "f"⟩

def flagLevel : Level := ⟨0, "l", "all", [flagBranch]⟩

/-- A tree of one branch and two elements. -/
def flagTree : Tree Json where
  modelName := "m"
  levels := [flagLevel]
  elements := ⟨[("1", .null), ("2", .array [])], by unfold KeysIncrease; decide⟩

/-- A member named by the number of a character, that holds a number too large for a double and
    half of a surrogate pair. -/
def otherMember : StringText × Markup :=
  (.spelled [.unit 0x30 0x30 0x37 0x38 0x78 rfl],
    .array [
      .number (.spelled true ['9'] [] ('E' :: (['+'] ++ Nat.toDigits 10 999)) (isWhole_toDigits 9)
        nofun (.present (.inr rfl) (.inr (.inl rfl)) Nat.toDigits_ne_nil fun _ hc =>
          Text.isDigit_toDigits hc)),
      .string (.spelled [.unit 0x64 0x38 0x30 0x30 0xd800 rfl])])

/-- The branch in reverse, with null for its rule, and with the value before the kind. -/
def reversedBranch : Markup :=
  reversed (flagBranch.fields (reversed flagBranch.value.fields []) ++
    [("rule", .null), ("input_file", .string (.printed "f"))]) []

/-- The tree and its elements in reverse, with one member more, and with the level as an array. -/
def reversedTree : Markup :=
  reversed (flagTree.fields [.array ((flagLevel.fields [reversedBranch]).map Prod.snd)]
    [("2", .array []), ("1", .null)]) [otherMember]

theorem spells_reversedTree : flagTree.Spells reversedTree := by
  have hvalue : flagBranch.value.Spells (reversed flagBranch.value.fields []) :=
    recordText_reversed nofun
  have hbranch : flagBranch.Spells reversedBranch :=
    ⟨_, _, _, _, _, hvalue, .null, .present rfl, recordText_reversed nofun⟩
  have hlevel : flagLevel.Spells (.array ((flagLevel.fields [reversedBranch]).map Prod.snd)) :=
    ⟨_, .cons hbranch .nil, .array⟩
  refine ⟨_, _, .cons hlevel .nil, .swap _ _ [], recordText_reversed ?_⟩
  intro member hmember
  obtain rfl := List.mem_singleton.1 hmember
  exact ⟨"x", rfl, by decide⟩

/-- The text of that spelling, without blanks. -/
def reversedText : Bytes := Bytes.ofString
  ("\x7b\"\\u0078\":[-9E+999,\"\\ud800\"],\"elements\":\x7b\"2\":[],\"1\":null\x7d,"
    ++ "\"levels\":[[0,\"l\",\"all\",[\x7b\"input_file\":\"f\",\"rule\":null,"
    ++ "\"value\":\x7b\"value\":true,\"kind\":\"flag\"\x7d,\"weight\":1.0,\"relative_id\":1"
    ++ "\x7d]]],\"model_name\":\"m\"\x7d")

set_option maxRecDepth 4000 in
theorem isSpelling_reversedText : flagTree.IsSpelling reversedText := by
  have unspaced : reversedTree.marks.flatMap Mark.text = reversedText := by rfl
  refine ⟨reversedTree, spells_reversedTree, ?_⟩
  rw [← unspaced]
  exact .flatMap _

theorem ofBytes_respelled_reversedTree :
    let rows := flagTree.elements.rows
    (∀ row ∈ rows, row.2.Ordered) ∧ rows.Perm flagTree.elements.rows ∧
      ∃ bytes, flagTree.toBytesWith rows = .ok bytes ∧ flagTree.IsSpelling bytes ∧
        flagTree.IsSpelling reversedText ∧
        (Tree.ofBytes reversedText : Except Error (Tree Json)) = .ok flagTree := by
  intro rows
  have ordered : ∀ row ∈ rows, row.2.Ordered := by
    simp [rows, flagTree, Ordered, ItemsOrdered]
  have perm : rows.Perm flagTree.elements.rows := .refl _
  have written : flagTree.toBytesWith rows = .ok ((flagTree.toJsonWith rows).print .lines) := rfl
  have shallow : ∀ row ∈ rows, row.2.nesting < elementRoom := by decide
  obtain ⟨itself, read⟩ := ofBytes_respelled ordered perm written
  exact ⟨ordered, perm, _, written, itself, isSpelling_reversedText,
    (read _ isSpelling_reversedText).2 shallow⟩

/-- The tree of an element of a hundred and twenty-six arrays, as the array of its fields. -/
def nestedText : Bytes := Bytes.ofString
  ("[\"\",[],\x7b\"1\":" ++ String.ofList (List.replicate 126 '[' ++ List.replicate 126 ']') ++ "\x7d]")

set_option maxRecDepth 4000 in
theorem isSpelling_nestedText : (oneValue (nestedArray 125)).IsSpelling nestedText := by
  let tree := oneValue (nestedArray 125)
  have unspaced : (Markup.array ((tree.fields [] tree.elements.rows).map Prod.snd)).marks.flatMap
      Mark.text = nestedText := by rfl
  refine ⟨_, ⟨[], _, .nil, .refl _, .array⟩, ?_⟩
  rw [← unspaced]
  exact .flatMap _

/-- The array spells the tree, and so does what is written for the tree. Neither is read as it. -/
theorem respelled_nested_not_read :
    let tree := oneValue (nestedArray 125)
    (∀ row ∈ tree.elements.rows, row.2.Ordered) ∧
      ∃ bytes, tree.toBytes = .ok bytes ∧ tree.IsSpelling bytes ∧ tree.IsSpelling nestedText ∧
        (Tree.ofBytes bytes : Except Error (Tree Json)) ≠ .ok tree ∧
        (Tree.ofBytes nestedText : Except Error (Tree Json)) ≠ .ok tree := by
  intro tree
  have ordered : ∀ row ∈ tree.elements.rows, row.2.Ordered := ordered_oneValue_nestedArray 125
  have itself : tree.IsSpelling (tree.toJson.print .lines) := isSpelling_print (.refl _) .lines
  have unread : ∀ document, tree.IsSpelling document →
      (Tree.ofBytes document : Except Error (Tree Json)) ≠ .ok tree := by
    intro document hspelling loaded
    exact not_shallow_nestedArray ((ofBytes_spelling_iff rfl ordered hspelling).1 loaded)
  exact ⟨ordered, _, rfl, itself, isSpelling_nestedText, unread _ itself,
    unread _ isSpelling_nestedText⟩

end Tree

end LogicTree
