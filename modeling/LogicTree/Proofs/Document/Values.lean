import LogicTree.Proofs.Document.Floats
import LogicTree.Proofs.Json.Nesting

/-! # Trees with values for elements

Elements of any shape are written, however deep they nest. Reading counts levels of nesting, the
tree and its table of elements among them, and refuses a text that goes beyond its limit. So a tree
that was written is read back exactly if none of its elements nests too deep.
-/

namespace LogicTree

open Json

theorem Json.read_element {element : Json} (ordered : element.Ordered) :
    Readable.read elementRoom (Writable.toJson element).node =
      if element.nesting < elementRoom then .ok element else .error tooDeep := by
  have fits : element.nesting ≤ 125 ↔ element.nesting < elementRoom := Nat.lt_succ_iff.symm
  simp only [← fits]
  exact readValue_node ordered 125

namespace Tree

/-- The document of a tree of values is read as the tree, which it equals, exactly if no element
    nests beyond the room that is left for it. Otherwise it is refused as malformed. -/
theorem ofBytes_toBytes_values {tree : Tree Json}
    (ordered : ∀ row ∈ tree.elements.rows, row.2.Ordered) {rows : List (String × Json)}
    {bytes : Bytes} (perm : rows.Perm tree.elements.rows)
    (written : tree.toBytesWith rows = .ok bytes) :
    (Tree.ofBytes bytes : Except Error (Tree Json)) =
        (if ∀ row ∈ tree.elements.rows, row.2.nesting < elementRoom then .ok tree
          else .error (.document tooDeep)) ∧
      tree.agrees Json.agrees tree = true := by
  obtain ⟨finite, read⟩ :=
    ofBytes_of_test (fun value => value.nesting < elementRoom) perm written
      fun row hrow => read_element (ordered row hrow)
  exact ⟨read, agrees_self_of_elements finite fun row _ => Json.agrees_self row.2⟩

/-- A tree of one element. -/
def oneValue (element : Json) : Tree Json where
  modelName := ""
  levels := []
  elements := ⟨[("1", element)], List.pairwise_singleton _ _⟩

/-- An object of an array and an object. -/
def mixedValue : Json :=
  .object [("a", .array [.string "x", .object [("b", .null)]]), ("c", .object [])]

theorem ofBytes_toBytes_values_mixed :
    let tree := oneValue mixedValue
    (∀ row ∈ tree.elements.rows, row.2.Ordered) ∧ tree.elements.rows.Perm tree.elements.rows ∧
      ∃ bytes, tree.toBytesWith tree.elements.rows = .ok bytes ∧ Tree.ofBytes bytes = .ok tree ∧
        tree.agrees Json.agrees tree = true := by
  intro tree
  have ordered : ∀ row ∈ tree.elements.rows, row.2.Ordered := by
    have keys : KeysIncrease [("a", Json.array [.string "x", .object [("b", .null)]]),
        ("c", .object [])] := by
      unfold KeysIncrease
      decide
    intro row hrow
    obtain rfl := List.mem_singleton.1 hrow
    simp only [mixedValue, Ordered, MembersOrdered, ItemsOrdered, and_true, true_and]
    exact ⟨keys, List.pairwise_singleton _ _, .nil⟩
  have perm : tree.elements.rows.Perm tree.elements.rows := .refl _
  have written : tree.toBytesWith tree.elements.rows =
      .ok ((tree.toJsonWith tree.elements.rows).print .lines) := rfl
  obtain ⟨read, agrees⟩ := ofBytes_toBytes_values ordered perm written
  have shallow : ∀ row ∈ tree.elements.rows, row.2.nesting < elementRoom := by decide
  rw [if_pos shallow] at read
  exact ⟨ordered, perm, _, written, read, agrees⟩

/-- Empty arrays, one inside the other. -/
def nestedArray : Nat → Json
  | 0 => .array []
  | depth + 1 => .array [nestedArray depth]

theorem nesting_nestedArray (depth : Nat) : (nestedArray depth).nesting = depth + 1 := by
  induction depth with
  | zero => rfl
  | succ depth ih => rw [nestedArray, nesting, itemsNesting, itemsNesting, ih, Nat.max_zero]

theorem ordered_nestedArray (depth : Nat) : (nestedArray depth).Ordered := by
  induction depth with
  | zero => simp [nestedArray, Ordered, ItemsOrdered]
  | succ depth ih => simp [nestedArray, Ordered, ItemsOrdered, ih]

theorem ordered_oneValue_nestedArray (depth : Nat) :
    ∀ row ∈ (oneValue (nestedArray depth)).elements.rows, row.2.Ordered := by
  intro row hrow
  obtain rfl := List.mem_singleton.1 hrow
  exact ordered_nestedArray depth

theorem not_shallow_nestedArray :
    ¬ ∀ row ∈ (oneValue (nestedArray 125)).elements.rows, row.2.nesting < elementRoom := by
  intro shallow
  have bound := shallow _ (List.mem_singleton.2 rfl)
  rw [nesting_nestedArray] at bound
  exact absurd bound (by decide)

/-- An element of a hundred and twenty-six arrays is written, and what is written is not read. -/
theorem nested_element_not_read :
    let tree := oneValue (nestedArray 125)
    let document := tree.toJson.print .lines
    (∀ row ∈ tree.elements.rows, row.2.Ordered) ∧ tree.toBytes = .ok document ∧
      (Tree.ofBytes document : Except Error (Tree Json)) =
        .error (.document (.fault .malformed)) := by
  intro tree document
  have ordered : ∀ row ∈ tree.elements.rows, row.2.Ordered := ordered_oneValue_nestedArray 125
  have written : tree.toBytesWith tree.elements.rows = .ok document := rfl
  obtain ⟨-, read⟩ := ofBytes_of_test (fun value => value.nesting < elementRoom) (.refl _) written
    fun row hrow => read_element (ordered row hrow)
  rw [if_neg not_shallow_nestedArray] at read
  exact ⟨ordered, written, read⟩

end Tree

end LogicTree
