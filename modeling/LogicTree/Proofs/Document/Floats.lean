import LogicTree.Proofs.Document.RoundTrip
import LogicTree.Proofs.Float64.Order

/-! # Trees with numbers for elements

Elements are written without a look at what they are. JSON has no word for a number that is not
finite, and an element that is one is written as null; no such document is read again. Trees with
finite elements are read as they were, and agree with themselves.
-/

namespace LogicTree

open Json

/-! ## Reading numbers back -/

namespace Json

/-- The problem with a document that holds null where a number is wanted. -/
def nullForNumber : Problem := .mismatch (.wrongType .null "f64")

theorem read_toJson_float (room : Nat) (value : Float) :
    Readable.read room (Writable.toJson value).node =
      if value.isFinite then .ok value else .error nullForNumber := by
  change (Json.ofFloat value).node.readFloat = _
  split
  next finite => exact readFloat_node finite
  next infinite =>
    rw [Json.ofFloat, JsonNumber.ofFloat?, dif_neg infinite]
    rfl

theorem readRows_numbers {room : Nat} (rows : List (String × Float)) (table : ElementTable Float) :
    Node.readRows Readable.read room
        (rows.map fun row => (some row.1, (Writable.toJson row.2).node)) table =
      if ∀ row ∈ rows, row.2.isFinite = true then
        .ok (rows.foldl (fun table row => table.insert row.1 row.2) table)
      else .error nullForNumber :=
  readRows_of_test (fun value => value.isFinite = true) (fun row _ => read_toJson_float room row.2) table

end Json

/-! ## Trees that agree with themselves -/

theorem all_zip_self {α : Type} {same : α → α → Bool} {values : List α}
    (h : ∀ value ∈ values, same value value = true) :
    (values.zip values).all (fun pair => same pair.1 pair.2) = true := by
  induction values with
  | nil => rfl
  | cons value values ih =>
      obtain ⟨hvalue, hvalues⟩ := List.forall_mem_cons.1 h
      simp [hvalue, ih hvalues]

theorem Payload.agrees_self {payload : Payload} (finite : payload.nonFinite? = none) :
    payload.agrees payload = true := by
  cases payload with
  | text | integer | flag => simp [agrees]
  | number value =>
      have hvalue : value.isFinite = true := by
        by_contra hnot
        simp [nonFinite?, hnot] at finite
      exact Float64.beq_self_of_isNumber (Float64.isNumber_of_isFinite hvalue)

theorem Branch.agrees_self {branch : Branch} (finite : branch.nonFinite? = none) :
    branch.agrees branch = true := by
  obtain ⟨hweight, hvalue, hrule⟩ := nonFinite?_eq_none_iff.1 finite
  have hweight := Float64.beq_self_of_isNumber (Float64.isNumber_of_isFinite hweight)
  cases hnamed : branch.rule with
  | none => simp [agrees, hweight, Payload.agrees_self hvalue, hnamed]
  | some rule =>
      have hpayload := Payload.agrees_self (hrule rule hnamed)
      simp [agrees, hweight, Payload.agrees_self hvalue, hnamed, Rule.agrees, hpayload]

theorem Level.agrees_self {level : Level} (finite : level.nonFinite? = none) :
    level.agrees level = true := by
  have hbranches : (level.branches.zip level.branches).all
      (fun pair => pair.1.agrees pair.2) = true :=
    all_zip_self fun branch hbranch =>
      Branch.agrees_self (nonFinite?_eq_none_iff.1 finite branch hbranch)
  simp [agrees, hbranches]

namespace Tree

theorem agrees_self_of_elements {E : Type} {tree : Tree E} {same : E → E → Bool}
    (finite : tree.firstNonFinite? = none)
    (elements : ∀ row ∈ tree.elements.rows, same row.2 row.2 = true) :
    tree.agrees same tree = true := by
  have hlevels : (tree.levels.zip tree.levels).all (fun pair => pair.1.agrees pair.2) = true :=
    all_zip_self fun level hlevel => Level.agrees_self (levels_finite finite level hlevel)
  have helements : (tree.elements.elements.zip tree.elements.elements).all
      (fun pair => same pair.1 pair.2) = true := by
    refine all_zip_self fun element helement => ?_
    obtain ⟨row, hrow, rfl⟩ := List.mem_map.1 helement
    exact elements row hrow
  simp [agrees, ElementTable.agrees, hlevels, helements]

theorem agrees_self {tree : Tree Float} (finite : tree.firstNonFinite? = none)
    (elements : ∀ row ∈ tree.elements.rows, row.2.isFinite = true) :
    tree.agrees (· == ·) tree = true :=
  agrees_self_of_elements finite fun row hrow =>
    Float64.beq_self_of_isNumber (Float64.isNumber_of_isFinite (elements row hrow))

/-! ## Round trip -/

/-- The document of a tree of numbers is read as the tree, which it equals, exactly if all its
    elements are finite. Otherwise it is refused for the null that stands for the first that is
    not. -/
theorem ofBytes_toBytes_numbers {tree : Tree Float} {rows : List (String × Float)} {bytes : Bytes}
    (perm : rows.Perm tree.elements.rows) (written : tree.toBytesWith rows = .ok bytes) :
    (Tree.ofBytes bytes : Except Error (Tree Float)) =
        (if ∀ row ∈ tree.elements.rows, row.2.isFinite = true then .ok tree
          else .error (.document nullForNumber)) ∧
      ((∀ row ∈ tree.elements.rows, row.2.isFinite = true) →
        tree.agrees (· == ·) tree = true) := by
  rw [toBytesWith_eq] at written
  cases finite : tree.firstNonFinite? with
  | some field =>
      rw [finite] at written
      cases written
  | none =>
      rw [finite] at written
      cases written
      refine ⟨?_, agrees_self finite⟩
      rw [ofBytes_print, read_toJsonWith finite, readTable_elementsNode, readRows_numbers]
      simp only [perm.mem_iff]
      split
      · change Except.ok { tree with elements := ElementTable.ofList rows } = _
        rw [ElementTable.ofList_of_perm perm]
      · rfl

/-- A tree of one element. -/
def oneElement (element : Float) : Tree Float where
  modelName := ""
  levels := []
  elements := ⟨[("1", element)], List.pairwise_singleton _ _⟩

theorem ofBytes_toBytes_numbers_half :
    let tree := oneElement 0.5
    tree.elements.rows.Perm tree.elements.rows ∧
      ∃ bytes, tree.toBytesWith tree.elements.rows = .ok bytes ∧ Tree.ofBytes bytes = .ok tree ∧
        tree.agrees (· == ·) tree = true := by
  intro tree
  have perm : tree.elements.rows.Perm tree.elements.rows := .refl _
  have written : tree.toBytesWith tree.elements.rows =
      .ok ((tree.toJsonWith tree.elements.rows).print .lines) := rfl
  have finite : ∀ row ∈ tree.elements.rows, row.2.isFinite = true := by decide
  obtain ⟨hread, hagrees⟩ := ofBytes_toBytes_numbers perm written
  rw [if_pos finite] at hread
  exact ⟨perm, _, written, hread, hagrees finite⟩

/-- An infinite element is written, and what is written is not read. -/
theorem infinite_element_not_read :
    ∃ bytes, (oneElement (1.0 / 0.0)).toBytes = .ok bytes ∧
      (Tree.ofBytes bytes : Except Error (Tree Float)) =
        .error (.document (.mismatch (.wrongType .null "f64"))) := by
  refine ⟨_, rfl, ?_⟩
  rw [toJson, ofBytes_print]
  rfl

end Tree

end LogicTree
