import LogicTree.Proofs.Document.Records
import LogicTree.Proofs.Elements

/-! # Round trip of trees

Writing a tree fails exactly at the first number that is not finite. Otherwise the
document, with the elements in any order, is read as the tree.
-/

namespace LogicTree

open Json Json.Shape

/-! ## Numbers that have to be finite -/

/-- A number of a tree, outside its elements, and where it stands. -/
structure NumberField where
  level : Level
  branch : Branch
  /-- What messages call the number. -/
  role : String
  value : Float

/-- The complaint about a number that is not finite. -/
def NumberField.complaint (field : NumberField) : Error :=
  .invalidLevel field.level.number
    ("branch " ++ Text.ofNat field.branch.id.toNat ++ " has non-finite "
      ++ (field.role ++ " " ++ Text.ofFloat field.value))

/-- The number of a payload, in a role, if it is one. -/
def Payload.numbers (role : String) : Payload → List (String × Float)
  | .number value => [(role, value)]
  | _ => []

/-- The numbers of a branch with their roles: the weight, the value, the value of the
    rule. -/
def Branch.numbers (branch : Branch) : List (String × Float) :=
  ("weight", branch.weight) :: (branch.value.numbers "value"
    ++ branch.rule.toList.flatMap fun rule => rule.value.numbers "rule value")

/-- The numbers of a level, branch by branch. -/
def Level.numberFields (level : Level) : List NumberField :=
  level.branches.flatMap fun branch =>
    branch.numbers.map fun (role, value) => ⟨level, branch, role, value⟩

/-- The numbers of a tree, level by level. -/
def Tree.numberFields {E : Type} (tree : Tree E) : List NumberField :=
  tree.levels.flatMap Level.numberFields

/-- The first number of a tree that is not finite. -/
def Tree.firstNonFinite? {E : Type} (tree : Tree E) : Option NumberField :=
  tree.numberFields.find? fun field => !field.value.isFinite

theorem Payload.find?_numbers (payload : Payload) (role : String) :
    (payload.numbers role).find? (fun number => !number.2.isFinite) =
      payload.nonFinite?.map fun value => (role, value) := by
  cases payload with
  | text | integer | flag => rfl
  | number value => cases h : value.isFinite <;> simp [numbers, nonFinite?, h]

theorem Branch.nonFinite?_eq (branch : Branch) :
    branch.nonFinite? =
      (branch.numbers.find? fun number => !number.2.isFinite).map fun (role, value) =>
        role ++ " " ++ Text.ofFloat value := by
  cases hweight : branch.weight.isFinite with
  | false =>
      simp only [nonFinite?, numbers, hweight, List.find?_cons, Bool.not_false, ↓reduceIte]
      rfl
  | true =>
      simp only [nonFinite?, numbers, hweight, List.find?_cons, Bool.not_true, Bool.false_eq_true,
        ↓reduceIte, List.find?_append, Payload.find?_numbers, List.find?_flatMap]
      cases branch.value.nonFinite? with
      | some value => rfl
      | none =>
          cases branch.rule with
          | none => rfl
          | some rule =>
              cases hnumber : rule.value.nonFinite? with
              | none => simp [hnumber]
              | some value =>
                  simp only [Option.bind_some, hnumber, Option.toList_some, List.findSome?_cons]
                  rfl

theorem Level.nonFinite?_eq (level : Level) :
    level.nonFinite? =
      (level.numberFields.find? fun field => !field.value.isFinite).map
        NumberField.complaint := by
  rw [nonFinite?, numberFields, List.find?_flatMap, List.map_findSome?]
  congr 1
  funext branch
  rw [Branch.nonFinite?_eq, Function.comp_apply, List.find?_map, Option.map_map, Option.map_map]
  rfl

namespace Tree

variable {E : Type}

theorem requireFinite_eq (tree : Tree E) :
    tree.requireFinite =
      match tree.firstNonFinite? with
      | some field => .error field.complaint
      | none => .ok () := by
  have hfirst : tree.levels.findSome? Level.nonFinite? =
      tree.firstNonFinite?.map NumberField.complaint := by
    rw [firstNonFinite?, numberFields, List.find?_flatMap, List.map_findSome?]
    congr 1
    funext level
    exact level.nonFinite?_eq
  rw [requireFinite, hfirst]
  cases tree.firstNonFinite? <;> rfl

theorem levels_finite {tree : Tree E} (h : tree.firstNonFinite? = none) :
    ∀ level ∈ tree.levels, level.nonFinite? = none := by
  intro level hlevel
  rw [Level.nonFinite?_eq, Option.map_eq_none_iff, List.find?_eq_none]
  intro field hfield
  exact List.find?_eq_none.1 h field (List.mem_flatMap.2 ⟨level, hlevel, hfield⟩)

end Tree

/-! ## Documents -/

namespace Json

/-- The room that is left for an element of a tree: the tree and its table are around
    it. -/
def elementRoom : Nat := fullRoom - 2

variable {E : Type} [Writable E] [Readable E]

/-- An element is read back from a document of its own, given the room that it has in a
    tree. -/
def Survives (element : E) : Prop :=
  (Document.read ((Writable.toJson element).print .lines) .truncated).get
    (fun _ node => Readable.read elementRoom node) = .ok element

theorem survives_iff {element : E} :
    Survives element ↔
      Readable.read elementRoom (Writable.toJson element).node = .ok element := by
  rw [Survives, read_print, Document.get]
  cases Readable.read (α := E) elementRoom (Writable.toJson element).node <;>
    simp [bind, Except.bind, pure, Except.pure]

theorem survives_string (text : String) : Survives text :=
  survives_iff.2 rfl

theorem readRows_nodes {room : Nat} {rows : List (String × E)} (table : ElementTable E)
    (h : ∀ row ∈ rows, Readable.read room (Writable.toJson row.2).node = .ok row.2) :
    Node.readRows Readable.read room
        (rows.map fun row => (some row.1, (Writable.toJson row.2).node)) table =
      .ok (rows.foldl (fun table row => table.insert row.1 row.2) table) := by
  induction rows generalizing table with
  | nil => rfl
  | cons row rows ih =>
      obtain ⟨hrow, hrows⟩ := List.forall_mem_cons.1 h
      rw [List.map_cons, Node.readRows, hrow]
      exact ih _ hrows

theorem readRows_of_test (good : E → Prop) [DecidablePred good] {problem : Problem} {room : Nat}
    {rows : List (String × E)}
    (h : ∀ row ∈ rows, Readable.read room (Writable.toJson row.2).node =
      if good row.2 then .ok row.2 else .error problem) (table : ElementTable E) :
    Node.readRows Readable.read room
        (rows.map fun row => (some row.1, (Writable.toJson row.2).node)) table =
      if ∀ row ∈ rows, good row.2 then
        .ok (rows.foldl (fun table row => table.insert row.1 row.2) table)
      else .error problem := by
  induction rows generalizing table with
  | nil => rfl
  | cons row rows ih =>
      obtain ⟨hrow, hrows⟩ := List.forall_mem_cons.1 h
      rw [List.map_cons, Node.readRows, hrow]
      by_cases pass : good row.2
      · simp only [pass, if_true, bind, Except.bind, ih hrows, List.forall_mem_cons, true_and,
          List.foldl_cons]
      · simp only [pass, if_false, bind, Except.bind, List.forall_mem_cons, false_and]

/-- The node of a table of elements. -/
def elementsNode (rows : List (String × E)) : Node :=
  (Json.object (rows.map fun row => (row.1, Writable.toJson row.2))).node

omit [Readable E] in
theorem readTable_elementsNode {α : Type} (read : Nat → Node → Reading α) (room : Nat)
    (rows : List (String × E)) :
    Node.readTable read (room + 2) (elementsNode rows) =
      Node.readRows read (room + 1)
        (rows.map fun row => (some row.1, (Writable.toJson row.2).node)) ∅ := by
  have hmembers : memberNodes (rows.map fun row => (row.1, Writable.toJson row.2)) =
      rows.map fun row => (some row.1, (Writable.toJson row.2).node) := by
    rw [memberNodes_eq_map, List.map_map]
    rfl
  simp only [elementsNode, node, hmembers, Node.readTable, enter, close, bind, Except.bind, pure,
    Except.pure]
  cases Node.readRows read (room + 1)
    (rows.map fun row => (some row.1, (Writable.toJson row.2).node)) ∅ <;> rfl

theorem readTable_node {room : Nat} {rows : List (String × E)}
    (h : ∀ row ∈ rows, Readable.read (room + 1) (Writable.toJson row.2).node = .ok row.2) :
    Node.readTable Readable.read (room + 2) (elementsNode rows) =
      .ok (ElementTable.ofList rows) := by
  rw [readTable_elementsNode, readRows_nodes ∅ h]
  rfl

end Json

namespace Tree

variable {E : Type} [Writable E]

/-- The document of a tree with its elements in the order of a list of rows, as a hash map
    may give them. -/
def toBytesWith (tree : Tree E) (rows : List (String × E)) : Except Error Bytes := do
  tree.requireFinite
  return (tree.toJsonWith rows).print .lines

theorem toBytesWith_eq (tree : Tree E) (rows : List (String × E)) :
    tree.toBytesWith rows =
      match tree.firstNonFinite? with
      | some field => .error field.complaint
      | none => .ok ((tree.toJsonWith rows).print .lines) := by
  rw [toBytesWith, requireFinite_eq]
  cases tree.firstNonFinite? <;> rfl

variable [Readable E]

theorem read_toJsonWith {tree : Tree E} (finite : tree.firstNonFinite? = none)
    (rows : List (String × E)) :
    (Tree.shape (E := E)).read fullRoom (tree.toJsonWith rows).node =
      (Node.readTable Readable.read 127 (elementsNode rows)).map
        fun table => { tree with elements := table } := by
  have hlevels : Node.readArray Level.shape.read 127
      (Json.array (tree.levels.map Level.toJson)).node = .ok tree.levels := by
    have hspelled := spells_map Level.spells_toJson tree.levels
    rw [← Markup.node_ofJson]
    exact readArray_spelled hspelled fun level hlevel item hspells =>
      Level.read_spells (levels_finite finite level hlevel) hspells 120
  have hmembers : (Tree.shape (E := E)).readMembers 127
      [(some "model_name", .string (some tree.modelName)),
        (some "levels", (Json.array (tree.levels.map Level.toJson)).node),
        (some "elements", elementsNode rows)] {} =
        (Node.readTable Readable.read 127 (elementsNode rows)).map
          fun table => ⟨some tree.modelName, some tree.levels, some table⟩ := by
    rw [readMembers_cons rfl rfl (read_slot rfl _), readMembers_cons rfl rfl (read_slot hlevels _),
      readMembers_last rfl rfl]
    rfl
  refine (read_object_eq _).trans ?_
  refine (congrArg (· >>= (Tree.shape (E := E)).finish _) hmembers).trans ?_
  cases Node.readTable (α := E) Readable.read 127 (elementsNode rows) <;> rfl

omit [Writable E] in
theorem shape_independent : (Tree.shape (E := E)).Independent where
  apart := by
    change List.Pairwise _ [_, _, _]
    simp only [List.pairwise_cons, List.forall_mem_cons, List.not_mem_nil, false_implies,
      implies_true, and_true, List.Pairwise.nil]
    refine ⟨⟨?_, ?_⟩, ?_⟩
    all_goals exact apart_slot (fun _ _ => rfl) (fun _ _ => rfl) fun _ _ _ => rfl
  fills := by
    change ∀ field ∈ [_, _, _], _
    simp only [List.forall_mem_cons, List.not_mem_nil, false_implies, implies_true, and_true]
    refine ⟨?_, ?_, ?_⟩
    all_goals exact fills_slot fun _ _ => rfl

theorem read_spells {tree : Tree E} (finite : tree.firstNonFinite? = none)
    (survive : ∀ row ∈ tree.elements.rows, Survives row.2) {markup : Markup}
    (h : tree.Spells markup) : Tree.shape.read fullRoom markup.node = .ok tree := by
  obtain ⟨levels, rows, hlevels, perm, htext⟩ := h
  have readLevels : Node.readArray Level.shape.read 127 (Markup.array levels).node =
      .ok tree.levels := by
    refine readArray_spelled hlevels fun level hlevel item hspells => ?_
    exact Level.read_spells (levels_finite finite level hlevel) hspells 120
  have hrows : ∀ row ∈ rows, Readable.read elementRoom (Writable.toJson row.2).node = .ok row.2 :=
    fun row hrow => survives_iff.1 (survive row (perm.mem_iff.1 hrow))
  have readElements : Node.readTable Readable.read 127
      (Markup.ofJson (.object (rows.map fun row => (row.1, Writable.toJson row.2)))).node =
        .ok tree.elements := by
    rw [Markup.node_ofJson, ← ElementTable.ofList_of_perm perm]
    exact readTable_node hrows
  have hitems : readItems 127 (Tree.shape (E := E)).fields
      ((tree.fields levels rows).map fun field => field.2.node) {} =
        .ok ⟨some tree.modelName, some tree.levels, some tree.elements⟩ := by
    refine (readItems_cons (read_slot rfl _)).trans ?_
    refine (readItems_cons (read_slot readLevels _)).trans ?_
    exact readItems_cons (read_slot readElements _)
  have hmembers : (Tree.shape (E := E)).readMembers 127
      ((tree.fields levels rows).map fun field => (some field.1, field.2.node)) {} =
        .ok ⟨some tree.modelName, some tree.levels, some tree.elements⟩ := by
    refine (readMembers_cons rfl rfl (read_slot rfl _) _).trans ?_
    refine (readMembers_cons rfl rfl (read_slot readLevels _) _).trans ?_
    refine (readMembers_cons rfl rfl (read_slot readElements _) _).trans ?_
    rfl
  exact read_recordText shape_independent htext rfl hitems hmembers (fun _ => rfl) fun _ => rfl

theorem read_node {tree : Tree E} (finite : tree.firstNonFinite? = none)
    (survive : ∀ row ∈ tree.elements.rows, Survives row.2) {rows : List (String × E)}
    (perm : rows.Perm tree.elements.rows) :
    Tree.shape.read fullRoom (tree.toJsonWith rows).node = .ok tree := by
  rw [← Markup.node_ofJson]
  exact read_spells finite survive (spells_toJsonWith perm)

omit [Writable E] in
theorem ofBytes_spaced {markup : Markup} {text : Bytes} (h : Spaced markup.marks text) :
    (Tree.ofBytes text : Except Error (Tree E)) =
      (Tree.shape.read fullRoom markup.node).mapError .document := by
  rw [Tree.ofBytes, Tree.readFrom, read_spaced h, Document.get]
  cases Tree.shape.read (σ := Draft E) fullRoom markup.node <;> rfl

theorem ofBytes_print (tree : Tree E) (rows : List (String × E)) :
    (Tree.ofBytes ((tree.toJsonWith rows).print .lines) : Except Error (Tree E)) =
      (Tree.shape.read fullRoom (tree.toJsonWith rows).node).mapError .document := by
  rw [← Markup.node_ofJson]
  exact ofBytes_spaced (spaced_printAt .lines 0 _)

/-- Every spelling of a tree is read as the tree, as long as its elements are read back. -/
theorem ofBytes_of_isSpelling {tree : Tree E} (finite : tree.firstNonFinite? = none)
    (survive : ∀ row ∈ tree.elements.rows, Survives row.2) {text : Bytes}
    (h : tree.IsSpelling text) : Tree.ofBytes text = .ok tree := by
  obtain ⟨markup, spells, spaced⟩ := h
  rw [ofBytes_spaced spaced, read_spells finite survive spells]
  rfl

theorem ofBytes_toJson {tree : Tree E} (finite : tree.firstNonFinite? = none)
    (survive : ∀ row ∈ tree.elements.rows, Survives row.2) :
    Tree.ofBytes (tree.toJson.print .lines) = .ok tree := by
  rw [toJson, ofBytes_print, read_node finite survive (.refl _)]
  rfl

/-- Where each element is read back or gives one and the same problem, a tree that was written is
    read back if all are, and gives that problem otherwise. -/
theorem ofBytes_of_test {tree : Tree E} (good : E → Prop) [DecidablePred good] {problem : Problem}
    {rows : List (String × E)} {bytes : Bytes} (perm : rows.Perm tree.elements.rows)
    (written : tree.toBytesWith rows = .ok bytes)
    (h : ∀ row ∈ tree.elements.rows, Readable.read elementRoom (Writable.toJson row.2).node =
      if good row.2 then .ok row.2 else .error problem) :
    tree.firstNonFinite? = none ∧
      (Tree.ofBytes bytes : Except Error (Tree E)) =
        if ∀ row ∈ tree.elements.rows, good row.2 then .ok tree else .error (.document problem) := by
  rw [toBytesWith_eq] at written
  cases finite : tree.firstNonFinite? with
  | some field =>
      rw [finite] at written
      cases written
  | none =>
      rw [finite] at written
      cases written
      refine ⟨rfl, ?_⟩
      have hrows : ∀ row ∈ rows, Readable.read (125 + 1) (Writable.toJson row.2).node =
          if good row.2 then .ok row.2 else .error problem :=
        fun row hrow => h row (perm.mem_iff.1 hrow)
      rw [ofBytes_print, read_toJsonWith finite, readTable_elementsNode, readRows_of_test good hrows]
      simp only [perm.mem_iff]
      split
      · change Except.ok { tree with elements := ElementTable.ofList rows } = _
        rw [ElementTable.ofList_of_perm perm]
      · rfl

/-- Writing a tree fails if and only if one of its numbers is not finite, and then with
    the complaint about the first of them. Otherwise the document is read as the tree, as
    long as its elements survive documents of their own, in whatever order the document
    lists them. -/
theorem ofBytes_toBytes {tree : Tree E} (survive : ∀ row ∈ tree.elements.rows, Survives row.2)
    {rows : List (String × E)} (perm : rows.Perm tree.elements.rows) :
    tree.toBytes = tree.toBytesWith tree.elements.rows ∧
    (∀ failure, tree.toBytesWith rows = .error failure ↔
      ∃ field, tree.firstNonFinite? = some field ∧ failure = field.complaint) ∧
    ((∃ failure, tree.toBytesWith rows = .error failure) ↔
      ∃ field ∈ tree.numberFields, field.value.isFinite = false) ∧
    ((∀ field ∈ tree.numberFields, field.value.isFinite = true) →
      ∃ bytes, tree.toBytesWith rows = .ok bytes ∧ Tree.ofBytes bytes = .ok tree) := by
  refine ⟨rfl, ?_⟩
  rw [toBytesWith_eq]
  cases hfirst : tree.firstNonFinite? with
  | some field =>
      have hfield : field ∈ tree.numberFields := List.mem_of_find?_eq_some hfirst
      have hvalue : field.value.isFinite = false := by simpa using List.find?_some hfirst
      refine ⟨fun failure => ?_, ?_, fun hfinite => ?_⟩
      · simp [eq_comm]
      · exact ⟨fun _ => ⟨field, hfield, hvalue⟩, fun _ => ⟨field.complaint, rfl⟩⟩
      · rw [hfinite field hfield] at hvalue
        cases hvalue
  | none =>
      have hfinite : ∀ field ∈ tree.numberFields, field.value.isFinite = true := by
        simpa using List.find?_eq_none.1 hfirst
      refine ⟨by simp, ?_, fun _ => ⟨_, rfl, ?_⟩⟩
      · constructor
        · rintro ⟨failure, hfailure⟩
          cases hfailure
        · rintro ⟨field, hfield, hvalue⟩
          rw [hfinite field hfield] at hvalue
          cases hvalue
      · rw [Tree.ofBytes, Tree.readFrom, read_print, Document.get, read_node hfirst survive perm]
        rfl

/-- Two elements, in the order of their labels. -/
def leftAndRight : ElementTable String where
  rows := [("1", "left"), ("2", "right")]
  increase := by
    unfold KeysIncrease
    decide

/-- A tree with a negative zero, the least positive number and two elements. -/
def twoElements : Tree String where
  modelName := "model"
  levels := [⟨0, "level", "all", [⟨1, -0.0, .integer (-3), some ⟨"rule", .number (.ofBits 1)⟩, none⟩]⟩]
  elements := leftAndRight

theorem ofBytes_toBytes_twoElements :
    let rows := [("2", "right"), ("1", "left")]
    (∀ row ∈ twoElements.elements.rows, Survives row.2) ∧ rows.Perm twoElements.elements.rows ∧
      ∃ bytes, twoElements.toBytesWith rows = .ok bytes ∧ Tree.ofBytes bytes = .ok twoElements := by
  intro rows
  have survive : ∀ row ∈ twoElements.elements.rows, Survives row.2 :=
    fun row _ => survives_string row.2
  have perm : rows.Perm twoElements.elements.rows := .swap _ _ []
  have finite : ∀ field ∈ twoElements.numberFields, field.value.isFinite = true := by decide
  exact ⟨survive, perm, (ofBytes_toBytes survive perm).2.2.2 finite⟩

end Tree

end LogicTree
