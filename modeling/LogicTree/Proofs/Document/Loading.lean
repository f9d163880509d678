import LogicTree.Proofs.Document.Floats
import LogicTree.Proofs.Json.Values

/-! # Loading trees

Whatever the spelling of a document, a tree that is read from it has finite numbers only, and with
elements of any sort these nest no deeper than a document has room for. So a loaded tree is written
without complaint, and the document that is written is read as the same tree.
-/

namespace LogicTree

open Json

/-! ## What reading keeps -/

namespace Json

section Keeping

variable {σ α : Type} {shape : Shape σ α} {holds : σ → Prop} {room : Nat} {draft next : σ}

/-- Reading a field into a draft keeps what holds of the draft. -/
def Field.Keeps (field : Field σ) (room : Nat) (holds : σ → Prop) : Prop :=
  ∀ node draft next, field.read room node draft = .ok next → holds draft → holds next

theorem keeps_slot {β : Type} {name : String} {get : σ → Option β} {set : σ → β → σ}
    {read : Nat → Node → Reading β}
    (h : ∀ node value, read room node = .ok value → ∀ draft, holds draft → holds (set draft value)) :
    (Field.slot name get set read).Keeps room holds := by
  intro node draft next hread hdraft
  obtain ⟨value, hvalue, rfl⟩ := map_eq_ok_iff.1 hread
  exact h node value hvalue draft hdraft

theorem Shape.readMembers_keeps (keeps : ∀ field ∈ shape.fields, field.Keeps room holds)
    {members : List (Option String × Node)} (h : shape.readMembers room members draft = .ok next)
    (hdraft : holds draft) : holds next := by
  induction members generalizing draft with
  | nil =>
      cases h
      exact hdraft
  | cons member members ih =>
      obtain ⟨key, node⟩ := member
      cases key with
      | none => cases h
      | some key =>
          rw [readMembers] at h
          split at h
          next =>
            obtain ⟨_, -, hrest⟩ := bind_eq_ok_iff.1 h
            exact ih hrest hdraft
          next field hfound =>
            split at h
            · cases h
            · obtain ⟨between, hfield, hrest⟩ := bind_eq_ok_iff.1 h
              have hmem := List.mem_of_find?_eq_some hfound
              exact ih hrest (keeps field hmem node draft between hfield hdraft)

theorem Shape.readItems_keeps {fields : List (Field σ)}
    (keeps : ∀ field ∈ fields, field.Keeps room holds) {items : List Node}
    (h : Shape.readItems room fields items draft = .ok next) (hdraft : holds draft) : holds next := by
  induction fields generalizing items draft with
  | nil =>
      cases items with
      | nil =>
          cases h
          exact hdraft
      | cons item items => cases h
  | cons field fields ih =>
      obtain ⟨hfield, hfields⟩ := List.forall_mem_cons.1 keeps
      cases items with
      | nil =>
          cases h
          exact hdraft
      | cons item items =>
          rw [readItems] at h
          obtain ⟨between, hread, hrest⟩ := bind_eq_ok_iff.1 h
          exact ih hfields hrest (hfield item draft between hread hdraft)

/-- A record is finished from a draft of which all holds that the fields keep. -/
theorem Shape.draft_of_read
    (keeps : ∀ inner, enter room = .ok inner → ∀ field ∈ shape.fields, field.Keeps inner holds)
    (hdraft : holds shape.draft) {node : Node} {value : α} (h : shape.read room node = .ok value) :
    ∃ absent draft, holds draft ∧ shape.finish absent draft = .ok value := by
  unfold Shape.read at h
  split at h
  · obtain ⟨inner, hroom, h⟩ := bind_eq_ok_iff.1 h
    obtain ⟨draft, hmembers, h⟩ := bind_eq_ok_iff.1 h
    obtain ⟨_, -, hfinish⟩ := bind_eq_ok_iff.1 h
    exact ⟨_, draft, readMembers_keeps (keeps inner hroom) hmembers hdraft, hfinish⟩
  · obtain ⟨inner, hroom, h⟩ := bind_eq_ok_iff.1 h
    obtain ⟨draft, hitems, h⟩ := bind_eq_ok_iff.1 h
    obtain ⟨_, -, hfinish⟩ := bind_eq_ok_iff.1 h
    exact ⟨_, draft, readItems_keeps (keeps inner hroom) hitems hdraft, hfinish⟩
  · cases h

theorem Document.get_eq_ok_iff {read : Nat → Node → Reading α} {document : Document} {value : α} :
    document.get read = .ok value ↔
      read fullRoom document.root = .ok value ∧ document.rest = none := by
  rw [Document.get, bind_eq_ok_iff]
  cases document.rest <;> simp [pure_eq_ok, throw_eq_error]

theorem require_eq_ok_iff {absent : String → Problem} {name : String} {slot : Option α} {value : α} :
    require absent name slot = .ok value ↔ slot = some value := by
  cases slot <;> simp [require]

end Keeping

namespace Node

variable {α : Type} {read : Nat → Node → Reading α} {good : α → Prop} {room : Nat}

theorem forall_of_readItems (h : ∀ node value, read room node = .ok value → good value)
    {items : List Node} {values : List α} (hread : readItems read room items = .ok values) :
    ∀ value ∈ values, good value := by
  induction items generalizing values with
  | nil =>
      cases hread
      exact nofun
  | cons item items ih =>
      rw [readItems] at hread
      simp only [bind_eq_ok_iff, pure, Except.pure, Except.ok.injEq] at hread
      obtain ⟨value, hvalue, rest, hrest, rfl⟩ := hread
      exact List.forall_mem_cons.2 ⟨h item value hvalue, ih hrest⟩

theorem forall_of_readArray (h : ∀ room node value, read room node = .ok value → good value)
    {node : Node} {values : List α} (hread : readArray read room node = .ok values) :
    ∀ value ∈ values, good value := by
  unfold readArray at hread
  split at hread
  · simp only [bind_eq_ok_iff, pure, Except.pure, Except.ok.injEq] at hread
    obtain ⟨inner, -, _, hitems, _, -, rfl⟩ := hread
    exact forall_of_readItems (h inner) hitems
  · cases hread

theorem forall_of_readOptional (h : ∀ node value, read room node = .ok value → good value)
    {node : Node} {found : Option α} (hread : readOptional read room node = .ok found) :
    ∀ value, found = some value → good value := by
  unfold readOptional at hread
  split at hread
  · cases hread
    exact nofun
  · obtain ⟨value, hvalue, rfl⟩ := map_eq_ok_iff.1 hread
    rintro _ ⟨⟩
    exact h _ value hvalue

theorem forall_of_readRows (h : ∀ node value, read room node = .ok value → good value)
    {members : List (Option String × Node)} {table found : ElementTable α}
    (hread : readRows read room members table = .ok found)
    (htable : ∀ row ∈ table.rows, good row.2) : ∀ row ∈ found.rows, good row.2 := by
  induction members generalizing table with
  | nil =>
      cases hread
      exact htable
  | cons member members ih =>
      obtain ⟨key, node⟩ := member
      cases key with
      | none => cases hread
      | some key =>
          rw [readRows] at hread
          obtain ⟨value, hvalue, hrest⟩ := bind_eq_ok_iff.1 hread
          refine ih hrest fun row hrow => ?_
          rcases mem_putRow hrow with rfl | hold
          · exact h node value hvalue
          · exact htable row hold

theorem forall_of_readTable {inner : Nat} (hroom : enter room = .ok inner)
    (h : ∀ node value, read inner node = .ok value → good value) {node : Node}
    {table : ElementTable α} (hread : readTable read room node = .ok table) :
    ∀ row ∈ table.rows, good row.2 := by
  unfold readTable at hread
  split at hread
  · simp only [bind_eq_ok_iff, pure, Except.pure, Except.ok.injEq] at hread
    obtain ⟨entered, hentered, found, hrows, _, -, rfl⟩ := hread
    obtain rfl := Except.ok.inj (hroom.symm.trans hentered)
    exact forall_of_readRows h hrows (List.forall_mem_nil _)
  · cases hread

theorem isFinite_of_readFloat {node : Node} {value : Float} (h : node.readFloat = .ok value) :
    value.isFinite = true := by
  unfold readFloat at h
  split at h
  next number =>
    obtain rfl := Except.ok.inj h
    exact number.isFinite_toFloat
  next => cases h

end Node

end Json

/-! ## Records that have been read -/

namespace Payload

theorem finite_of_readPayload {kind : PayloadKind} {node : Node} {payload : Payload}
    (h : kind.readPayload node = .ok payload) : payload.nonFinite? = none := by
  cases kind with
  | text | integer | flag =>
      obtain ⟨_, -, rfl⟩ := map_eq_ok_iff.1 h
      rfl
  | number =>
      obtain ⟨value, hvalue, rfl⟩ := map_eq_ok_iff.1 h
      exact if_pos (Node.isFinite_of_readFloat hvalue)

/-- A payload that is complete is finite. -/
def Draft.Finite (draft : Draft) : Prop :=
  ∀ payload, draft = .both payload → payload.nonFinite? = none

theorem finite_of_readMembers {room : Nat} {members : List (Option String × Node)}
    {draft next : Draft} (h : readMembers room members draft = .ok next) (hdraft : draft.Finite) :
    next.Finite := by
  induction members, draft using readMembers.induct with
  | case1 draft =>
      cases h
      exact hdraft
  | case2 node members draft => cases h
  | case3 node members ih =>
      obtain ⟨kind, -, hrest⟩ := bind_eq_ok_iff.1 h
      exact ih kind hrest nofun
  | case4 node members value ih =>
      obtain ⟨kind, -, hrest⟩ := bind_eq_ok_iff.1 h
      obtain ⟨payload, hpayload, hrest⟩ := bind_eq_ok_iff.1 hrest
      refine ih payload hrest ?_
      rintro _ ⟨⟩
      exact finite_of_readPayload hpayload
  | case5 node members draft hnothing hvalue =>
      cases draft with
      | nothing => exact absurd rfl hnothing
      | value node => exact absurd rfl (hvalue node)
      | kind | both => cases h
  | case6 node members ih =>
      obtain ⟨_, -, hrest⟩ := bind_eq_ok_iff.1 h
      exact ih hrest nofun
  | case7 node members kind ih =>
      obtain ⟨payload, hpayload, hrest⟩ := bind_eq_ok_iff.1 h
      refine ih payload hrest ?_
      rintro _ ⟨⟩
      exact finite_of_readPayload hpayload
  | case8 node members draft hnothing hkind =>
      cases draft with
      | nothing => exact absurd rfl hnothing
      | kind kind => exact absurd rfl (hkind kind)
      | value | both => cases h
  | case9 key node members draft hkind hvalue ih =>
      simp only [readMembers] at h
      obtain ⟨_, -, hrest⟩ := bind_eq_ok_iff.1 h
      exact ih hrest hdraft

theorem finite_of_readItems {gap : Option Break} {items : List Node} {payload : Payload}
    (h : readItems gap items = .ok payload) : payload.nonFinite? = none := by
  unfold readItems at h
  split at h
  · obtain ⟨_, -, hthrow⟩ := bind_eq_ok_iff.1 h
    cases hthrow
  · obtain ⟨_, -, hshort⟩ := bind_eq_ok_iff.1 h
    obtain ⟨_, -, hthrow⟩ := bind_eq_ok_iff.1 hshort
    cases hthrow
  · obtain ⟨kind, -, hrest⟩ := bind_eq_ok_iff.1 h
    obtain ⟨read, hread, hrest⟩ := bind_eq_ok_iff.1 hrest
    split at hrest
    · cases hrest
    · obtain ⟨_, -, hlast⟩ := bind_eq_ok_iff.1 hrest
      cases hlast
      exact finite_of_readPayload hread

theorem finite_of_read {room : Nat} {node : Node} {payload : Payload}
    (h : read room node = .ok payload) : payload.nonFinite? = none := by
  unfold read at h
  split at h
  · obtain ⟨inner, -, hrest⟩ := bind_eq_ok_iff.1 h
    obtain ⟨draft, hmembers, hrest⟩ := bind_eq_ok_iff.1 hrest
    obtain ⟨_, -, hlast⟩ := bind_eq_ok_iff.1 hrest
    have hdraft : draft.Finite := finite_of_readMembers hmembers nofun
    cases draft with
    | both read =>
        cases hlast
        exact hdraft payload rfl
    | nothing | kind | value => cases hlast
  · obtain ⟨_, -, hitems⟩ := bind_eq_ok_iff.1 h
    exact finite_of_readItems hitems
  · cases h

end Payload

namespace Rule

def Draft.Finite (draft : Draft) : Prop :=
  ∀ payload, draft.value = some payload → payload.nonFinite? = none

theorem finite_of_read {room : Nat} {node : Node} {rule : Rule}
    (h : shape.read room node = .ok rule) : rule.value.nonFinite? = none := by
  have keeps : ∀ inner, ∀ field ∈ shape.fields, field.Keeps inner Draft.Finite := by
    intro inner
    simp only [shape, List.forall_mem_cons]
    refine ⟨keeps_slot ?_, keeps_slot ?_, nofun⟩
    · exact fun node name _ draft hdraft => hdraft
    · rintro node payload hpayload draft - _ ⟨⟩
      exact Payload.finite_of_read hpayload
  obtain ⟨absent, draft, hdraft, hfinish⟩ := Shape.draft_of_read (fun inner _ => keeps inner) nofun h
  simp only [shape, bind_eq_ok_iff, require_eq_ok_iff, pure, Except.pure, Except.ok.injEq] at hfinish
  obtain ⟨name, -, value, hvalue, rfl⟩ := hfinish
  exact hdraft value hvalue

end Rule

namespace Branch

/-- What a branch draft has of numbers is finite. -/
structure Draft.Finite (draft : Draft) : Prop where
  weight : ∀ weight, draft.weight = some weight → weight.isFinite = true
  value : ∀ payload, draft.value = some payload → payload.nonFinite? = none
  rule : ∀ rule, draft.rule = some (some rule) → rule.value.nonFinite? = none

theorem finite_of_read {room : Nat} {node : Node} {branch : Branch}
    (h : shape.read room node = .ok branch) : branch.nonFinite? = none := by
  have keeps : ∀ inner, ∀ field ∈ shape.fields, field.Keeps inner Draft.Finite := by
    intro inner
    simp only [shape, List.forall_mem_cons]
    refine ⟨keeps_slot ?_, keeps_slot ?_, keeps_slot ?_, keeps_slot ?_, keeps_slot ?_, nofun⟩
    · exact fun node id _ draft hdraft => ⟨hdraft.weight, hdraft.value, hdraft.rule⟩
    · intro node weight hweight draft hdraft
      refine ⟨?_, hdraft.value, hdraft.rule⟩
      rintro _ ⟨⟩
      exact Node.isFinite_of_readFloat hweight
    · intro node payload hpayload draft hdraft
      refine ⟨hdraft.weight, ?_, hdraft.rule⟩
      rintro _ ⟨⟩
      exact Payload.finite_of_read hpayload
    · intro node rule hrule draft hdraft
      refine ⟨hdraft.weight, hdraft.value, ?_⟩
      rintro found ⟨⟩
      exact Node.forall_of_readOptional (fun _ _ => Rule.finite_of_read) hrule found rfl
    · exact fun node file _ draft hdraft => ⟨hdraft.weight, hdraft.value, hdraft.rule⟩
  obtain ⟨absent, draft, hdraft, hfinish⟩ :=
    Shape.draft_of_read (fun inner _ => keeps inner) ⟨nofun, nofun, nofun⟩ h
  simp only [shape, bind_eq_ok_iff, require_eq_ok_iff, pure, Except.pure, Except.ok.injEq] at hfinish
  obtain ⟨id, -, weight, hweight, value, hvalue, rfl⟩ := hfinish
  refine nonFinite?_eq_none_iff.2 ⟨hdraft.weight weight hweight, hdraft.value value hvalue, ?_⟩
  exact fun rule hrule => hdraft.rule rule (Option.join_eq_some_iff.1 hrule)

end Branch

namespace Level

def Draft.Finite (draft : Draft) : Prop :=
  ∀ branches, draft.branches = some branches → ∀ branch ∈ branches, branch.nonFinite? = none

theorem finite_of_read {room : Nat} {node : Node} {level : Level}
    (h : shape.read room node = .ok level) : level.nonFinite? = none := by
  have keeps : ∀ inner, ∀ field ∈ shape.fields, field.Keeps inner Draft.Finite := by
    intro inner
    simp only [shape, List.forall_mem_cons]
    refine ⟨keeps_slot ?_, keeps_slot ?_, keeps_slot ?_, keeps_slot ?_, nofun⟩
    · exact fun node number _ draft hdraft => hdraft
    · exact fun node label _ draft hdraft => hdraft
    · exact fun node text _ draft hdraft => hdraft
    · rintro node branches hbranches draft - _ ⟨⟩
      exact Node.forall_of_readArray (fun _ _ _ => Branch.finite_of_read) hbranches
  obtain ⟨absent, draft, hdraft, hfinish⟩ := Shape.draft_of_read (fun inner _ => keeps inner) nofun h
  simp only [shape, bind_eq_ok_iff, require_eq_ok_iff, pure, Except.pure, Except.ok.injEq] at hfinish
  obtain ⟨number, -, label, -, appliesTo, -, branches, hbranches, rfl⟩ := hfinish
  exact nonFinite?_eq_none_iff.2 (hdraft branches hbranches)

end Level

/-! ## Loaded trees -/

namespace Tree

variable {E : Type}

theorem firstNonFinite?_eq_none_iff {tree : Tree E} :
    tree.firstNonFinite? = none ↔ ∀ level ∈ tree.levels, level.nonFinite? = none := by
  refine ⟨levels_finite, fun h => List.find?_eq_none.2 fun field hfield => ?_⟩
  obtain ⟨level, hlevel, hmem⟩ := List.mem_flatMap.1 hfield
  have hnone := h level hlevel
  rw [Level.nonFinite?_eq, Option.map_eq_none_iff] at hnone
  exact List.find?_eq_none.1 hnone field hmem

variable [Readable E] {good : E → Prop}

/-- The numbers of a tree draft are finite, and its elements are good. -/
structure Draft.Sound (good : E → Prop) (draft : Draft E) : Prop where
  levels : ∀ levels, draft.levels = some levels → ∀ level ∈ levels, level.nonFinite? = none
  elements : ∀ table, draft.elements = some table → ∀ row ∈ table.rows, good row.2

theorem sound_of_read
    (h : ∀ node element, Readable.read elementRoom node = .ok element → good element) {node : Node}
    {tree : Tree E} (hread : shape.read fullRoom node = .ok tree) :
    tree.firstNonFinite? = none ∧ ∀ row ∈ tree.elements.rows, good row.2 := by
  have keeps : ∀ inner, enter fullRoom = .ok inner →
      ∀ field ∈ (shape (E := E)).fields, field.Keeps inner (Draft.Sound good) := by
    intro inner hroom
    obtain rfl := Except.ok.inj hroom
    simp only [shape, List.forall_mem_cons]
    refine ⟨keeps_slot ?_, keeps_slot ?_, keeps_slot ?_, nofun⟩
    · exact fun node name _ draft hdraft => ⟨hdraft.levels, hdraft.elements⟩
    · intro node levels hlevels draft hdraft
      refine ⟨?_, hdraft.elements⟩
      rintro _ ⟨⟩
      exact Node.forall_of_readArray (fun _ _ _ => Level.finite_of_read) hlevels
    · intro node table htable draft hdraft
      refine ⟨hdraft.levels, ?_⟩
      rintro _ ⟨⟩
      exact Node.forall_of_readTable rfl h htable
  obtain ⟨absent, draft, hdraft, hfinish⟩ := Shape.draft_of_read keeps ⟨nofun, nofun⟩ hread
  simp only [shape, bind_eq_ok_iff, require_eq_ok_iff, pure, Except.pure, Except.ok.injEq] at hfinish
  obtain ⟨name, -, levels, hlevels, table, htable, rfl⟩ := hfinish
  exact ⟨firstNonFinite?_eq_none_iff.2 (hdraft.levels levels hlevels), hdraft.elements table htable⟩

theorem sound_of_ofBytes
    (h : ∀ node element, Readable.read elementRoom node = .ok element → good element)
    {bytes : Bytes} {tree : Tree E} (loaded : Tree.ofBytes bytes = .ok tree) :
    tree.firstNonFinite? = none ∧ ∀ row ∈ tree.elements.rows, good row.2 := by
  rw [Tree.ofBytes, Tree.readFrom, mapError_eq_ok_iff, Document.get_eq_ok_iff] at loaded
  exact sound_of_read h loaded.1

/-! ## Normal form -/

/-- Two documents of trees are the same up to the order of the elements. -/
def SameDocument (a b : Bytes) : Prop :=
  ∃ (modelName levels : Json) (rows others : List (String × Json)), others.Perm rows ∧
    a = (Json.object [("model_name", modelName), ("levels", levels),
      ("elements", .object rows)]).print .lines ∧
    b = (Json.object [("model_name", modelName), ("levels", levels),
      ("elements", .object others)]).print .lines

theorem sameDocument_toJsonWith (tree : Tree Json) {rows others : List (String × Json)}
    (perm : others.Perm rows) :
    SameDocument ((tree.toJsonWith rows).print .lines) ((tree.toJsonWith others).print .lines) :=
  ⟨_, _, _, _, perm.map _, rfl, rfl⟩

/-- A tree that is loaded, from a document in whatever spelling, is written in any order of its
    elements. What is written is read as an equal tree, and that tree is written as the same
    document up to the order of the elements. -/
theorem ofBytes_normalises {bytes : Bytes} {tree : Tree Json} (loaded : Tree.ofBytes bytes = .ok tree)
    {rows : List (String × Json)} (perm : rows.Perm tree.elements.rows) :
    tree.toBytes = tree.toBytesWith tree.elements.rows ∧
      ∃ document reloaded, tree.toBytesWith rows = .ok document ∧
        Tree.ofBytes document = .ok reloaded ∧
        reloaded = tree ∧ reloaded.agrees Json.agrees tree = true ∧
        ∀ others : List (String × Json), others.Perm reloaded.elements.rows →
          ∃ again, reloaded.toBytesWith others = .ok again ∧ SameDocument document again := by
  obtain ⟨finite, hfits⟩ : tree.firstNonFinite? = none ∧
      ∀ row ∈ tree.elements.rows, row.2.Fits elementRoom :=
    sound_of_ofBytes (fun _ _ => fits_of_readValue) loaded
  have survive : ∀ row ∈ tree.elements.rows, Survives row.2 :=
    fun row hrow => survives_iff.2 (hfits row hrow)
  have written : ∀ order, tree.toBytesWith order = .ok ((tree.toJsonWith order).print .lines) := by
    intro order
    rw [toBytesWith_eq, finite]
  have reloaded : Tree.ofBytes ((tree.toJsonWith rows).print .lines) = .ok tree := by
    rw [ofBytes_print, read_node finite survive perm]
    rfl
  have equal : tree.agrees Json.agrees tree = true :=
    agrees_self_of_elements finite fun row _ => row.2.agrees_self
  refine ⟨rfl, _, tree, written rows, reloaded, rfl, equal, fun others hothers => ?_⟩
  exact ⟨_, written others, tree.sameDocument_toJsonWith (hothers.trans perm.symm)⟩

/-- A document with members in another order, one of unknown name, a level as an array, a value
    before its kind, integers for doubles, and a label that is repeated. -/
def oddlySpelled : Bytes := Bytes.ofString
  ("\x7b\"x\":[], \"elements\":\x7b\"2\":null,\"1\":7,\"1\":\x7b\"b\":-0,\"a\":[1e2]\x7d\x7d,"
    ++ "\"levels\":[[0,\"l\",\"all\",[\x7b\"value\":\x7b\"value\":2,\"kind\":\"number\"\x7d,"
    ++ "\"weight\":1,\"relative_id\":1\x7d]]],\"model_name\":\"m\"\x7d")

/-- The element of the repeated label. -/
def lastElement : Json :=
  .object [("a", .array [.number (.real 100.0 (by decide))]),
    ("b", .number (.real (-0.0) (by decide)))]

/-- The tree of that document. -/
def plainTree : Tree Json where
  modelName := "m"
  levels := [⟨0, "l", "all", [⟨1, 1.0, .number 2.0, none, none⟩]⟩]
  elements := ⟨[("1", lastElement), ("2", .null)], by unfold KeysIncrease; decide⟩

set_option maxRecDepth 4000 in
theorem ofBytes_oddlySpelled :
    (Tree.ofBytes oddlySpelled : Except Error (Tree Json)) = .ok plainTree := by
  rfl

theorem ofBytes_normalises_oddlySpelled :
    (Tree.ofBytes oddlySpelled : Except Error (Tree Json)) = .ok plainTree ∧
      [("2", .null), ("1", lastElement)].Perm plainTree.elements.rows ∧
      ∃ document, plainTree.toBytesWith [("2", .null), ("1", lastElement)] = .ok document ∧
        (Tree.ofBytes document : Except Error (Tree Json)) = .ok plainTree := by
  have perm : [("2", .null), ("1", lastElement)].Perm plainTree.elements.rows := .swap _ _ []
  obtain ⟨-, document, reloaded, hwritten, hread, rfl, -⟩ :=
    ofBytes_normalises ofBytes_oddlySpelled perm
  exact ⟨ofBytes_oddlySpelled, perm, document, hwritten, hread⟩

end Tree

end LogicTree
