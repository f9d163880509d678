import LogicTree.Document.Reader
import LogicTree.Proofs.Document.Members
import LogicTree.Proofs.Document.Spellings

/-! # Reading records

A payload, a rule, a branch or a level is read from any of its spellings, given room for its nesting
and finite numbers. In the array of its values they come in the order of the fields. In an object
the members that are kept fill the draft, and what is left out is filled in as absent.
-/

namespace LogicTree

open Json

/-! ## Scalars -/

theorem node_ofFloat {value : Float} (finite : value.isFinite = true) :
    (Json.ofFloat value).node = .number (some (.real value finite)) := by
  rw [Json.ofFloat, JsonNumber.ofFloat?, dif_pos finite]
  rfl

theorem readFloat_node {value : Float} (finite : value.isFinite = true) :
    (Json.ofFloat value).node.readFloat = .ok value := by
  rw [node_ofFloat finite]
  rfl

theorem readUInt64_node (value : UInt64) :
    (Json.number (.ofUInt64 value)).node.readUInt64 = .ok value := by
  have hlt := value.toNat_lt
  have hrange : (0 : Int) ≤ value.toNat ∧ (value.toNat : Int) ≤ 18446744073709551615 := by omega
  simp [node, JsonNumber.ofUInt64, Node.readUInt64, Node.readInteger, hrange, Except.map]

theorem readUInt32_node (value : UInt32) :
    (Json.number (.ofUInt64 value.toUInt64)).node.readUInt32 = .ok value := by
  have hlt := value.toNat_lt
  have hrange : (0 : Int) ≤ value.toNat ∧ (value.toNat : Int) ≤ 4294967295 := by omega
  simp [node, JsonNumber.ofUInt64, Node.readUInt32, Node.readInteger, hrange, Except.map]

theorem readInt64_node (value : Int64) :
    (Json.number (.ofInt64 value)).node.readInt64 = .ok value := by
  have hlow := value.le_toInt
  have hhigh := value.toInt_lt
  have hrange : -9223372036854775808 ≤ value.toInt ∧ value.toInt ≤ 9223372036854775807 := by omega
  simp [node, JsonNumber.ofInt64, Node.readInt64, Node.readInteger, hrange, Except.map]

/-! ## Spelled records -/

/-- The nodes of a record: an array of all values, or an object in which the members that are kept
    stand among others that are passed over. -/
theorem RecordText.node_eq {fields kept : List (String × Markup)} {markup : Markup}
    (h : RecordText fields kept markup) :
    markup.node = .array (fields.map fun field => field.2.node) none ∨
      ∃ members others, markup.node = .object members none ∧
        members.Perm ((kept.map fun field => (some field.1, field.2.node)) ++ others) ∧
        ∀ member ∈ others, ∃ name, member.1 = some name ∧ name ∉ fields.map Prod.fst ∧
          member.2.passOver = .ok () := by
  cases h with
  | array =>
      left
      rw [Markup.node, Markup.itemNodes_eq_map, List.map_map]
      rfl
  | object unknown perm =>
      rename_i members others
      right
      rw [Markup.node, Markup.memberNodes_eq_map]
      refine ⟨_, others.map fun member => (member.1.text?, member.2.node), rfl, ?_, ?_⟩
      · have nodes := perm.map fun member => (member.1.text?, member.2.node)
        rw [List.map_append, List.map_map] at nodes
        exact nodes
      · intro member hmember
        obtain ⟨other, hother, rfl⟩ := List.mem_map.1 hmember
        obtain ⟨name, hname, hunknown⟩ := unknown other hother
        refine ⟨name, hname, hunknown, ?_⟩
        rw [Node.passOver, other.2.gap?_node]

namespace Json.Shape

variable {σ α : Type} {shape : Shape σ α} {room : Nat}

theorem readMembers_cons {field : Field σ} {key : String} {node : Node} {draft next : σ}
    (hfield : shape.fields.find? (fun field => field.name == key) = some field)
    (hfree : field.isFilled draft = false) (hread : field.read room node draft = .ok next)
    (members : List (Option String × Node)) :
    shape.readMembers room ((some key, node) :: members) draft =
      shape.readMembers room members next := by
  rw [readMembers, hfield]
  simp [hfree, hread, bind, Except.bind]

theorem readMembers_last {field : Field σ} {key : String} {node : Node} {draft : σ}
    (hfield : shape.fields.find? (fun field => field.name == key) = some field)
    (hfree : field.isFilled draft = false) :
    shape.readMembers room [(some key, node)] draft = field.read room node draft := by
  rw [readMembers, hfield]
  cases hread : field.read room node draft <;>
    simp [hfree, hread, readMembers, bind, Except.bind]

theorem readItems_cons {field : Field σ} {fields : List (Field σ)} {item : Node}
    {items : List Node} {draft next : σ} (hread : field.read room item draft = .ok next) :
    readItems room (field :: fields) (item :: items) draft = readItems room fields items next := by
  rw [readItems, hread]
  rfl

theorem read_object_eq (members : List (Option String × Node)) :
    shape.read (room + 2) (.object members none) =
      shape.readMembers (room + 1) members shape.draft >>=
        shape.finish fun name => .mismatch (.missing name) := by
  simp only [read, enter, close, bind, Except.bind]

theorem read_slot {β : Type} {name : String} {get : σ → Option β} {set : σ → β → σ}
    {read : Nat → Node → Reading β} {node : Node} {value : β} (h : read room node = .ok value)
    (draft : σ) : (Field.slot name get set read).read room node draft = .ok (set draft value) := by
  rw [Field.slot]
  simp only [h, Except.map]

/-- A record is read from a spelling if all its values and the members that are kept are. -/
theorem read_recordText (independent : shape.Independent) {fields kept : List (String × Markup)}
    {markup : Markup} (h : RecordText fields kept markup)
    (names : shape.fields.map Field.name = fields.map Prod.fst) {whole part : σ} {value : α}
    (hitems : readItems (room + 1) shape.fields (fields.map fun field => field.2.node) shape.draft =
      .ok whole)
    (hmembers : shape.readMembers (room + 1) (kept.map fun field => (some field.1, field.2.node))
      shape.draft = .ok part)
    (hwhole : ∀ absent, shape.finish absent whole = .ok value)
    (hpart : ∀ absent, shape.finish absent part = .ok value) :
    shape.read (room + 2) markup.node = .ok value := by
  rcases h.node_eq with hnode | ⟨members, others, hnode, perm, hothers⟩
  · rw [hnode, read]
    simp only [enter, hitems, close, hwhole, bind, Except.bind]
  · have idle : ∀ member ∈ others, ∀ draft, shape.Takes (room + 1) member draft draft := by
      intro member hmember draft
      obtain ⟨key, node⟩ := member
      obtain ⟨name, rfl, hname, hpass⟩ := hothers _ hmember
      refine .unknown ?_ hpass
      rw [List.find?_eq_none]
      intro field hfield hsame
      apply hname
      rw [← names, ← eq_of_beq hsame]
      exact List.mem_map_of_mem hfield
    have hread := (independent.unordered (room + 1)).run_among perm idle hmembers
    rw [hnode, read_object_eq, hread]
    exact hpart _

end Json.Shape

open Json.Shape

/-! ## Payloads -/

namespace Payload

theorem readPayload_content {payload : Payload} (finite : payload.nonFinite? = none) :
    ∃ kind, PayloadKind.ofName payload.kind = .ok kind ∧
      kind.readPayload payload.content.node = .ok payload := by
  cases payload with
  | text value => exact ⟨.text, rfl, rfl⟩
  | flag value => exact ⟨.flag, rfl, rfl⟩
  | integer value =>
      refine ⟨.integer, rfl, ?_⟩
      rw [PayloadKind.readPayload, content, readInt64_node]
      rfl
  | number value =>
      have hfinite : value.isFinite = true := by
        by_contra hnot
        simp [nonFinite?, hnot] at finite
      refine ⟨.number, rfl, ?_⟩
      rw [PayloadKind.readPayload, content, readFloat_node hfinite]
      rfl

theorem read_spells {payload : Payload} (finite : payload.nonFinite? = none) {markup : Markup}
    (h : payload.Spells markup) (room : Nat) :
    Payload.read (room + 2) markup.node = .ok payload := by
  obtain ⟨kind, hkind, hvalue⟩ := readPayload_content finite
  rcases h.node_eq with hnode | ⟨members, others, hnode, perm, hothers⟩
  · have hitems : readItems none [.string (some payload.kind), payload.content.node] =
        .ok payload := by
      simp only [readItems, PayloadKind.readItem, hkind, hvalue, bind, Except.bind]
      rfl
    simp only [fields, List.map_cons, List.map_nil, Markup.node_ofJson] at hnode
    rw [hnode]
    exact hitems
  · have hkept : readMembers (room + 1)
        (payload.fields.map fun field => (some field.1, field.2.node)) .nothing =
          .ok (.both payload) := by
      simp only [fields, List.map_cons, List.map_nil, Markup.node_ofJson]
      simp only [Markup.node, StringText.text?, readMembers, PayloadKind.readMember, hkind, hvalue,
        bind, Except.bind]
    have idle : ∀ member ∈ others, ∀ draft, Takes (room + 1) member draft draft := by
      intro member hmember draft
      obtain ⟨key, node⟩ := member
      obtain ⟨name, rfl, hname, hpass⟩ := hothers _ hmember
      simp only [fields, List.map_cons, List.map_nil, List.mem_cons, List.not_mem_nil, or_false,
        not_or] at hname
      exact .unknown hname.1 hname.2 hpass
    have hread := (unordered (room + 1)).run_among perm idle hkept
    rw [hnode]
    simp only [Payload.read, enter, hread, close, bind, Except.bind, pure, Except.pure]

end Payload

/-! ## Rules -/

namespace Rule

theorem shape_independent : Rule.shape.Independent where
  apart := by
    refine .cons ?_ (.cons nofun .nil)
    simp only [List.forall_mem_singleton]
    exact apart_slot (fun _ _ => rfl) (fun _ _ => rfl) fun _ _ _ => rfl
  fills := by
    change ∀ field ∈ [_, _], _
    simp only [List.forall_mem_cons, List.not_mem_nil, false_implies, implies_true, and_true]
    exact ⟨fills_slot fun _ _ => rfl, fills_slot fun _ _ => rfl⟩

theorem read_spells {rule : Rule} (finite : rule.value.nonFinite? = none) {markup : Markup}
    (h : rule.Spells markup) (room : Nat) : Rule.shape.read (room + 3) markup.node = .ok rule := by
  obtain ⟨value, hvalue, htext⟩ := h
  have hpayload := Payload.read_spells finite hvalue room
  have hitems : readItems (room + 2) Rule.shape.fields
      [.string (some rule.name), value.node] {} = .ok ⟨some rule.name, some rule.value⟩ := by
    refine (readItems_cons (read_slot rfl _)).trans ?_
    exact readItems_cons (read_slot hpayload _)
  have hmembers : Rule.shape.readMembers (room + 2)
      [(some "name", .string (some rule.name)), (some "value", value.node)] {} =
        .ok ⟨some rule.name, some rule.value⟩ := by
    rw [readMembers_cons rfl rfl (read_slot rfl _),
      readMembers_cons rfl rfl (read_slot hpayload _)]
    rfl
  exact read_recordText shape_independent htext rfl hitems hmembers (fun _ => rfl) fun _ => rfl

end Rule

/-! ## Branches -/

theorem readOptional_of_read {α : Type} {read : Nat → Node → Reading α} {room : Nat} {node : Node}
    {value : α} (hnull : ∀ value, read room .null ≠ .ok value) (h : read room node = .ok value) :
    Node.readOptional read room node = .ok (some value) := by
  cases node with
  | null => exact absurd h (hnull value)
  | _ => simp only [Node.readOptional, h, Except.map]

namespace OptionalText

variable {σ α β : Type} {spells : α → Markup → Prop} {name : String} {option : Option α}
variable {markup : Markup} {kept : List (String × Markup)}
variable {read : Nat → Node → Reading α} {room : Nat}

theorem readOptional (h : OptionalText spells name option markup kept)
    (hnull : ∀ value, read room .null ≠ .ok value)
    (hread : ∀ value, option = some value → ∀ markup, spells value markup →
      read room markup.node = .ok value) :
    Node.readOptional read room markup.node = .ok option := by
  cases h with
  | leftOut | null => rfl
  | present hspells => exact readOptional_of_read hnull (hread _ rfl _ hspells)

theorem readMembers (shape : Shape σ β) {get : σ → Option (Option α)} {set : σ → Option α → σ}
    (h : OptionalText spells name option markup kept)
    (hread : Node.readOptional read room markup.node = .ok option)
    (hfield : (shape.fields.find? fun field => field.name == name) =
      some (.slot name get set (Node.readOptional read)))
    (draft : σ) (hfree : get draft = none) (rest : List (Option String × Node)) :
    ∃ next, (next = draft ∧ option = none ∨ next = set draft option) ∧
      shape.readMembers room ((kept.map fun field => (some field.1, field.2.node)) ++ rest) draft =
        shape.readMembers room rest next := by
  have hfree : (get draft).isSome = false := by rw [hfree, Option.isSome_none]
  cases h with
  | leftOut => exact ⟨draft, .inl ⟨rfl, rfl⟩, rfl⟩
  | null => exact ⟨_, .inr rfl, readMembers_cons hfield hfree (read_slot hread draft) rest⟩
  | present => exact ⟨_, .inr rfl, readMembers_cons hfield hfree (read_slot hread draft) rest⟩

end OptionalText

namespace Branch

theorem nonFinite?_eq_none_iff {branch : Branch} :
    branch.nonFinite? = none ↔
      branch.weight.isFinite = true ∧ branch.value.nonFinite? = none ∧
        ∀ rule, branch.rule = some rule → rule.value.nonFinite? = none := by
  unfold nonFinite?
  cases hweight : branch.weight.isFinite with
  | false => simp
  | true =>
      cases hvalue : branch.value.nonFinite? with
      | some value => simp
      | none =>
          cases hrule : branch.rule with
          | none => simp
          | some rule => cases hnumber : rule.value.nonFinite? <;> simp [hnumber]

theorem shape_independent : Branch.shape.Independent where
  apart := by
    change List.Pairwise _ [_, _, _, _, _]
    simp only [List.pairwise_cons, List.forall_mem_cons, List.not_mem_nil, false_implies,
      implies_true, and_true, List.Pairwise.nil]
    refine ⟨⟨?_, ?_, ?_, ?_⟩, ⟨?_, ?_, ?_⟩, ⟨?_, ?_⟩, ?_⟩
    all_goals exact apart_slot (fun _ _ => rfl) (fun _ _ => rfl) fun _ _ _ => rfl
  fills := by
    change ∀ field ∈ [_, _, _, _, _], _
    simp only [List.forall_mem_cons, List.not_mem_nil, false_implies, implies_true, and_true]
    refine ⟨?_, ?_, ?_, ?_, ?_⟩
    all_goals exact fills_slot fun _ _ => rfl

theorem read_spells {branch : Branch} (finite : branch.nonFinite? = none) {markup : Markup}
    (h : branch.Spells markup) (room : Nat) :
    Branch.shape.read (room + 4) markup.node = .ok branch := by
  obtain ⟨hweight, hpayload, hrules⟩ := nonFinite?_eq_none_iff.1 finite
  obtain ⟨value, rule, file, keptRule, keptFile, hvalue, hrule, hfile, htext⟩ := h
  have readId : (Markup.ofJson (.number (.ofUInt64 branch.id.toUInt64))).node.readUInt32 =
      .ok branch.id := by
    rw [Markup.node_ofJson, readUInt32_node]
  have readWeight : (Markup.ofJson (Json.ofFloat branch.weight)).node.readFloat =
      .ok branch.weight := by
    rw [Markup.node_ofJson, readFloat_node hweight]
  have readValue := Payload.read_spells hpayload hvalue (room + 1)
  have readRule : Node.readOptional Rule.shape.read (room + 3) rule.node = .ok branch.rule :=
    hrule.readOptional nofun fun rule hsome _ hspells => Rule.read_spells (hrules rule hsome) hspells room
  have readFile : Node.readOptional (fun _ node => node.readString) (room + 3) file.node =
      .ok branch.inputFile := by
    refine hfile.readOptional nofun fun text _ markup hspells => ?_
    rw [hspells]
    rfl
  have hitems : readItems (room + 3) Branch.shape.fields
      [(Markup.ofJson (.number (.ofUInt64 branch.id.toUInt64))).node,
        (Markup.ofJson (Json.ofFloat branch.weight)).node, value.node, rule.node, file.node] {} =
        .ok ⟨some branch.id, some branch.weight, some branch.value, some branch.rule,
          some branch.inputFile⟩ := by
    refine (readItems_cons (read_slot readId _)).trans ?_
    refine (readItems_cons (read_slot readWeight _)).trans ?_
    refine (readItems_cons (read_slot readValue _)).trans ?_
    refine (readItems_cons (read_slot readRule _)).trans ?_
    exact readItems_cons (read_slot readFile _)
  -- the draft without the last two members, with the rule, and with the file as well
  obtain ⟨withRule, hwithRule, hruleMembers⟩ := hrule.readMembers Branch.shape readRule rfl
    ⟨some branch.id, some branch.weight, some branch.value, none, none⟩ rfl
    (keptFile.map fun field => (some field.1, field.2.node))
  have hfree : withRule.inputFile = none := by
    rcases hwithRule with ⟨rfl, -⟩ | rfl <;> rfl
  obtain ⟨withFile, hwithFile, hfileMembers⟩ :=
    hfile.readMembers Branch.shape readFile rfl withRule hfree []
  have hmembers : Branch.shape.readMembers (room + 3)
      ((branch.fields value ++ (keptRule ++ keptFile)).map fun field => (some field.1, field.2.node))
      {} = .ok withFile := by
    rw [List.map_append, List.map_append]
    refine (readMembers_cons rfl rfl (read_slot readId _) _).trans ?_
    refine (readMembers_cons rfl rfl (read_slot readWeight _) _).trans ?_
    refine (readMembers_cons rfl rfl (read_slot readValue _) _).trans ?_
    rw [List.append_nil] at hfileMembers
    exact hruleMembers.trans hfileMembers
  have hfinish : ∀ absent, Branch.shape.finish absent withFile = .ok branch := by
    intro absent
    obtain ⟨id, weight, payload, rule, file⟩ := branch
    rcases hwithRule with ⟨rfl, hnone⟩ | rfl <;> rcases hwithFile with ⟨rfl, hnone'⟩ | rfl
    · cases hnone
      cases hnone'
      rfl
    · cases hnone
      rfl
    · cases hnone'
      rfl
    · rfl
  exact read_recordText shape_independent htext rfl hitems hmembers (fun _ => rfl) hfinish

end Branch

/-! ## Arrays and levels -/

theorem readItems_spelled {α : Type} {spells : α → Markup → Prop} {read : Nat → Node → Reading α}
    {room : Nat} {values : List α} {items : List Markup} (h : List.Forall₂ spells values items)
    (hread : ∀ value ∈ values, ∀ item, spells value item → read room item.node = .ok value) :
    Node.readItems read room (items.map Markup.node) = .ok values := by
  induction h with
  | nil => rfl
  | cons hitem hitems ih =>
      obtain ⟨hfirst, hothers⟩ := List.forall_mem_cons.1 hread
      rw [List.map_cons, Node.readItems, hfirst _ hitem, ih hothers]
      rfl

theorem readArray_spelled {α : Type} {spells : α → Markup → Prop} {read : Nat → Node → Reading α}
    {room : Nat} {values : List α} {items : List Markup} (h : List.Forall₂ spells values items)
    (hread : ∀ value ∈ values, ∀ item, spells value item → read (room + 1) item.node = .ok value) :
    Node.readArray read (room + 2) (Markup.array items).node = .ok values := by
  have hitems := readItems_spelled h hread
  rw [← Markup.itemNodes_eq_map] at hitems
  simp only [Markup.node, Node.readArray, enter, hitems, close, bind, Except.bind, pure, Except.pure]

namespace Level

theorem nonFinite?_eq_none_iff {level : Level} :
    level.nonFinite? = none ↔ ∀ branch ∈ level.branches, branch.nonFinite? = none := by
  simp [nonFinite?, List.findSome?_eq_none_iff]

theorem shape_independent : Level.shape.Independent where
  apart := by
    change List.Pairwise _ [_, _, _, _]
    simp only [List.pairwise_cons, List.forall_mem_cons, List.not_mem_nil, false_implies,
      implies_true, and_true, List.Pairwise.nil]
    refine ⟨⟨?_, ?_, ?_⟩, ⟨?_, ?_⟩, ?_⟩
    all_goals exact apart_slot (fun _ _ => rfl) (fun _ _ => rfl) fun _ _ _ => rfl
  fills := by
    change ∀ field ∈ [_, _, _, _], _
    simp only [List.forall_mem_cons, List.not_mem_nil, false_implies, implies_true, and_true]
    refine ⟨?_, ?_, ?_, ?_⟩
    all_goals exact fills_slot fun _ _ => rfl

theorem read_spells {level : Level} (finite : level.nonFinite? = none) {markup : Markup}
    (h : level.Spells markup) (room : Nat) :
    Level.shape.read (room + 6) markup.node = .ok level := by
  obtain ⟨branches, hbranches, htext⟩ := h
  have readNumber : (Markup.ofJson (.number (.ofUInt64 level.number))).node.readUInt64 =
      .ok level.number := by
    rw [Markup.node_ofJson, readUInt64_node]
  have readBranches : Node.readArray Branch.shape.read (room + 5) (Markup.array branches).node =
      .ok level.branches := by
    refine readArray_spelled hbranches fun branch hbranch item hspells => ?_
    exact Branch.read_spells (nonFinite?_eq_none_iff.1 finite branch hbranch) hspells room
  have hitems : readItems (room + 5) Level.shape.fields
      [(Markup.ofJson (.number (.ofUInt64 level.number))).node, .string (some level.label),
        .string (some level.appliesTo), (Markup.array branches).node] {} =
        .ok ⟨some level.number, some level.label, some level.appliesTo, some level.branches⟩ := by
    refine (readItems_cons (read_slot readNumber _)).trans ?_
    refine (readItems_cons (read_slot rfl _)).trans ?_
    refine (readItems_cons (read_slot rfl _)).trans ?_
    exact readItems_cons (read_slot readBranches _)
  have hmembers : Level.shape.readMembers (room + 5)
      [(some "level", (Markup.ofJson (.number (.ofUInt64 level.number))).node),
        (some "label", .string (some level.label)),
        (some "applies_to", .string (some level.appliesTo)),
        (some "branches", (Markup.array branches).node)] {} =
        .ok ⟨some level.number, some level.label, some level.appliesTo, some level.branches⟩ := by
    rw [readMembers_cons rfl rfl (read_slot readNumber _),
      readMembers_cons rfl rfl (read_slot rfl _), readMembers_cons rfl rfl (read_slot rfl _),
      readMembers_cons rfl rfl (read_slot readBranches _)]
    rfl
  exact read_recordText shape_independent htext rfl hitems hmembers (fun _ => rfl) fun _ => rfl

end Level

end LogicTree
