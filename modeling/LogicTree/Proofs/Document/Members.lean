import Mathlib.Data.List.Pairwise
import LogicTree.Document.Reader
import LogicTree.Proofs.Steps

/-! # Members in any order

The members of a record fill slots of a draft that have nothing to do with one another, so a record
is read alike in whatever order they stand, and members of other names among them make no
difference. The same holds of a payload, though its value, where it comes before the kind, is first
read as a value of any type.
-/

namespace LogicTree

open Json

/-! ## Taking members one by one -/

/-- A run that takes members one by one, where any two neighbours may be swapped. -/
structure Unordered {μ σ ε : Type} (run : List μ → σ → Except ε σ) (takes : μ → σ → σ → Prop) :
    Prop where
  nil : ∀ draft, run [] draft = .ok draft
  cons : ∀ {member members draft final}, run (member :: members) draft = .ok final ↔
    ∃ next, takes member draft next ∧ run members next = .ok final
  swap : ∀ {first second draft next final}, takes first draft next → takes second next final →
    ∃ other, takes second draft other ∧ takes first other final

namespace Unordered

variable {μ σ ε : Type} {run : List μ → σ → Except ε σ} {takes : μ → σ → σ → Prop}
variable {members kept others : List μ} {draft final : σ}

theorem run_perm (h : Unordered run takes) (perm : members.Perm others)
    (hrun : run members draft = .ok final) : run others draft = .ok final := by
  induction perm generalizing draft with
  | nil => exact hrun
  | cons member perm ih =>
      obtain ⟨next, htakes, hrest⟩ := h.cons.1 hrun
      exact h.cons.2 ⟨next, htakes, ih hrest⟩
  | swap first second members =>
      obtain ⟨next, hsecond, hrest⟩ := h.cons.1 hrun
      obtain ⟨final, hfirst, hrest⟩ := h.cons.1 hrest
      obtain ⟨other, hfirst, hsecond⟩ := h.swap hsecond hfirst
      exact h.cons.2 ⟨other, hfirst, h.cons.2 ⟨final, hsecond, hrest⟩⟩
  | trans _ _ ih ih' => exact ih' (ih hrun)

theorem run_append (h : Unordered run takes) {next : σ} (hrun : run kept draft = .ok next)
    (hothers : run others next = .ok final) : run (kept ++ others) draft = .ok final := by
  induction kept generalizing draft with
  | nil =>
      rw [h.nil draft] at hrun
      cases hrun
      exact hothers
  | cons member kept ih =>
      obtain ⟨between, htakes, hrest⟩ := h.cons.1 hrun
      exact h.cons.2 ⟨between, htakes, ih hrest⟩

theorem run_idle (h : Unordered run takes) (idle : ∀ member ∈ others, ∀ draft, takes member draft draft)
    (draft : σ) : run others draft = .ok draft := by
  induction others with
  | nil => exact h.nil draft
  | cons member others ih =>
      obtain ⟨hmember, hothers⟩ := List.forall_mem_cons.1 idle
      exact h.cons.2 ⟨draft, hmember draft, ih hothers⟩

theorem run_among (h : Unordered run takes) (perm : members.Perm (kept ++ others))
    (idle : ∀ member ∈ others, ∀ draft, takes member draft draft)
    (hrun : run kept draft = .ok final) : run members draft = .ok final := by
  apply h.run_perm perm.symm
  exact h.run_append hrun (h.run_idle idle final)

end Unordered

/-! ## Records -/

namespace Json

/-- Two fields of which neither fills or reads what belongs to the other. -/
structure Field.Apart {σ : Type} (f g : Field σ) : Prop where
  left : ∀ {room node draft next}, g.read room node draft = .ok next →
    f.isFilled next = f.isFilled draft
  right : ∀ {room node draft next}, f.read room node draft = .ok next →
    g.isFilled next = g.isFilled draft
  comm : ∀ {room a b draft final}, (f.read room a draft >>= g.read room b) = .ok final ↔
    (g.read room b draft >>= f.read room a) = .ok final

instance {σ : Type} : Std.Symm (@Field.Apart σ) where
  symm _ _ h := ⟨h.right, h.left, h.comm.symm⟩

/-- The fields of a record keep apart, and each is filled once it is read. -/
structure Shape.Independent {σ α : Type} (shape : Shape σ α) : Prop where
  apart : shape.fields.Pairwise Field.Apart
  fills : ∀ field ∈ shape.fields, ∀ room node draft next,
    field.read room node draft = .ok next → field.isFilled next = true

section Slots

variable {σ β γ : Type} {name other : String} {get : σ → Option β} {set : σ → β → σ}
variable {get' : σ → Option γ} {set' : σ → γ → σ}
variable {read : Nat → Node → Reading β} {read' : Nat → Node → Reading γ}

theorem apart_slot (hget : ∀ draft value, get (set' draft value) = get draft)
    (hget' : ∀ draft value, get' (set draft value) = get' draft)
    (hset : ∀ draft a b, set' (set draft a) b = set (set' draft b) a) :
    (Field.slot name get set read).Apart (Field.slot other get' set' read') := by
  refine ⟨fun hread => ?_, fun hread => ?_, fun {room a b draft final} => ?_⟩
  · obtain ⟨value, -, rfl⟩ := map_eq_ok_iff.1 hread
    exact congrArg Option.isSome (hget _ value)
  · obtain ⟨value, -, rfl⟩ := map_eq_ok_iff.1 hread
    exact congrArg Option.isSome (hget' _ value)
  · simp only [Field.slot, bind_eq_ok_iff, map_eq_ok_iff]
    constructor
    · rintro ⟨_, ⟨value, hvalue, rfl⟩, value', hvalue', rfl⟩
      exact ⟨_, ⟨value', hvalue', rfl⟩, value, hvalue, (hset draft value value').symm⟩
    · rintro ⟨_, ⟨value', hvalue', rfl⟩, value, hvalue, rfl⟩
      exact ⟨_, ⟨value, hvalue, rfl⟩, value', hvalue', hset draft value value'⟩

theorem fills_slot (h : ∀ draft value, get (set draft value) = some value) (room : Nat) (node : Node)
    (draft next : σ) (hread : (Field.slot name get set read).read room node draft = .ok next) :
    (Field.slot name get set read).isFilled next = true := by
  obtain ⟨value, -, rfl⟩ := map_eq_ok_iff.1 hread
  exact congrArg Option.isSome (h draft value)

end Slots

namespace Shape

variable {σ α : Type} {shape : Shape σ α} {room : Nat}

/-- What one member does to a draft. -/
inductive Takes (shape : Shape σ α) (room : Nat) : Option String × Node → σ → σ → Prop where
  | unknown {key : String} {node : Node} {draft : σ}
      (hfind : (shape.fields.find? fun field => field.name == key) = none)
      (hpass : node.passOver = .ok ()) : Takes shape room (some key, node) draft draft
  | known {key : String} {node : Node} {draft next : σ} {field : Field σ}
      (hfind : (shape.fields.find? fun field => field.name == key) = some field)
      (hfree : field.isFilled draft = false) (hread : field.read room node draft = .ok next) :
      Takes shape room (some key, node) draft next

theorem readMembers_cons_eq_ok_iff {member : Option String × Node}
    {members : List (Option String × Node)} {draft final : σ} :
    shape.readMembers room (member :: members) draft = .ok final ↔
      ∃ next, shape.Takes room member draft next ∧
        shape.readMembers room members next = .ok final := by
  obtain ⟨key, node⟩ := member
  cases key with
  | none =>
      constructor
      · intro h
        cases h
      · intro h
        obtain ⟨next, htakes, -⟩ := h
        cases htakes
  | some key =>
      rw [readMembers]
      cases hfind : shape.fields.find? fun field => field.name == key with
      | none =>
          rw [bind_eq_ok_iff]
          constructor
          · intro h
            obtain ⟨_, hpass, hrest⟩ := h
            exact ⟨draft, .unknown hfind hpass, hrest⟩
          · intro h
            obtain ⟨next, htakes, hrest⟩ := h
            cases htakes with
            | unknown _ hpass => exact ⟨(), hpass, hrest⟩
            | known hfound => cases hfind.symm.trans hfound
      | some field =>
          constructor
          · intro h
            cases hfree : field.isFilled draft with
            | true =>
                simp only [hfree, ↓reduceIte] at h
                cases h
            | false =>
                simp only [hfree, Bool.false_eq_true, ↓reduceIte] at h
                obtain ⟨next, hread, hrest⟩ := bind_eq_ok_iff.1 h
                exact ⟨next, .known hfind hfree hread, hrest⟩
          · intro h
            obtain ⟨next, htakes, hrest⟩ := h
            cases htakes with
            | unknown hfound => cases hfound.symm.trans hfind
            | known hfound hfree hread =>
                cases hfound.symm.trans hfind
                simp only [hfree, Bool.false_eq_true, ↓reduceIte]
                exact bind_eq_ok_iff.2 ⟨next, hread, hrest⟩

theorem Independent.swap (h : shape.Independent) {first second : Option String × Node}
    {draft next final : σ} (hfirst : shape.Takes room first draft next)
    (hsecond : shape.Takes room second next final) :
    ∃ other, shape.Takes room second draft other ∧ shape.Takes room first other final := by
  cases hfirst with
  | unknown hfind hpass => exact ⟨final, hsecond, .unknown hfind hpass⟩
  | known hfind hfree hread =>
      cases hsecond with
      | unknown hfind' hpass => exact ⟨draft, .unknown hfind' hpass, .known hfind hfree hread⟩
      | known hfind' hfree' hread' =>
          rename_i field _ _ field'
          have hmem := List.mem_of_find?_eq_some hfind
          have hmem' := List.mem_of_find?_eq_some hfind'
          -- the second member is not of the same field, for that one is filled by now
          have distinct : field ≠ field' := by
            rintro rfl
            rw [h.fills field hmem _ _ _ _ hread] at hfree'
            cases hfree'
          have apart : field.Apart field' :=
            h.apart.forall hmem hmem' distinct
          obtain ⟨other, hother, hfinal⟩ :=
            bind_eq_ok_iff.1 (apart.comm.1 (bind_eq_ok_iff.2 ⟨next, hread, hread'⟩))
          refine ⟨other, .known hfind' ?_ hother, .known hfind ?_ hfinal⟩
          · grind [apart.right hread]
          · grind [apart.left hother]

/-- The members of a record are read alike in any order. -/
theorem Independent.unordered (h : shape.Independent) (room : Nat) :
    Unordered (shape.readMembers room) (shape.Takes room) where
  nil _ := rfl
  cons := readMembers_cons_eq_ok_iff
  swap := h.swap

end Shape

end Json

/-! ## Payloads -/

namespace Payload

/-- What one member does to a draft of a payload. -/
inductive Takes (room : Nat) : Option String × Node → Draft → Draft → Prop where
  | kind {node : Node} {kind : PayloadKind} (hkind : PayloadKind.readMember room node = .ok kind) :
      Takes room (some "kind", node) .nothing (.kind kind)
  | kindOfValue {node value : Node} {kind : PayloadKind} {payload : Payload}
      (hkind : PayloadKind.readMember room node = .ok kind)
      (hvalue : kind.readPayload value = .ok payload) :
      Takes room (some "kind", node) (.value value) (.both payload)
  | value {node : Node} {value : Json} (hvalue : node.readValue room = .ok value) :
      Takes room (some "value", node) .nothing (.value node)
  | valueOfKind {node : Node} {kind : PayloadKind} {payload : Payload}
      (hvalue : kind.readPayload node = .ok payload) :
      Takes room (some "value", node) (.kind kind) (.both payload)
  | unknown {key : String} {node : Node} {draft : Draft} (hkind : key ≠ "kind")
      (hvalue : key ≠ "value") (hpass : node.passOver = .ok ()) :
      Takes room (some key, node) draft draft

theorem readMembers_cons_eq_ok_iff {room : Nat} {member : Option String × Node}
    {members : List (Option String × Node)} {draft final : Draft} :
    readMembers room (member :: members) draft = .ok final ↔
      ∃ next, Takes room member draft next ∧ readMembers room members next = .ok final := by
  constructor
  · intro h
    unfold readMembers at h
    split at h
    next heq => cases heq
    next => cases h
    next draft _ _ node rest heq =>
      cases heq
      cases draft with
      | nothing =>
          obtain ⟨kind, hkind, hrest⟩ := bind_eq_ok_iff.1 h
          exact ⟨_, .kind hkind, hrest⟩
      | value value =>
          obtain ⟨kind, hkind, h⟩ := bind_eq_ok_iff.1 h
          obtain ⟨payload, hvalue, hrest⟩ := bind_eq_ok_iff.1 h
          exact ⟨_, .kindOfValue hkind hvalue, hrest⟩
      | kind | both => cases h
    next draft _ _ node rest heq =>
      cases heq
      cases draft with
      | nothing =>
          obtain ⟨value, hvalue, hrest⟩ := bind_eq_ok_iff.1 h
          exact ⟨_, .value hvalue, hrest⟩
      | kind kind =>
          obtain ⟨payload, hvalue, hrest⟩ := bind_eq_ok_iff.1 h
          exact ⟨_, .valueOfKind hvalue, hrest⟩
      | value | both => cases h
    next draft _ _ key node rest hkind hvalue heq =>
      cases heq
      obtain ⟨_, hpass, hrest⟩ := bind_eq_ok_iff.1 h
      exact ⟨draft, .unknown hkind hvalue hpass, hrest⟩
  · rintro ⟨next, htakes, hrest⟩
    cases htakes with
    | kind hkind => simp only [readMembers, hkind, bind, Except.bind, hrest]
    | kindOfValue hkind hvalue => simp only [readMembers, hkind, hvalue, bind, Except.bind, hrest]
    | value hvalue => simp only [readMembers, hvalue, bind, Except.bind, hrest]
    | valueOfKind hvalue => simp only [readMembers, hvalue, bind, Except.bind, hrest]
    | unknown hkind hvalue hpass =>
        rw [readMembers, hpass]
        · exact hrest
        · exact hkind
        · exact hvalue

theorem readValue_of_readPayload {kind : PayloadKind} {node : Node} {payload : Payload}
    (h : kind.readPayload node = .ok payload) (room : Nat) :
    ∃ value, node.readValue room = .ok value := by
  cases node with
  | null | bool => exact ⟨_, rfl⟩
  | number value =>
      cases value with
      | some value => exact ⟨_, rfl⟩
      | none => cases kind <;> cases h
  | string text =>
      cases text with
      | some text => exact ⟨_, rfl⟩
      | none => cases kind <;> cases h
  | array | object | broken => cases kind <;> cases h

theorem takes_swap {room : Nat} {first second : Option String × Node} {draft next final : Draft}
    (hfirst : Takes room first draft next) (hsecond : Takes room second next final) :
    ∃ other, Takes room second draft other ∧ Takes room first other final := by
  cases hfirst with
  | unknown hkind hvalue hpass => exact ⟨final, hsecond, .unknown hkind hvalue hpass⟩
  | kind hkind =>
      cases hsecond with
      | valueOfKind hvalue =>
          obtain ⟨value, hread⟩ := readValue_of_readPayload hvalue room
          exact ⟨_, .value hread, .kindOfValue hkind hvalue⟩
      | unknown hkind' hvalue' hpass => exact ⟨_, .unknown hkind' hvalue' hpass, .kind hkind⟩
  | value hread =>
      cases hsecond with
      | kindOfValue hkind hvalue => exact ⟨_, .kind hkind, .valueOfKind hvalue⟩
      | unknown hkind' hvalue' hpass => exact ⟨_, .unknown hkind' hvalue' hpass, .value hread⟩
  | kindOfValue hkind hvalue =>
      cases hsecond with
      | unknown hkind' hvalue' hpass =>
          exact ⟨_, .unknown hkind' hvalue' hpass, .kindOfValue hkind hvalue⟩
  | valueOfKind hvalue =>
      cases hsecond with
      | unknown hkind' hvalue' hpass =>
          exact ⟨_, .unknown hkind' hvalue' hpass, .valueOfKind hvalue⟩

/-- The members of a payload are read alike in any order, also the value before the kind. -/
theorem unordered (room : Nat) : Unordered (readMembers room) (Takes room) where
  nil _ := rfl
  cons := readMembers_cons_eq_ok_iff
  swap := takes_swap

end Payload

end LogicTree
