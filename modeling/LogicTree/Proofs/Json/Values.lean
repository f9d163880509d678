import LogicTree.Json.Reading
import LogicTree.Proofs.Decimal.Reading
import LogicTree.Proofs.Elements
import LogicTree.Proofs.Float64.Nearest
import LogicTree.Proofs.Json.Documents
import LogicTree.Proofs.Steps

/-! # Values as they are read

A value that has been read is in a normal form, however it was spelled: its numbers are finite, the
members of its objects are in order, with one for each key, and it nests no deeper than there was
room. So it is read again from its own node, given the same room.
-/

namespace LogicTree

open Float64

/-! ## Numbers -/

namespace Float64

theorem roundedValue_le_of_le {q : ℚ} (hq : 0 ≤ q) (h : q ≤ 2 ^ (64 : Int)) :
    roundedValue q ≤ 2 ^ (64 : Int) := by
  have canonical : CanonicalMagnitude (2 ^ 52) 12 :=
    ⟨by decide, by decide, by decide, by decide, .inl le_rfl⟩
  have bound := roundedValue_canonical canonical
  have same : ((2 ^ 52 : Nat) : ℚ) * 2 ^ (12 : Int) = 2 ^ (64 : Int) := by norm_num
  rw [same] at bound
  exact (roundedValue_mono hq h).trans bound.le

theorem isFinite_ofNat {n : Nat} (h : n ≤ 2 ^ 64) : (Float.ofNat n).isFinite = true := by
  have value : Float.ofNat n = nearest n := by
    have read := Decimal.toFloat_eq_nearest ⟨n, 0⟩
    rw [Decimal.value, zpow_zero, mul_one] at read
    exact read
  have small : (n : ℚ) ≤ 2 ^ (64 : Int) := by exact_mod_cast h
  have bound := roundedValue_le_of_le (Nat.cast_nonneg n) small
  rw [value]
  exact isFinite_nearest (Nat.cast_nonneg n)
    (bound.trans_lt (zpow_lt_zpow_right₀ (by norm_num) (by norm_num)))

theorem isFinite_neg {f : Float} (h : f.isFinite = true) : (-f).isFinite = true := by
  rw [isFinite_iff_parts] at h ⊢
  rw [parts_neg]
  cases hf : parts f with
  | finite | zero => rfl
  | infinity | notANumber =>
      rw [hf] at h
      cases h

end Float64

theorem JsonNumber.isFinite_toFloat (number : JsonNumber) : number.toFloat.isFinite = true := by
  cases number with
  | real value finite => exact finite
  | integer value inRange =>
      cases value with
      | ofNat n =>
          have below : (n : Int) < 18446744073709551616 := inRange.2
          exact isFinite_ofNat (by omega)
      | negSucc n => exact isFinite_neg (isFinite_ofNat (by omega))

theorem JsonNumber.agrees_self (number : JsonNumber) : number.agrees number = true := by
  cases number with
  | integer value inRange => exact beq_self_eq_true value
  | real value finite => exact beq_self_of_isNumber (isNumber_of_isFinite finite)

namespace Json

/-! ## Values agree with themselves -/

mutual

theorem agrees_self (value : Json) : value.agrees value = true := by
  cases value with
  | null => rfl
  | bool value => exact beq_self_eq_true value
  | number value => exact value.agrees_self
  | string value => exact beq_self_eq_true value
  | array items => exact agreeItems_self items
  | object members => exact agreeMembers_self members
termination_by sizeOf value

theorem agreeItems_self (items : List Json) : agreeItems items items = true := by
  cases items with
  | nil => rfl
  | cons item items => rw [agreeItems, agrees_self item, agreeItems_self items, Bool.and_self]
termination_by sizeOf items

theorem agreeMembers_self (members : List (String × Json)) :
    agreeMembers members members = true := by
  match members with
  | [] => rfl
  | (key, value) :: members =>
      rw [agreeMembers, beq_self_eq_true, agrees_self value, agreeMembers_self members,
        Bool.and_self, Bool.and_self]
termination_by sizeOf members

end

/-! ## Arrays and objects -/

/-- A value is read from its own node, given some room. -/
def Fits (room : Nat) (value : Json) : Prop :=
  value.node.readValue room = .ok value

theorem rows_foldl_insert {α : Type} (rows : List (String × α)) (table : ElementTable α) :
    (rows.foldl (fun table row => table.insert row.1 row.2) table).rows =
      rows.foldl (fun rows row => putRow row.1 row.2 rows) table.rows := by
  induction rows generalizing table with
  | nil => rfl
  | cons row rows ih => exact ih _

theorem foldl_putRow {α : Type} {rows : List (String × α)} (increase : KeysIncrease rows) :
    rows.foldl (fun rows row => putRow row.1 row.2 rows) [] = rows := by
  let table : ElementTable α := ⟨rows, increase⟩
  have same : ElementTable.ofList table.rows = table := ElementTable.ofList_of_perm (.refl _)
  have hrows := congrArg ElementTable.rows same
  rwa [ElementTable.ofList, rows_foldl_insert] at hrows

/-- Rows as reading leaves them: in order, and each to be read again. -/
structure RowsFit (room : Nat) (rows : List (String × Json)) : Prop where
  increase : KeysIncrease rows
  fits : ∀ row ∈ rows, row.2.Fits room

theorem RowsFit.putRow {room : Nat} {rows : List (String × Json)} (h : RowsFit room rows)
    {value : Json} (hvalue : value.Fits room) (key : String) :
    RowsFit room (putRow key value rows) := by
  refine ⟨h.increase.putRow key value, fun row hrow => ?_⟩
  rcases mem_putRow hrow with rfl | hold
  · exact hvalue
  · exact h.fits row hold

theorem readMembers_memberNodes {room : Nat} {members rows : List (String × Json)}
    (h : ∀ member ∈ members, member.2.Fits room) :
    Node.readMembers room (memberNodes members) rows =
      .ok (members.foldl (fun rows row => LogicTree.putRow row.1 row.2 rows) rows) := by
  induction members generalizing rows with
  | nil => rfl
  | cons member members ih =>
      obtain ⟨hmember, hmembers⟩ := List.forall_mem_cons.1 h
      have hread : member.2.node.readValue room = .ok member.2 := hmember
      rw [memberNodes, Node.readMembers, hread]
      exact ih hmembers

theorem RowsFit.fits_object {room inner : Nat} (hroom : enter room = .ok inner)
    {members : List (String × Json)} (h : RowsFit inner members) :
    (Json.object members).Fits room := by
  rw [Fits, node, Node.readValue, hroom]
  simp only [bind, Except.bind, readMembers_memberNodes h.fits, foldl_putRow h.increase, close, pure,
    Except.pure]

theorem fits_array {room inner : Nat} (hroom : enter room = .ok inner) {items : List Json}
    (h : Node.readValues inner (itemNodes items) = .ok items) : (Json.array items).Fits room := by
  rw [Fits, node, Node.readValue, hroom]
  simp only [bind, Except.bind, h, close, pure, Except.pure]

/-! ## Reading again -/

mutual

/-- What has been read is read again from its own node. -/
theorem fits_of_readValue {room : Nat} {node : Node} {value : Json}
    (h : node.readValue room = .ok value) : value.Fits room := by
  cases node with
  | null | bool =>
      cases h
      rfl
  | number number =>
      cases number <;> cases h
      rfl
  | string text =>
      cases text <;> cases h
      rfl
  | broken place => cases h
  | array items gap =>
      rw [Node.readValue] at h
      simp only [bind_eq_ok_iff, pure, Except.pure, Except.ok.injEq] at h
      obtain ⟨inner, hroom, values, hvalues, _, -, rfl⟩ := h
      exact fits_array hroom (readValues_itemNodes hvalues)
  | object members gap =>
      rw [Node.readValue] at h
      simp only [bind_eq_ok_iff, pure, Except.pure, Except.ok.injEq] at h
      obtain ⟨inner, hroom, rows, hrows, _, -, rfl⟩ := h
      have hnone : RowsFit inner [] := ⟨List.Pairwise.nil, nofun⟩
      exact (rowsFit_of_readMembers hrows hnone).fits_object hroom
termination_by sizeOf node

theorem readValues_itemNodes {room : Nat} {items : List Node} {values : List Json}
    (h : Node.readValues room items = .ok values) :
    Node.readValues room (itemNodes values) = .ok values := by
  cases items with
  | nil =>
      cases h
      rfl
  | cons item items =>
      rw [Node.readValues] at h
      simp only [bind_eq_ok_iff, pure, Except.pure, Except.ok.injEq] at h
      obtain ⟨value, hvalue, rest, hrest, rfl⟩ := h
      have hread : value.node.readValue room = .ok value := fits_of_readValue hvalue
      rw [itemNodes, Node.readValues, hread, readValues_itemNodes hrest]
      rfl
termination_by sizeOf items

-- The rows are in order and fit before and after each member, also where a member replaces an
-- earlier one of its key.
theorem rowsFit_of_readMembers {room : Nat} {members : List (Option String × Node)}
    {rows read : List (String × Json)} (h : Node.readMembers room members rows = .ok read)
    (hrows : RowsFit room rows) : RowsFit room read := by
  match members with
  | [] =>
      cases h
      exact hrows
  | (none, _) :: _ => cases h
  | (some key, node) :: members =>
      rw [Node.readMembers] at h
      obtain ⟨value, hvalue, hrest⟩ := bind_eq_ok_iff.1 h
      exact rowsFit_of_readMembers hrest (hrows.putRow (fits_of_readValue hvalue) key)
termination_by sizeOf members

end

end Json

end LogicTree
