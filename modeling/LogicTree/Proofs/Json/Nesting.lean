import LogicTree.Proofs.Json.Values

/-! # How deep values nest

A value that is built in memory may nest to any depth, and is written whatever its depth is. It is
read back from its own node exactly if the room is enough for its depth; otherwise its text counts
as malformed.
-/

namespace LogicTree.Json

mutual

/-- How deep the arrays and objects of a value nest. -/
def nesting : Json → Nat
  | .array items => itemsNesting items + 1
  | .object members => membersNesting members + 1
  | _ => 0

def itemsNesting : List Json → Nat
  | [] => 0
  | item :: items => max item.nesting (itemsNesting items)

def membersNesting : List (String × Json) → Nat
  | [] => 0
  | (_, value) :: members => max value.nesting (membersNesting members)

end

mutual

/-- The members of all objects stand in the order of their keys, one for each key, as maps keep
    them. -/
def Ordered : Json → Prop
  | .array items => ItemsOrdered items
  | .object members => KeysIncrease members ∧ MembersOrdered members
  | _ => True

def ItemsOrdered : List Json → Prop
  | [] => True
  | item :: items => item.Ordered ∧ ItemsOrdered items

def MembersOrdered : List (String × Json) → Prop
  | [] => True
  | (_, value) :: members => value.Ordered ∧ MembersOrdered members

end

/-- The problem with a text that nests too deep. -/
def tooDeep : Problem := .fault .malformed

mutual

theorem readValue_node {value : Json} (ordered : value.Ordered) (room : Nat) :
    value.node.readValue (room + 1) =
      if value.nesting ≤ room then .ok value else .error tooDeep := by
  cases value with
  | null | bool | number | string => simp [node, Node.readValue, nesting]
  | array items =>
      rw [node, Node.readValue, nesting]
      cases room with
      | zero => rfl
      | succ room =>
          rw [Ordered] at ordered
          simp only [enter, bind, Except.bind, readValues_node ordered room, Nat.add_le_add_iff_right]
          by_cases fits : itemsNesting items ≤ room
          · simp only [fits, if_true, close, pure, Except.pure]
          · simp only [fits, if_false]
  | object members =>
      rw [node, Node.readValue, nesting]
      cases room with
      | zero => rfl
      | succ room =>
          rw [Ordered] at ordered
          obtain ⟨increase, values⟩ := ordered
          simp only [enter, bind, Except.bind, readMembers_node values room, foldl_putRow increase,
            Nat.add_le_add_iff_right]
          by_cases fits : membersNesting members ≤ room
          · simp only [fits, if_true, close, pure, Except.pure]
          · simp only [fits, if_false]
termination_by sizeOf value

theorem readValues_node {items : List Json} (ordered : ItemsOrdered items) (room : Nat) :
    Node.readValues (room + 1) (itemNodes items) =
      if itemsNesting items ≤ room then .ok items else .error tooDeep := by
  cases items with
  | nil => simp [itemNodes, Node.readValues, itemsNesting]
  | cons item items =>
      obtain ⟨first, others⟩ := ordered
      rw [itemNodes, Node.readValues, readValue_node first, readValues_node others, itemsNesting]
      by_cases fits : item.nesting ≤ room
      · by_cases othersFit : itemsNesting items ≤ room <;>
          simp [fits, othersFit, bind, Except.bind, pure, Except.pure]
      · simp [fits, bind, Except.bind]
termination_by sizeOf items

theorem readMembers_node {members : List (String × Json)} (ordered : MembersOrdered members)
    (room : Nat) {rows : List (String × Json)} :
    Node.readMembers (room + 1) (memberNodes members) rows =
      if membersNesting members ≤ room then
        .ok (members.foldl (fun rows row => putRow row.1 row.2 rows) rows)
      else .error tooDeep := by
  match members with
  | [] => simp [memberNodes, Node.readMembers, membersNesting]
  | (key, value) :: members =>
      obtain ⟨first, others⟩ := ordered
      rw [memberNodes, Node.readMembers, readValue_node first, membersNesting]
      by_cases fits : value.nesting ≤ room
      · simp [fits, bind, Except.bind, readMembers_node others room]
      · simp [fits, bind, Except.bind]
termination_by sizeOf members

end

end LogicTree.Json
