import LogicTree.Json.Printer
import LogicTree.Proofs.Json.Markup

/-! # Documents of values

The text of a value, in either spread and at any depth, is a text of its markup. So the document
that is written for a value is read as the node of the value, with nothing after it.
-/

namespace LogicTree.Json

/-! ## Nodes -/

mutual

/-- The node that a value is read as. -/
def node : Json → Node
  | .null => .null
  | .bool value => .bool value
  | .number value => .number (some value)
  | .string value => .string (some value)
  | .array items => .array (itemNodes items) none
  | .object members => .object (memberNodes members) none

/-- The nodes of items. -/
def itemNodes : List Json → List Node
  | [] => []
  | item :: items => node item :: itemNodes items

/-- The keys and nodes of members. -/
def memberNodes : List (String × Json) → List (Option String × Node)
  | [] => []
  | (key, value) :: members => (some key, node value) :: memberNodes members

end

theorem memberNodes_eq_map (members : List (String × Json)) :
    memberNodes members = members.map fun (key, value) => (some key, node value) := by
  induction members with
  | nil => rfl
  | cons member members ih => rw [memberNodes, ih, List.map_cons]

/-! ## Markup -/

namespace Markup

mutual

/-- The markup of a value as it is printed. -/
def ofJson : Json → Markup
  | .null => .null
  | .bool value => .bool value
  | .number value => .number (.printed value)
  | .string value => .string (.printed value)
  | .array items => .array (ofItems items)
  | .object members => .object (ofMembers members)

def ofItems : List Json → List Markup
  | [] => []
  | item :: items => ofJson item :: ofItems items

def ofMembers : List (String × Json) → List (StringText × Markup)
  | [] => []
  | (key, value) :: members => (.printed key, ofJson value) :: ofMembers members

end

mutual

theorem node_ofJson (value : Json) : (ofJson value).node = value.node := by
  cases value with
  | null | bool | number | string => rfl
  | array items => rw [ofJson, node, Json.node, itemNodes_ofItems items]
  | object members => rw [ofJson, node, Json.node, memberNodes_ofMembers members]
termination_by sizeOf value

theorem itemNodes_ofItems (items : List Json) :
    itemNodes (ofItems items) = Json.itemNodes items := by
  cases items with
  | nil => rfl
  | cons item items =>
      rw [ofItems, itemNodes, Json.itemNodes, node_ofJson item, itemNodes_ofItems items]
termination_by sizeOf items

theorem memberNodes_ofMembers (members : List (String × Json)) :
    memberNodes (ofMembers members) = Json.memberNodes members := by
  cases members with
  | nil => rfl
  | cons member members =>
      obtain ⟨key, value⟩ := member
      rw [ofMembers, memberNodes, Json.memberNodes, node_ofJson value,
        memberNodes_ofMembers members]
      rfl
termination_by sizeOf members

end

theorem ofMembers_eq_map (members : List (String × Json)) :
    ofMembers members = members.map fun member => (.printed member.1, ofJson member.2) := by
  induction members with
  | nil => rfl
  | cons member members ih => rw [ofMembers, ih, List.map_cons]

end Markup

theorem isBlank_lineBreak (spread : Spread) (depth : Nat) :
    ∀ byte ∈ spread.lineBreak depth, byte ∈ blanks := by
  intro byte hbyte
  cases spread with
  | compact => cases hbyte
  | lines =>
      rcases List.mem_cons.1 hbyte with rfl | hspace
      · decide
      · rw [List.eq_of_mem_replicate hspace]
        decide

theorem spaced_key {marks : List Mark} {rest : Bytes} (spread : Spread) (key : String)
    (h : Spaced marks rest) :
    Spaced ((StringText.printed key).mark :: .colon :: marks)
      (printString key ++ (spread.afterKey ++ rest)) := by
  apply Spaced.mark
  cases spread with
  | compact => exact .mark .colon h
  | lines =>
      have isBlank : ∀ byte ∈ [(0x20 : UInt8)], byte ∈ blanks := by
        intro byte hbyte
        rw [List.mem_singleton.1 hbyte]
        decide
      exact .mark .colon (h.space_append isBlank)

mutual

theorem spaced_printAt (spread : Spread) (depth : Nat) (value : Json) :
    Spaced (Markup.ofJson value).marks (printAt spread depth value) := by
  cases value with
  | null => exact .flatMap Markup.null.marks
  | bool value =>
      cases value with
      | true => exact .flatMap (Markup.bool true).marks
      | false => exact .flatMap (Markup.bool false).marks
  | number value =>
      have h := Spaced.flatMap (Markup.number (.printed value)).marks
      rwa [Markup.marks, List.flatMap_singleton] at h
  | string value =>
      have h := Spaced.flatMap (Markup.string (.printed value)).marks
      rwa [Markup.marks, List.flatMap_singleton] at h
  | array items =>
      cases items with
      | nil => exact .flatMap (Markup.array []).marks
      | cons item items =>
          have hclose : Spaced [.closeArray] [0x5d] := .flatMap [.closeArray]
          have hrest := (spaced_printItems spread (depth + 1) items).append
            (hclose.space_append (isBlank_lineBreak spread depth))
          have hitems := (spaced_printAt spread (depth + 1) item).append hrest
          simp only [printAt, List.append_assoc]
          exact .mark .openArray (hitems.space_append (isBlank_lineBreak spread (depth + 1)))
  | object members =>
      cases members with
      | nil => exact .flatMap (Markup.object []).marks
      | cons member members =>
          obtain ⟨key, value⟩ := member
          have hclose : Spaced [.closeObject] [0x7d] := .flatMap [.closeObject]
          have hrest := (spaced_printMembers spread (depth + 1) members).append
            (hclose.space_append (isBlank_lineBreak spread depth))
          have hmembers := spaced_key spread key
            ((spaced_printAt spread (depth + 1) value).append hrest)
          simp only [printAt, List.append_assoc]
          exact .mark .openObject (hmembers.space_append (isBlank_lineBreak spread (depth + 1)))
termination_by sizeOf value

theorem spaced_printItems (spread : Spread) (depth : Nat) (items : List Json) :
    Spaced (Markup.itemMarks (Markup.ofItems items)) (printItems spread depth items) := by
  cases items with
  | nil => exact .nil nofun
  | cons item items =>
      have hitems := (spaced_printAt spread depth item).append
        (spaced_printItems spread depth items)
      simp only [printItems, List.append_assoc]
      exact .mark .comma (hitems.space_append (isBlank_lineBreak spread depth))
termination_by sizeOf items

theorem spaced_printMembers (spread : Spread) (depth : Nat) (members : List (String × Json)) :
    Spaced (Markup.memberMarks (Markup.ofMembers members)) (printMembers spread depth members) := by
  cases members with
  | nil => exact .nil nofun
  | cons member members =>
      obtain ⟨key, value⟩ := member
      have hmembers := spaced_key spread key ((spaced_printAt spread depth value).append
        (spaced_printMembers spread depth members))
      simp only [printMembers, List.append_assoc]
      exact .mark .comma (hmembers.space_append (isBlank_lineBreak spread depth))
termination_by sizeOf members

end

theorem read_print (spread : Spread) (value : Json) :
    Document.read (value.print spread) .truncated = ⟨value.node, none⟩ := by
  rw [print, read_spaced (spaced_printAt spread 0 value), Markup.node_ofJson]

end LogicTree.Json
