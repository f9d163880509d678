/-! # Element tables

A table attaches elements to labels. Its rows are kept in the order of their labels, so that two
tables with the same rows are equal and the last element given for a label is the one kept.
-/

namespace LogicTree

/-- Puts a row into a list of rows ordered by key, over any row with the same key. -/
def putRow {α : Type} (key : String) (value : α) : List (String × α) → List (String × α)
  | [] => [(key, value)]
  | row :: rows =>
      if key < row.1 then (key, value) :: row :: rows
      else if key = row.1 then (key, value) :: rows
      else row :: putRow key value rows

/-- Rows stand in strictly increasing order of their keys. -/
def KeysIncrease {α : Type} (rows : List (String × α)) : Prop :=
  rows.Pairwise fun a b => a.1 < b.1

theorem mem_putRow {α : Type} {key : String} {value : α} {rows : List (String × α)}
    {row : String × α} (h : row ∈ putRow key value rows) : row = (key, value) ∨ row ∈ rows := by
  induction rows with
  | nil => simpa [putRow] using h
  | cons first rest ih =>
      simp only [putRow] at h
      split at h
      · simpa using h
      · split at h
        · rcases List.mem_cons.1 h with rfl | hrest
          · exact .inl rfl
          · exact .inr (List.mem_cons_of_mem _ hrest)
        · rcases List.mem_cons.1 h with rfl | hrest
          · exact .inr List.mem_cons_self
          · rcases ih hrest with rfl | hin
            · exact .inl rfl
            · exact .inr (List.mem_cons_of_mem _ hin)

theorem KeysIncrease.putRow {α : Type} {rows : List (String × α)} (h : KeysIncrease rows)
    (key : String) (value : α) : KeysIncrease (putRow key value rows) := by
  induction rows with
  | nil => simp [LogicTree.putRow, KeysIncrease]
  | cons first rest ih =>
      have hfirst : ∀ {row}, row ∈ rest → first.1 < row.1 := List.rel_of_pairwise_cons h
      have hrest : KeysIncrease rest := List.Pairwise.of_cons h
      simp only [LogicTree.putRow]
      split
      next hlt =>
        refine List.pairwise_cons.2 ⟨?_, h⟩
        intro row hrow
        rcases List.mem_cons.1 hrow with rfl | hin
        · exact hlt
        · exact String.lt_trans hlt (hfirst hin)
      next hnot =>
        split
        next heq =>
          subst heq
          exact List.pairwise_cons.2 ⟨fun row hrow => hfirst hrow, hrest⟩
        next hne =>
          have hgt : first.1 < key := by
            rcases String.le_total key first.1 with hle | hle
            · exact absurd (String.le_antisymm hle (String.not_lt.1 hnot)) hne
            · exact String.not_le.1 fun hback => hne (String.le_antisymm hback hle)
          refine List.pairwise_cons.2 ⟨?_, ih hrest⟩
          intro row hrow
          rcases mem_putRow hrow with rfl | hin
          · exact hgt
          · exact hfirst hin

/-- Elements by label, in label order. -/
structure ElementTable (E : Type) where
  rows : List (String × E)
  increase : KeysIncrease rows

namespace ElementTable

variable {E : Type}

instance : EmptyCollection (ElementTable E) := ⟨⟨[], List.Pairwise.nil⟩⟩

instance [DecidableEq E] : DecidableEq (ElementTable E) := fun a b =>
  decidable_of_iff (a.rows = b.rows) <| by
    cases a; cases b; simp

/-- The table with an element attached to a label, in place of any other element there. -/
def insert (table : ElementTable E) (label : String) (element : E) : ElementTable E :=
  ⟨putRow label element table.rows, table.increase.putRow label element⟩

/-- The table of a list of rows, the last row for a label being the one kept. -/
def ofList (rows : List (String × E)) : ElementTable E :=
  rows.foldl (fun table row => table.insert row.1 row.2) ∅

/-- The element attached to a label. -/
def get? (table : ElementTable E) (label : String) : Option E :=
  table.rows.lookup label

/-- The labels, in order. -/
def labels (table : ElementTable E) : List String :=
  table.rows.map Prod.fst

/-- The elements, in the order of their labels. -/
def elements (table : ElementTable E) : List E :=
  table.rows.map Prod.snd

/-- Number of labels. -/
def size (table : ElementTable E) : Nat :=
  table.rows.length

/-- The same labels, with elements that agree. -/
def agrees (sameElement : E → E → Bool) (a b : ElementTable E) : Bool :=
  a.labels == b.labels && (a.elements.zip b.elements).all fun pair => sameElement pair.1 pair.2

end ElementTable

end LogicTree
