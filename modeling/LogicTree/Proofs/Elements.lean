import Mathlib.Data.List.Basic
import LogicTree.Elements

/-! # Rows of element tables

A table does not remember in which order its rows were put in, as long as no label is put
in twice: any order of the rows of a table gives the table back.
-/

namespace LogicTree

variable {α : Type}

theorem putRow_perm {key : String} (value : α) {rows : List (String × α)}
    (fresh : key ∉ rows.map Prod.fst) : (putRow key value rows).Perm ((key, value) :: rows) := by
  induction rows with
  | nil => exact .refl _
  | cons row rows ih =>
      obtain ⟨hne, hrest⟩ := not_or.1 (List.mem_cons.not.1 fresh)
      rw [putRow]
      split
      · exact .refl _
      · exact ((ih hrest).cons row).trans (.swap (key, value) row rows)

theorem lookup_row (key other : String) (value : α) (rows : List (String × α)) :
    ((key, value) :: rows).lookup other =
      if other = key then some value else rows.lookup other := by
  by_cases same : other = key
  · rw [same, List.lookup_cons_self, if_pos rfl]
  · rw [List.lookup_cons, beq_eq_false_iff_ne.2 same, if_neg same]

theorem lookup_putRow (key other : String) (value : α) (rows : List (String × α)) :
    (putRow key value rows).lookup other =
      if other = key then some value else rows.lookup other := by
  induction rows with
  | nil => exact lookup_row key other value []
  | cons row rows ih =>
      obtain ⟨first, held⟩ := row
      simp only [putRow]
      split
      · exact lookup_row key other value ((first, held) :: rows)
      · split
        · next replaced =>
            subst replaced
            simp only [lookup_row]
            split <;> rfl
        · next distinct =>
            rw [lookup_row, lookup_row, ih]
            by_cases here : other = first
            · have apart : other ≠ key := fun same => distinct (same ▸ here)
              rw [if_pos here, if_neg apart, if_pos here]
            · rw [if_neg here, if_neg here]

namespace ElementTable

variable {E : Type}

theorem get?_insert (table : ElementTable E) (label other : String) (element : E) :
    (table.insert label element).get? other =
      if other = label then some element else table.get? other :=
  lookup_putRow label other element table.rows

theorem foldl_insert_perm {rows : List (String × E)} {table : ElementTable E}
    (fresh : ((rows ++ table.rows).map Prod.fst).Nodup) :
    (rows.foldl (fun table row => table.insert row.1 row.2) table).rows.Perm
      (rows ++ table.rows) := by
  induction rows generalizing table with
  | nil => exact .refl _
  | cons row rows ih =>
      obtain ⟨key, value⟩ := row
      rw [List.cons_append, List.map_cons, List.nodup_cons] at fresh
      obtain ⟨hkey, hrest⟩ := fresh
      -- the row moves from the list to the table, so all keys together stay distinct
      have hput : (table.insert key value).rows.Perm ((key, value) :: table.rows) := by
        apply putRow_perm
        intro hmem
        exact hkey (by simp [hmem])
      have hmoved : (rows ++ (table.insert key value).rows).Perm
          ((key, value) :: (rows ++ table.rows)) :=
        (hput.append_left rows).trans List.perm_middle
      have hnodup : ((rows ++ (table.insert key value).rows).map Prod.fst).Nodup :=
        (hmoved.map Prod.fst).nodup_iff.2 (List.nodup_cons.2 ⟨hkey, hrest⟩)
      exact (ih hnodup).trans hmoved

theorem keys_nodup (table : ElementTable E) : (table.rows.map Prod.fst).Nodup := by
  refine List.pairwise_map.2 (table.increase.imp fun hlt heq => ?_)
  rw [heq] at hlt
  exact String.lt_irrefl _ hlt

theorem eq_of_perm {a b : ElementTable E} (h : a.rows.Perm b.rows) : a = b := by
  have hrows : a.rows = b.rows := by
    refine List.Perm.eq_of_pairwise ?_ a.increase b.increase h
    intro x y _ _ hlt hgt
    exact absurd (String.lt_trans hlt hgt) (String.lt_irrefl _)
  cases a
  cases b
  cases hrows
  rfl

theorem ofList_of_perm {table : ElementTable E} {rows : List (String × E)}
    (h : rows.Perm table.rows) : ofList rows = table := by
  have hnodup : ((rows ++ (∅ : ElementTable E).rows).map Prod.fst).Nodup := by
    have hrows := (h.map Prod.fst).nodup_iff.2 table.keys_nodup
    change ((rows ++ []).map Prod.fst).Nodup
    rwa [List.append_nil]
  have hperm := foldl_insert_perm hnodup
  change (ofList rows).rows.Perm (rows ++ []) at hperm
  rw [List.append_nil] at hperm
  exact eq_of_perm (hperm.trans h)

end ElementTable

end LogicTree
