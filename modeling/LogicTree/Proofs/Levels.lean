import Mathlib
import LogicTree.Level
import LogicTree.Proofs.Steps

/-! # Well-formed levels

The ids of a well-formed level count from one, in storage order. Then a branch is found
under its own id and under no other, and ids increase with positions. A level that passes
its check is numbered this way, has a branch, and all its weights lie from zero to one.
-/

namespace LogicTree.Level

variable {level : Level} {id : UInt32} {branch : Branch}

/-- Ids count from one, in storage order. -/
def WellNumbered (level : Level) : Prop :=
  level.branches.map (fun branch => branch.id.toNat) = List.range' 1 level.branches.length

instance (level : Level) : Decidable level.WellNumbered :=
  inferInstanceAs (Decidable (_ = _))

theorem WellNumbered.id_getElem (h : level.WellNumbered) {index : Nat}
    (hindex : index < level.branches.length) :
    level.branches[index].id.toNat = index + 1 := by
  have hget : (level.branches.map fun branch => branch.id.toNat)[index]? =
      (List.range' 1 level.branches.length)[index]? := congrArg (·[index]?) h
  simp [hindex] at hget
  omega

theorem branch_eq_ok_iff :
    level.branch id = .ok branch ↔
      id ≠ 0 ∧ level.branches[id.toNat - 1]? = some branch := by
  unfold Level.branch
  by_cases hid : id = 0
  · simp [hid]
  · cases hfound : level.branches[id.toNat - 1]? <;> simp [hid]

theorem WellNumbered.branch_eq_ok_iff_mem (h : level.WellNumbered) :
    level.branch id = .ok branch ↔ branch ∈ level.branches ∧ branch.id = id := by
  rw [branch_eq_ok_iff]
  constructor
  · rintro ⟨hid, hfound⟩
    obtain ⟨hindex, hget⟩ := List.getElem?_eq_some_iff.1 hfound
    have hnumber := h.id_getElem hindex
    have hpos : id.toNat ≠ 0 := fun hzero => hid (UInt32.toNat_inj.1 hzero)
    refine ⟨hget ▸ List.getElem_mem hindex, UInt32.toNat_inj.1 ?_⟩
    rw [← hget, hnumber]
    omega
  · rintro ⟨hmem, rfl⟩
    obtain ⟨index, hindex, rfl⟩ := List.getElem_of_mem hmem
    have hnumber := h.id_getElem hindex
    refine ⟨fun hzero => ?_, ?_⟩
    · rw [hzero] at hnumber
      simp at hnumber
    · rw [hnumber, Nat.add_sub_cancel]
      exact List.getElem?_eq_getElem hindex

theorem WellNumbered.ids_increase (h : level.WellNumbered) :
    level.branches.Pairwise fun a b => a.id < b.id := by
  have hnumbers : (level.branches.map fun branch => branch.id.toNat).Pairwise (· < ·) := by
    rw [h]
    exact List.pairwise_lt_range'
  exact (List.pairwise_map.1 hnumbers).imp fun hlt => UInt32.lt_iff_toNat_lt.2 hlt

theorem isUnitWeight_iff {weight : Float} :
    isUnitWeight weight = true ↔ weight.isFinite = true ∧ 0.0 ≤ weight ∧ weight ≤ 1.0 := by
  simp [isUnitWeight, and_assoc]

theorem isFinite_of_isUnitWeight {weight : Float} (h : isUnitWeight weight = true) :
    weight.isFinite = true :=
  (isUnitWeight_iff.1 h).1

theorem zero_le_of_isUnitWeight {weight : Float} (h : isUnitWeight weight = true) :
    0.0 ≤ weight :=
  (isUnitWeight_iff.1 h).2.1

theorem zero_le_weights (hunit : ∀ branch ∈ level.branches, isUnitWeight branch.weight = true) :
    ∀ w ∈ level.weights, 0.0 ≤ w := by
  intro w hw
  obtain ⟨branch, hbranch, rfl⟩ := List.mem_map.1 hw
  exact zero_le_of_isUnitWeight (hunit branch hbranch)

theorem checkBranches_eq_ok_iff {position : Nat} {branches : List Branch} :
    level.checkBranches position branches = .ok () ↔
      branches.map (fun branch => branch.id.toNat) =
          List.range' (position + 1) branches.length ∧
        ∀ branch ∈ branches, isUnitWeight branch.weight = true := by
  induction branches generalizing position with
  | nil => simp [checkBranches]
  | cons branch rest ih =>
      simp only [checkBranches, List.map_cons, List.length_cons, List.range'_succ,
        List.cons.injEq, List.forall_mem_cons]
      by_cases hid : branch.id.toNat = position + 1
      · by_cases hweight : isUnitWeight branch.weight = true
        · simp [hid, hweight, ih]
        · simp [hid, hweight]
      · simp [hid]

theorem check_eq_ok_iff {tolerance : Float} :
    level.check tolerance = .ok () ↔
      level.branches ≠ [] ∧ level.WellNumbered ∧
        (∀ branch ∈ level.branches, isUnitWeight branch.weight = true) ∧
        ¬ (level.weightSum - 1.0).abs > tolerance := by
  have hbranches : level.checkBranches 0 level.branches = .ok () ↔
      level.WellNumbered ∧ ∀ branch ∈ level.branches, isUnitWeight branch.weight = true :=
    checkBranches_eq_ok_iff
  by_cases hempty : level.branches = []
  · simp [check, hempty, throw_eq_error, error_bind]
  · by_cases hsum : (level.weightSum - 1.0).abs > tolerance
    · simp [check, hempty, hsum, test_bind_eq_ok_iff, throw_eq_error]
    · simp [check, hempty, hsum, test_bind_eq_ok_iff, hbranches, pure_eq_ok]

end LogicTree.Level
