import Mathlib
import LogicTree.Tree.Weights

/-! # Counting paths

The number of complete paths is meant to be the product of the level sizes. It is
multiplied level by level, and each product on the way has to fit in 64 bits. Up to
the first level without branches the products only grow, and from there on they are
zero; so the sizes before that level decide whether the count overflows, even where
the whole product is zero.
-/

namespace LogicTree.Tree

variable {E : Type}

/-- Numbers of branches, level by level. -/
def levelSizes (levels : List Level) : List Nat :=
  levels.map fun level => level.branches.length

/-- Numbers of branches before the first level that has none. -/
def leadingSizes (levels : List Level) : List Nat :=
  (levelSizes levels).takeWhile (0 < ·)

/-- The product of the level sizes, if it fits in 64 bits: the count as documented. -/
def documentedCount (tree : Tree E) : Except Error Nat := do
  tree.requireLevels
  if (levelSizes tree.levels).prod < countBound then
    return (levelSizes tree.levels).prod
  else
    throw (.pathCountOverflow tree.depth)

theorem requireLevels_ok_iff {tree : Tree E} :
    tree.requireLevels = .ok () ↔ tree.levels ≠ [] := by
  unfold requireLevels
  cases tree.levels <;> simp

@[simp] theorem levelSizes_cons (level : Level) (levels : List Level) :
    levelSizes (level :: levels) = level.branches.length :: levelSizes levels := rfl

theorem leadingSizes_cons_of_empty {level : Level} (hempty : level.branches.length = 0)
    (levels : List Level) : leadingSizes (level :: levels) = [] := by
  simp [leadingSizes, hempty]

theorem leadingSizes_cons_of_pos {level : Level} (hpos : 0 < level.branches.length)
    (levels : List Level) :
    leadingSizes (level :: levels) = level.branches.length :: leadingSizes levels := by
  simp [leadingSizes, hpos]

theorem leadingSizes_prod_pos (levels : List Level) : 0 < (leadingSizes levels).prod := by
  apply List.prod_pos
  intro size hsize
  simpa using List.mem_takeWhile_imp hsize

theorem leadingSizes_of_zero_notMem {levels : List Level} (h : 0 ∉ levelSizes levels) :
    leadingSizes levels = levelSizes levels := by
  apply List.takeWhile_eq_self_iff.mpr
  intro size hsize
  have hne : size ≠ 0 := fun heq => h (heq ▸ hsize)
  exact decide_eq_true (Nat.pos_of_ne_zero hne)

theorem multiplySizes?_zero (levels : List Level) : multiplySizes? 0 levels = some 0 := by
  induction levels with
  | nil => rfl
  | cons level levels ih =>
      simp only [multiplySizes?, Nat.zero_mul]
      rw [if_pos (by decide), ih]

/-- Past the first empty level every product is zero, and before it no product is
    smaller than the one before; so the product of the leading sizes is the largest
    one taken. -/
theorem multiplySizes?_eq {count : Nat} (hpos : 0 < count) (hfits : count < countBound)
    (levels : List Level) :
    multiplySizes? count levels =
      if count * (leadingSizes levels).prod < countBound then
        some (count * (levelSizes levels).prod)
      else none := by
  induction levels generalizing count with
  | nil => simp [multiplySizes?, leadingSizes, levelSizes, hfits]
  | cons level levels ih =>
      -- an empty level ends the leading sizes, and every product from there on is zero
      rcases Nat.eq_zero_or_pos level.branches.length with hempty | hbranches
      · rw [multiplySizes?, leadingSizes_cons_of_empty hempty]
        simp [hempty, multiplySizes?_zero, hfits, show 0 < countBound by decide]
      · rw [multiplySizes?, leadingSizes_cons_of_pos hbranches]
        simp only [levelSizes_cons, List.prod_cons, ← Nat.mul_assoc]
        split
        · next hproduct => exact ih (Nat.mul_pos hpos hbranches) hproduct
        · next hlarge =>
            have hgrows : count * level.branches.length ≤
                count * level.branches.length * (leadingSizes levels).prod :=
              Nat.le_mul_of_pos_right _ (leadingSizes_prod_pos levels)
            rw [if_neg (by omega)]

theorem pathCount_eq {tree : Tree E} (nonempty : tree.levels ≠ []) :
    tree.pathCount =
      if (leadingSizes tree.levels).prod < countBound then
        .ok (levelSizes tree.levels).prod
      else .error (.pathCountOverflow tree.depth) := by
  have hone : multiplySizes? 1 tree.levels =
      if (leadingSizes tree.levels).prod < countBound then
        some (levelSizes tree.levels).prod
      else none := by
    simpa using multiplySizes?_eq Nat.one_pos (by decide) tree.levels
  simp only [pathCount, requireLevels_ok_iff.2 nonempty, hone, bind, Except.bind]
  split <;> simp_all [pure, Except.pure, throw, throwThe, MonadExceptOf.throw]

theorem documentedCount_eq {tree : Tree E} (nonempty : tree.levels ≠ []) :
    tree.documentedCount =
      if (levelSizes tree.levels).prod < countBound then
        .ok (levelSizes tree.levels).prod
      else .error (.pathCountOverflow tree.depth) := by
  simp only [documentedCount, requireLevels_ok_iff.2 nonempty, bind, Except.bind]
  rfl

theorem prod_of_pathCount {tree : Tree E} {total : Nat} (h : tree.pathCount = .ok total) :
    tree.levels ≠ [] ∧ total = (levelSizes tree.levels).prod := by
  have nonempty : tree.levels ≠ [] := by
    intro hnil
    simp [pathCount, requireLevels, hnil, bind, Except.bind] at h
  rw [pathCount_eq nonempty] at h
  split at h
  · exact ⟨nonempty, (Except.ok.inj h).symm⟩
  · cases h

/-- The product is missed only where an empty level comes after sizes whose product
    does not fit. -/
theorem pathCount_eq_documentedCount_iff {tree : Tree E} (nonempty : tree.levels ≠ []) :
    tree.pathCount = tree.documentedCount ↔
      ¬ (0 ∈ levelSizes tree.levels ∧ countBound ≤ (leadingSizes tree.levels).prod) := by
  rw [pathCount_eq nonempty, documentedCount_eq nonempty]
  by_cases hzero : 0 ∈ levelSizes tree.levels
  · have hprod : (levelSizes tree.levels).prod = 0 := List.prod_eq_zero hzero
    rw [hprod, if_pos (show 0 < countBound by decide)]
    by_cases hfits : (leadingSizes tree.levels).prod < countBound
    · simp [hfits]
    · simp [hfits, hzero, Nat.le_of_not_lt hfits]
  · simp [hzero, leadingSizes_of_zero_notMem hzero]

theorem pathCount_perm {tree : Tree E} {levels : List Level} (hperm : levels.Perm tree.levels)
    (hzero : 0 ∉ levelSizes tree.levels) :
    { tree with levels := levels }.pathCount = tree.pathCount := by
  have hsizes : (levelSizes levels).Perm (levelSizes tree.levels) := hperm.map _
  have hzero' : 0 ∉ levelSizes levels := fun hmem => hzero (hsizes.mem_iff.1 hmem)
  by_cases hnil : tree.levels = []
  · have hnil' : levels = [] := List.Perm.eq_nil (hnil ▸ hperm)
    simp [pathCount, requireLevels, hnil, hnil', bind, Except.bind]
  · have nonempty : levels ≠ [] := fun heq => hnil (List.Perm.eq_nil (heq ▸ hperm.symm))
    rw [pathCount_eq hnil, @pathCount_eq E { tree with levels := levels } nonempty]
    simp only [leadingSizes_of_zero_notMem hzero, leadingSizes_of_zero_notMem hzero',
      hsizes.prod_eq, depth, hperm.length_eq]

theorem pathCount_of_empty_head {tree : Tree E} {level : Level} {levels : List Level}
    (hlevels : tree.levels = level :: levels) (hempty : level.branches.length = 0) :
    tree.pathCount = .ok 0 := by
  have hsizes : (levelSizes tree.levels).prod = 0 := by simp [hlevels, hempty]
  rw [pathCount_eq (by simp [hlevels]), hsizes, hlevels, leadingSizes_cons_of_empty hempty]
  simp [countBound]

/-- The count is the product of the sizes, and it overflows exactly where the product
    of the leading sizes does not fit. That is the documented count unless an empty
    level comes after sizes whose product does not fit; so where no level is empty, it
    is the documented count, in any order of the levels. -/
theorem pathCount_exact {tree : Tree E} (nonempty : tree.levels ≠ []) :
    (∀ total, tree.pathCount = .ok total ↔
      total = (levelSizes tree.levels).prod ∧ (leadingSizes tree.levels).prod < countBound) ∧
    (∀ failure, tree.pathCount = .error failure ↔
      failure = .pathCountOverflow tree.depth ∧
        countBound ≤ (leadingSizes tree.levels).prod) ∧
    (tree.pathCount = tree.documentedCount ↔
      ¬ (0 ∈ levelSizes tree.levels ∧ countBound ≤ (leadingSizes tree.levels).prod)) ∧
    (0 ∉ levelSizes tree.levels → ∀ levels : List Level, levels.Perm tree.levels →
      { tree with levels := levels }.pathCount = tree.pathCount) := by
  refine ⟨?_, ?_, pathCount_eq_documentedCount_iff nonempty,
    fun hzero levels hperm => pathCount_perm hperm hzero⟩
  · intro total
    rw [pathCount_eq nonempty]
    split
    · next hfits => simp [hfits, eq_comm]
    · next hlarge => simp [hlarge]
  · intro failure
    rw [pathCount_eq nonempty]
    split
    · next hfits => simp [Nat.not_le_of_lt hfits]
    · next hlarge => simp [Nat.le_of_not_lt hlarge, eq_comm]

/-- A level with this many branches, all alike. -/
def evenLevel (size : Nat) : Level :=
  ⟨0, "", "", List.replicate size ⟨1, 0.5, .flag true, none, none⟩⟩

theorem levelSizes_evenLevels (number size : Nat) :
    levelSizes (List.replicate number (evenLevel size)) = List.replicate number size := by
  simp [levelSizes, evenLevel]

theorem pathCount_exact_two_three :
    let tree : Tree String := ⟨"", [evenLevel 2, evenLevel 3], ∅⟩
    tree.levels ≠ [] ∧ tree.pathCount = .ok 6 ∧
      { tree with levels := [evenLevel 3, evenLevel 2] }.pathCount = .ok 6 := by
  intro tree
  have nonempty : tree.levels ≠ [] := by simp [tree]
  have hsizes : levelSizes tree.levels = [2, 3] := rfl
  have hzero : 0 ∉ levelSizes tree.levels := by simp [hsizes]
  obtain ⟨hcount, -, -, hperm⟩ := pathCount_exact nonempty
  have hsix : tree.pathCount = .ok 6 := by
    refine (hcount 6).2 ?_
    rw [leadingSizes_of_zero_notMem hzero, hsizes]
    exact ⟨rfl, by simp [countBound]⟩
  have hswap : [evenLevel 3, evenLevel 2].Perm tree.levels := List.Perm.swap _ _ []
  exact ⟨nonempty, hsix, (hperm hzero _ hswap).trans hsix⟩

/-- Sixty-four levels of two branches and one without: there is no path, and the count
    overflows. With the empty level first it is zero. -/
theorem pathCount_overflows_before_empty :
    let many := List.replicate 64 (evenLevel 2)
    let tree : Tree String := ⟨"", many ++ [evenLevel 0], ∅⟩
    tree.documentedCount = .ok 0 ∧ tree.pathCount = .error (.pathCountOverflow 65) ∧
      { tree with levels := evenLevel 0 :: many }.pathCount = .ok 0 := by
  intro many tree
  have hsizes : levelSizes tree.levels = List.replicate 64 2 ++ [0] := by
    rw [← levelSizes_evenLevels 64 2]
    exact List.map_append
  have hleading : leadingSizes tree.levels = List.replicate 64 2 := by
    rw [leadingSizes, hsizes, List.takeWhile_append_of_pos (by simp)]
    simp
  have hlarge : ¬ (List.replicate 64 2).prod < countBound := by simp [countBound]
  refine ⟨?_, ?_, pathCount_of_empty_head rfl rfl⟩
  · rw [documentedCount_eq (by simp [tree]), hsizes]
    simp [countBound]
  · have hdepth : tree.depth = 65 := by simp [depth, tree, many]
    rw [pathCount_eq (by simp [tree]), hleading, if_neg hlarge, hdepth]

end LogicTree.Tree
