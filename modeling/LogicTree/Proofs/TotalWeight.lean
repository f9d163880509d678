import LogicTree.Proofs.Float64.Nearest
import LogicTree.Proofs.Paths

/-! # The weight of all paths together

With rational weights the joint weights of all listed paths sum to the product of the sums of the
levels, since every path takes one factor from each of these sums. So they sum to about one, as far
as the levels do.
-/

namespace LogicTree

open Float64

/-- The exact sum of the weights of a level. A weight that is no finite number counts as zero. -/
def Level.exactSum (level : Level) : ℚ :=
  (level.branches.map fun branch => toRat branch.weight).sum

namespace Tree

variable {E : Type} {levels : List Level}

/-- The exact product of the weights of the branches that ids name, level by level. -/
def exactProduct : List Level → List UInt32 → Except Error ℚ
  | level :: levels, id :: ids => do
      let branch ← level.branch id
      let product ← exactProduct levels ids
      return toRat branch.weight * product
  | _, _ => .ok 1

/-- The exact product of the weights of the branches that a path names. -/
def exactWeight (tree : Tree E) (path : Path) : Except Error ℚ :=
  exactProduct tree.levels path.ids

/-- The exact products of all choices of a branch a level, in the order of the completions. -/
def exactProducts : List Level → List ℚ
  | [] => [1]
  | level :: levels =>
      level.branches.flatMap fun branch =>
        (exactProducts levels).map fun product => toRat branch.weight * product

theorem exactProduct_cons {level : Level} {branch : Branch} (numbered : level.WellNumbered)
    (h : branch ∈ level.branches) (levels : List Level) (ids : List UInt32) :
    exactProduct (level :: levels) (branch.id :: ids) =
      (exactProduct levels ids).map fun product => toRat branch.weight * product := by
  have hbranch : level.branch branch.id = .ok branch := numbered.branch_eq_ok_iff_mem.2 ⟨h, rfl⟩
  rw [exactProduct, hbranch]
  cases exactProduct levels ids <;> rfl

theorem map_exactProduct_completions (numbered : ∀ level ∈ levels, level.WellNumbered)
    (weight : Float) :
    (completions weight levels).map (fun row => exactProduct levels row.1) =
      (exactProducts levels).map .ok := by
  induction levels generalizing weight with
  | nil => rfl
  | cons level levels ih =>
      obtain ⟨hlevel, hlevels⟩ := List.forall_mem_cons.1 numbered
      rw [completions, exactProducts, List.map_flatMap, List.map_flatMap]
      apply List.flatMap_congr
      intro branch hbranch
      -- a completion of the branch names the branch first, which is found under its id
      have hrest := congrArg (List.map fun result : Except Error ℚ =>
        result.map fun product => toRat branch.weight * product)
        (ih hlevels (weight * branch.weight))
      simpa [exactProduct_cons hlevel hbranch, List.map_map, Function.comp_def, Except.map]
        using hrest

theorem sum_flatMap_products (branches : List Branch) (products : List ℚ) :
    (branches.flatMap fun branch =>
        products.map fun product => toRat branch.weight * product).sum =
      (branches.map fun branch => toRat branch.weight).sum * products.sum := by
  induction branches with
  | nil => simp
  | cons branch branches ih =>
      rw [List.flatMap_cons, List.sum_append, ih, List.map_cons, List.sum_cons, add_mul,
        List.sum_map_mul_left, List.map_id']

theorem sum_exactProducts (levels : List Level) :
    (exactProducts levels).sum = (levels.map Level.exactSum).prod := by
  induction levels with
  | nil => simp [exactProducts]
  | cons level levels ih =>
      -- every product of the later levels is taken once with each weight of this level
      rw [exactProducts, sum_flatMap_products, ih, List.map_cons, List.prod_cons, Level.exactSum]

theorem prod_between {sums : List ℚ} {t : ℚ} (narrow : t ≤ 1) (h : ∀ s ∈ sums, |s - 1| ≤ t) :
    (1 - t) ^ sums.length ≤ sums.prod ∧ sums.prod ≤ (1 + t) ^ sums.length := by
  induction sums with
  | nil => simp
  | cons s sums ih =>
      obtain ⟨hs, hsums⟩ := List.forall_mem_cons.1 h
      obtain ⟨low, high⟩ := ih hsums
      obtain ⟨below, above⟩ := abs_le.1 hs
      have bottom : 0 ≤ 1 - t := by linarith
      have power : 0 ≤ (1 - t) ^ sums.length := pow_nonneg bottom _
      rw [List.length_cons, List.prod_cons, pow_succ', pow_succ']
      constructor
      · exact mul_le_mul (by linarith) low power (by linarith)
      · exact mul_le_mul (by linarith) high (power.trans low) (by linarith)

/-- The exact weights of all listed paths sum to the product of the exact sums of the levels. As far
    as these are one, so is the total. -/
theorem sum_exactWeight_paths {tree : Tree E} {total : Nat} (counted : tree.pathCount = .ok total)
    (numbered : ∀ level ∈ tree.levels, level.WellNumbered) :
    ∃ (listed : List (Path × Float)) (weights : List ℚ), tree.paths = .ok listed ∧
      listed.map (fun row => tree.exactWeight row.1) = weights.map .ok ∧
      weights.sum = (tree.levels.map Level.exactSum).prod ∧
      ∀ t ≤ 1, (∀ level ∈ tree.levels, |level.exactSum - 1| ≤ t) →
        (1 - t) ^ tree.depth ≤ weights.sum ∧ weights.sum ≤ (1 + t) ^ tree.depth := by
  refine ⟨_, exactProducts tree.levels, paths_eq counted, ?_, sum_exactProducts tree.levels, ?_⟩
  · rw [← map_exactProduct_completions numbered 1.0, List.map_map]
    rfl
  · intro t narrow h
    have hsums : ∀ s ∈ tree.levels.map Level.exactSum, |s - 1| ≤ t := by
      simpa using h
    simpa [sum_exactProducts, depth] using prod_between narrow hsums

/-- One level short of one and one beyond it. -/
def shortAndLong : Tree String :=
  ⟨"", [⟨0, "", "", [⟨1, 0.5, .flag true, none, none⟩, ⟨2, 0.375, .flag false, none, none⟩]⟩,
    ⟨1, "", "", [⟨1, 1.0, .text "", none, none⟩, ⟨2, 0.125, .text "", none, none⟩]⟩], ∅⟩

theorem sum_exactWeight_paths_shortAndLong :
    shortAndLong.pathCount = .ok 4 ∧ (∀ level ∈ shortAndLong.levels, level.WellNumbered) ∧
      (∀ level ∈ shortAndLong.levels, |level.exactSum - 1| ≤ 1 / 8) ∧
      ∃ (listed : List (Path × Float)) (weights : List ℚ), shortAndLong.paths = .ok listed ∧
        listed.map (fun row => shortAndLong.exactWeight row.1) = weights.map .ok ∧
        weights.sum = (shortAndLong.levels.map Level.exactSum).prod ∧
        (1 - 1 / 8) ^ 2 ≤ weights.sum ∧ weights.sum ≤ (1 + 1 / 8) ^ 2 := by
  have counted : shortAndLong.pathCount = .ok 4 := rfl
  have numbered : ∀ level ∈ shortAndLong.levels, level.WellNumbered := by decide
  have near : ∀ level ∈ shortAndLong.levels, |level.exactSum - 1| ≤ 1 / 8 := by decide +kernel
  obtain ⟨listed, weights, hpaths, hweights, hsum, hbounds⟩ :=
    sum_exactWeight_paths counted numbered
  exact ⟨counted, numbered, near, listed, weights, hpaths, hweights, hsum,
    hbounds (1 / 8) (by norm_num) near⟩

end Tree

end LogicTree
