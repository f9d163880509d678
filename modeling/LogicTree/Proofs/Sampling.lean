import LogicTree.Proofs.Checks
import LogicTree.Proofs.Paths
import LogicTree.Proofs.Sampling.Selection

/-! # Sampling from checked trees

A level that passes its check can be drawn from, whatever the draw is. The check asks for
weights that sum to about one, so some weight is positive; and where the running sums do
not reach the draw, the last of them is as near to one as the check asks. A sampling run
over checked levels takes one draw a level and ends in a path that has a weight.
-/

namespace LogicTree

theorem getLast?_runningSums (weights : List Float) (start : Float) :
    (runningSums start weights).getLast?.getD start = weights.foldl (· + ·) start := by
  induction weights generalizing start with
  | nil => rfl
  | cons weight weights ih =>
      have hlast : (runningSums start (weight :: weights)).getLast? =
          some ((runningSums (start + weight) weights).getLast?.getD (start + weight)) := by
        rw [runningSums, List.getLast?_cons]
      rw [hlast, List.foldl_cons, ← ih]
      rfl

namespace Level

open Float64

variable {level : Level}

theorem cumulativeTotal_eq (level : Level) :
    level.cumulativeTotal = level.weights.foldl (· + ·) 0.0 :=
  getLast?_runningSums level.weights 0.0

theorem abs_cumulativeTotal_sub_one (level : Level) :
    (level.cumulativeTotal - 1.0).abs = (level.weightSum - 1.0).abs := by
  rw [cumulativeTotal_eq, weightSum]
  rcases foldl_add_negativeZero level.weights with hsame | ⟨-, hnegative, hpositive⟩
  · rw [hsame]
  · rw [hnegative, hpositive]
    decide

/-- A level from which every draw selects a branch. -/
structure Drawable (level : Level) : Prop where
  numbered : level.WellNumbered
  /-- The weights sum to one, up to rounding. -/
  reached : (level.cumulativeTotal - 1.0).abs ≤ weightTolerance
  positive : ∃ branch ∈ level.branches, branch.weight > 0.0

/-- Without a positive weight the weights sum to zero, which is below one and far from it. -/
theorem exists_positive (hweights : ∀ w ∈ level.weights, 0.0 ≤ w)
    (h : 1.0 ≤ level.cumulativeTotal ∨ level.NearlyOne) : ∃ w ∈ level.weights, w > 0.0 := by
  by_contra hnone
  have hzeros : ∀ w ∈ level.weights, ∃ s, parts w = .zero s := by
    intro w hw
    exact parts_of_not_zero_lt (hweights w hw) fun hpos => hnone ⟨w, hw, hpos⟩
  obtain ⟨s, hsum⟩ := parts_foldl_add_zeros hzeros ⟨_, parts_zero⟩
  rw [← cumulativeTotal_eq] at hsum
  rw [NearlyOne] at h
  rcases eq_zero_of_parts hsum with hzero | hzero
  · rw [hzero] at h
    exact absurd h (by decide)
  · rw [hzero] at h
    exact absurd h (by decide)

theorem drawable_of_check {tolerance : Float} (narrow : tolerance ≤ weightTolerance)
    (checked : level.check tolerance = .ok ()) : level.Drawable := by
  obtain ⟨-, hnumbered, hunit, hsum⟩ := check_eq_ok_iff.1 checked
  have hweights := zero_le_weights hunit
  have hreached : (level.cumulativeTotal - 1.0).abs ≤ weightTolerance := by
    have hle := (not_lt_iff (isNumber_of_le narrow).1 (isNumber_distance hweights)).1 hsum
    rw [abs_cumulativeTotal_sub_one]
    exact le_of_le_of_le hle narrow
  obtain ⟨w, hw, hpositive⟩ := exists_positive hweights (.inr hreached)
  obtain ⟨branch, hbranch, rfl⟩ := List.mem_map.1 hw
  exact ⟨hnumbered, hreached, branch, hbranch, hpositive⟩

theorem Drawable.serves (h : level.Drawable) : level.Serves fun _ => True := by
  intro draw _
  obtain ⟨branch, hmem, hpositive⟩ := h.positive
  obtain ⟨position, hbranch⟩ := List.mem_iff_getElem?.1 hmem
  exact exists_selects_iff.2 (.inr ⟨⟨position, branch, hbranch, hpositive⟩, h.reached⟩)

/-- The branch that an id names at a level has a positive weight. -/
def NamesPositive (level : Level) (id : UInt32) : Prop :=
  ∃ branch, level.branch id = .ok branch ∧ branch.weight > 0.0

theorem WellNumbered.selectsId_iff (numbered : level.WellNumbered) {draw : Float} {position : Nat}
    {branch : Branch} (hbranch : level.branches[position]? = some branch) :
    level.SelectsId draw branch.id ↔ level.Selects draw position := by
  constructor
  · rintro ⟨other, same, hsame, hid, hselects⟩
    obtain ⟨hposition, rfl⟩ := List.getElem?_eq_some_iff.1 hbranch
    obtain ⟨hother, rfl⟩ := List.getElem?_eq_some_iff.1 hsame
    have hnumber := congrArg UInt32.toNat hid
    rw [numbered.id_getElem, numbered.id_getElem, Nat.add_right_cancel_iff] at hnumber
    rwa [← hnumber]
  · intro hselects
    exact ⟨position, branch, hbranch, rfl, hselects⟩

theorem SelectsId.namesPositive {draw : Float} {id : UInt32} (h : level.SelectsId draw id)
    (numbered : level.WellNumbered) : level.NamesPositive id := by
  obtain ⟨position, branch, hbranch, hid, hselects⟩ := h
  have hpositive := (positiveAt_iff hbranch).1 hselects.positive
  exact ⟨branch, numbered.branch_eq_ok_iff_mem.2 ⟨List.mem_of_getElem? hbranch, hid⟩, hpositive⟩

end Level

section Runs

variable {σ : Type} [UniformSource σ] {levels : List Level}

theorem namesPositive_of_sampleLevels (numbered : ∀ level ∈ levels, level.WellNumbered)
    {index : Nat} {source : σ} {ids : List UInt32}
    (h : (sampleLevels index levels source).result = .ok ids) :
    List.Forall₂ Level.NamesPositive levels ids := by
  have hselects := selectsId_of_sampleLevels (UniformSource.handsOut_true source) h
  clear h
  induction hselects with
  | nil => exact .nil
  | cons hfirst _ ih =>
      obtain ⟨hlevel, hlevels⟩ := List.forall_mem_cons.1 numbered
      obtain ⟨draw, -, hid⟩ := hfirst
      exact .cons (hid.namesPositive hlevel) (ih hlevels)

/-- A run over drawable levels takes one draw a level and names a branch of positive
    weight at each. -/
theorem sampleLevels_of_drawable (drawable : ∀ level ∈ levels, level.Drawable) (index : Nat)
    (source : σ) :
    ∃ ids, (sampleLevels index levels source).result = .ok ids ∧
      (sampleLevels index levels source).source = UniformSource.skip levels.length source ∧
      List.Forall₂ Level.NamesPositive levels ids := by
  obtain ⟨ids, hids⟩ := sampleLevels_of_serves (fun level hlevel => (drawable level hlevel).serves)
    (UniformSource.handsOut_true source) index
  exact ⟨ids, hids, source_of_sampleLevels hids,
    namesPositive_of_sampleLevels (fun level hlevel => (drawable level hlevel).numbered) hids⟩

end Runs

namespace Tree

variable {E : Type}

theorem multiplyWeights_of_names {levels : List Level} {ids : List UInt32}
    (h : List.Forall₂ Level.NamesPositive levels ids) (weight : Float) :
    ∃ product, multiplyWeights weight levels ids = .ok product := by
  induction h generalizing weight with
  | nil => exact ⟨weight, rfl⟩
  | cons hfirst _ ih =>
      obtain ⟨branch, hbranch, -⟩ := hfirst
      obtain ⟨product, hproduct⟩ := ih (weight * branch.weight)
      exact ⟨product, multiplyWeights_cons_eq_ok_iff.2 ⟨branch, hbranch, hproduct⟩⟩

theorem samplePath_eq_ok_iff {σ : Type} [UniformSource σ] {tree : Tree E} {source : σ}
    {path : Path} :
    (tree.samplePath source).result = .ok path ↔
      tree.levels ≠ [] ∧ (sampleLevels 0 tree.levels source).result = .ok path.ids := by
  by_cases nonempty : tree.levels = []
  · simp [samplePath, requireLevels, nonempty]
  · simp only [samplePath, requireLevels_ok_iff.2 nonempty, ne_eq, nonempty, not_false_eq_true,
      true_and]
    cases (sampleLevels 0 tree.levels source).result with
    | error e => simp [Except.map]
    | ok ids =>
        cases path
        simp [Except.map]

/-- Sampling a checked tree never fails, whatever the source hands out. It takes one draw
    a level, each segment of the path names a branch of positive weight, and the path has
    a joint weight, which its label has too. -/
theorem samplePath_of_check {σ : Type} [UniformSource σ] {tree : Tree E} {tolerance : Float}
    (narrow : tolerance ≤ weightTolerance) (checked : tree.check tolerance = .ok ())
    (source : σ) :
    ∃ path weight,
      (tree.samplePath source).result = .ok path ∧
      (tree.samplePath source).source = UniformSource.skip tree.depth source ∧
      (tree.samplePath (⟨source, 0⟩ : Counted σ)).source.taken = tree.depth ∧
      path.length = tree.depth ∧
      List.Forall₂ Level.NamesPositive tree.levels path.ids ∧
      tree.pathWeight path = .ok weight ∧
      Path.ofLabel path.label = .ok path ∧
      tree.totalWeight path.label = .ok weight := by
  obtain ⟨nonempty, hchecks⟩ := levels_of_check checked
  have drawable : ∀ level ∈ tree.levels, level.Drawable := fun level hlevel =>
    Level.drawable_of_check narrow (hchecks level hlevel)
  obtain ⟨ids, hresult, hsource, hnames⟩ := sampleLevels_of_drawable drawable 0 source
  -- the same run over a counted source, for the number of draws
  obtain ⟨-, -, hcounted, -⟩ := sampleLevels_of_drawable drawable 0 (⟨source, 0⟩ : Counted σ)
  obtain ⟨weight, hproduct⟩ := multiplyWeights_of_names hnames 1.0
  have hweight : tree.pathWeight ⟨ids⟩ = .ok weight :=
    pathWeight_eq_ok_iff.2 ⟨nonempty, hnames.length_eq.symm, hproduct⟩
  obtain ⟨hread, htotal⟩ := totalWeight_label hweight
  refine ⟨⟨ids⟩, weight, ?_, ?_, ?_, hnames.length_eq.symm, hnames, hweight, hread, htotal⟩
  · simp only [samplePath, requireLevels_ok_iff.2 nonempty, hresult, Except.map]
  · simp only [samplePath, requireLevels_ok_iff.2 nonempty, hsource, depth]
  · simp only [samplePath, requireLevels_ok_iff.2 nonempty, hcounted, UniformSource.taken_skip, depth,
      Nat.zero_add]

/-- Two even choices. -/
def coinToss : Tree String :=
  ⟨"", [⟨0, "", "", [⟨1, 0.5, .flag true, none, none⟩, ⟨2, 0.5, .flag false, none, none⟩]⟩], ∅⟩

theorem samplePath_of_check_coinToss :
    weightTolerance ≤ weightTolerance ∧ coinToss.check weightTolerance = .ok () ∧
      ∃ path, (coinToss.samplePath (Replay.start (0.0 / 0.0) [])).result = .ok path ∧
        path.length = 1 := by
  have narrow : weightTolerance ≤ weightTolerance := by decide
  have checked : coinToss.check weightTolerance = .ok () := rfl
  obtain ⟨path, weight, hresult, -, -, hlength, -⟩ :=
    samplePath_of_check narrow checked (Replay.start (0.0 / 0.0) [])
  exact ⟨narrow, checked, path, hresult, hlength⟩

end Tree

end LogicTree
