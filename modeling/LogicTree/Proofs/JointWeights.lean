import LogicTree.Proofs.Checks
import LogicTree.Proofs.Float64.Products
import LogicTree.Proofs.Prefixes
import LogicTree.Proofs.Sampling.UnitDraws
import LogicTree.Proofs.Sampling

/-! # Joint weights of paths in checked trees

The weights of a checked tree lie between zero and one, so the product of the weights of a path
never grows on the way: each decision leaves it where it is or lowers it. A path that is drawn
decides for positive weights only, but their product may underflow: it is zero as soon as one of the
exact products on the way is at most half of the least positive double.
-/

namespace LogicTree

open Float64

namespace Level

variable {level : Level}

/-- An id that stands for a position of the level. -/
def InRange (level : Level) (id : UInt32) : Prop :=
  1 ≤ id.toNat ∧ id.toNat ≤ level.branches.length

/-- The branch that an id names at a level has a weight of a kind. -/
def NamesWeight (kind : Float → Prop) (level : Level) (id : UInt32) : Prop :=
  ∃ branch, level.branch id = .ok branch ∧ kind branch.weight

theorem InRange.branch {id : UInt32} (h : level.InRange id) :
    ∃ branch, level.branch id = .ok branch := by
  obtain ⟨hpositive, hlength⟩ := h
  have hindex : id.toNat - 1 < level.branches.length := by omega
  refine ⟨_, branch_eq_ok_iff.2 ⟨?_, List.getElem?_eq_getElem hindex⟩⟩
  rintro rfl
  exact absurd hpositive (by decide)

theorem mem_of_branch {id : UInt32} {branch : Branch} (h : level.branch id = .ok branch) :
    branch ∈ level.branches :=
  List.mem_of_getElem? (branch_eq_ok_iff.1 h).2

theorem inUnitInterval_of_check {tolerance : Float} (checked : level.check tolerance = .ok ())
    {branch : Branch} (hbranch : branch ∈ level.branches) : InUnitInterval branch.weight := by
  obtain ⟨-, hweight⟩ := (check_ok_iff_sumsWithin.1 checked).1.unit branch hbranch
  exact ⟨hweight.1, hweight.2⟩

end Level

theorem namedWeights_of_forall₂ {kind : Float → Prop} {levels : List Level} {ids : List UInt32}
    (h : List.Forall₂ (Level.NamesWeight kind) levels ids) :
    ∃ factors : List Float, namedWeights levels ids = factors.map .ok ∧
      ∀ factor ∈ factors, kind factor := by
  induction h with
  | nil => exact ⟨[], rfl, by simp⟩
  | cons hfirst _ ih =>
      obtain ⟨branch, hbranch, hkind⟩ := hfirst
      obtain ⟨factors, hnamed, hfactors⟩ := ih
      refine ⟨branch.weight :: factors, ?_, List.forall_mem_cons.2 ⟨hkind, hfactors⟩⟩
      rw [namedWeights] at hnamed ⊢
      rw [List.zipWith_cons_cons, hnamed, hbranch]
      rfl

namespace Tree

variable {E : Type} {tree : Tree E} {path : Path} {tolerance : Float} {factors : List Float}

/-- The product of the weights of the first decisions of a path, as it stands after as many
    levels. -/
def weightThrough (tree : Tree E) (path : Path) (count : Nat) : Except Error Float :=
  multiplyWeights 1.0 (tree.levels.take count) (path.ids.take count)

/-- The weights of the decisions of a path that names a branch at every level. -/
structure HasFactors (tree : Tree E) (path : Path) (factors : List Float) : Prop where
  nonempty : tree.levels ≠ []
  length_eq : path.length = tree.depth
  named : namedWeights tree.levels path.ids = factors.map .ok

theorem hasFactors_of_forall₂ {kind : Float → Prop} (nonempty : tree.levels ≠ [])
    (h : List.Forall₂ (Level.NamesWeight kind) tree.levels path.ids) :
    ∃ factors, tree.HasFactors path factors ∧ ∀ factor ∈ factors, kind factor := by
  obtain ⟨factors, hnamed, hfactors⟩ := namedWeights_of_forall₂ h
  exact ⟨factors, ⟨nonempty, h.length_eq.symm, hnamed⟩, hfactors⟩

namespace HasFactors

variable (h : tree.HasFactors path factors)
include h

theorem prefixWeights_eq : tree.prefixWeights path = factors.map .ok := by
  rw [← namedWeights_eq h.length_eq, h.named]

theorem length_factors : factors.length = tree.depth := by
  have hlength := congrArg List.length h.prefixWeights_eq
  simpa [prefixWeights] using hlength.symm

theorem pathWeight : tree.pathWeight path = .ok (factors.foldl (· * ·) 1.0) :=
  pathWeight_of_prefixWeights h.nonempty h.length_eq h.prefixWeights_eq

theorem weightThrough (count : Nat) :
    tree.weightThrough path count = .ok ((factors.take count).foldl (· * ·) 1.0) := by
  refine multiplyWeights_of_ok ?_ 1.0
  have htake := congrArg (List.take count) h.named
  rwa [namedWeights, List.take_zipWith, ← List.map_take] at htake

theorem getElem?_factors {index : Nat} (hindex : index < tree.depth) :
    ∃ factor, factors[index]? = some factor ∧
      tree.conditionalWeight (path.take (index + 1)) = .ok factor := by
  have hfactor : index < factors.length := h.length_factors ▸ hindex
  refine ⟨factors[index], List.getElem?_eq_getElem hfactor, ?_⟩
  have hget := getElem?_prefixWeights hindex path
  rw [h.prefixWeights_eq, List.getElem?_map, List.getElem?_eq_getElem hfactor] at hget
  exact (Option.some.inj hget).symm

theorem weightThrough_succ {index : Nat} {factor : Float}
    (hfactor : factors[index]? = some factor) :
    tree.weightThrough path (index + 1) =
      .ok ((factors.take index).foldl (· * ·) 1.0 * factor) := by
  rw [h.weightThrough, List.take_add_one, hfactor, List.foldl_append]
  rfl

end HasFactors

theorem hasFactors_of_inRange (checked : tree.check tolerance = .ok ())
    (inRange : List.Forall₂ Level.InRange tree.levels path.ids) :
    ∃ factors, tree.HasFactors path factors ∧ ∀ factor ∈ factors, InUnitInterval factor := by
  obtain ⟨nonempty, hchecks⟩ := levels_of_check checked
  refine hasFactors_of_forall₂ nonempty ?_
  refine ((List.forall₂_and_left _ _).2 ⟨hchecks, inRange⟩).imp ?_
  rintro level id ⟨hchecked, hrange⟩
  obtain ⟨branch, hbranch⟩ := hrange.branch
  exact ⟨branch, hbranch, Level.inUnitInterval_of_check hchecked (Level.mem_of_branch hbranch)⟩

/-- In a checked tree every path that names a branch at each level has a joint weight, between zero
    and one and no larger than any of the weights that it is multiplied from. The product starts at
    one, and every further decision multiplies it and does not raise it. -/
theorem pathWeight_bounds (checked : tree.check tolerance = .ok ()) (path : Path)
    (inRange : List.Forall₂ Level.InRange tree.levels path.ids) :
    ∃ weight, tree.pathWeight path = .ok weight ∧
      weight.isNaN = false ∧ 0.0 ≤ weight ∧ weight ≤ 1.0 ∧
      tree.weightThrough path 0 = .ok 1.0 ∧
      tree.weightThrough path tree.depth = .ok weight ∧
      ∀ index < tree.depth, ∃ before conditional,
        tree.weightThrough path index = .ok before ∧
        tree.conditionalWeight (path.take (index + 1)) = .ok conditional ∧
        tree.weightThrough path (index + 1) = .ok (before * conditional) ∧
        before * conditional ≤ before ∧ weight ≤ conditional := by
  obtain ⟨factors, h, hunit⟩ := hasFactors_of_inRange checked inRange
  have hproduct := inUnitInterval_foldl_mul hunit inUnitInterval_one
  refine ⟨_, h.pathWeight, hproduct.isNaN_eq_false, hproduct.zero_le, hproduct.le_one,
    h.weightThrough 0, ?_, ?_⟩
  · rw [h.weightThrough, ← h.length_factors, List.take_length]
  · intro index hindex
    obtain ⟨factor, hfactor, hconditional⟩ := h.getElem?_factors hindex
    have hmem := List.mem_of_getElem? hfactor
    have hbefore : InUnitInterval ((factors.take index).foldl (· * ·) 1.0) :=
      inUnitInterval_foldl_mul (fun f hf => hunit f (List.mem_of_mem_take hf)) inUnitInterval_one
    exact ⟨_, factor, h.weightThrough index, hconditional, h.weightThrough_succ hfactor,
      hbefore.mul_le_left (hunit factor hmem),
      foldl_mul_le_of_mem hunit inUnitInterval_one factor hmem⟩

/-- Two choices of a small weight, the first beside a negative zero. -/
def smallWeights : Tree String :=
  ⟨"", [⟨0, "", "", [⟨1, -0.0, .text "", none, none⟩, ⟨2, 1e-160, .text "", none, none⟩,
      ⟨3, 1.0, .text "", none, none⟩]⟩,
    ⟨1, "", "", [⟨1, 1e-160, .flag true, none, none⟩, ⟨2, 1.0, .flag false, none, none⟩]⟩], ∅⟩

theorem pathWeight_bounds_smallWeights :
    smallWeights.check 0.0 = .ok () ∧ List.Forall₂ Level.InRange smallWeights.levels [2, 1] ∧
      ∃ weight, smallWeights.pathWeight ⟨[2, 1]⟩ = .ok weight ∧ 0.0 ≤ weight ∧ weight ≤ 1.0 := by
  have checked : smallWeights.check 0.0 = .ok () := by decide +kernel
  have inRange : List.Forall₂ Level.InRange smallWeights.levels [2, 1] :=
    .cons ⟨by decide, by decide⟩ (.cons ⟨by decide, by decide⟩ .nil)
  obtain ⟨weight, hweight, -, hzero, hone, -⟩ := pathWeight_bounds checked ⟨[2, 1]⟩ inRange
  exact ⟨checked, inRange, weight, hweight, hzero, hone⟩

/-! ## Underflow -/

/-- The exact product of a decision's weight and of the product before it is too small for a
    positive double: at most half of the least one. -/
def UnderflowsAt (tree : Tree E) (path : Path) (index : Nat) : Prop :=
  ∃ before conditional, tree.weightThrough path index = .ok before ∧
    tree.conditionalWeight (path.take (index + 1)) = .ok conditional ∧
    toRat before * toRat conditional ≤ 2 ^ (-1075 : Int)

theorem HasFactors.underflowsAt_iff (h : tree.HasFactors path factors) {index : Nat}
    {factor : Float} (hfactor : factors[index]? = some factor) :
    tree.UnderflowsAt path index ↔
      toRat ((factors.take index).foldl (· * ·) 1.0) * toRat factor ≤ 2 ^ (-1075 : Int) := by
  obtain ⟨hindex, -⟩ := List.getElem?_eq_some_iff.1 hfactor
  obtain ⟨other, hother, hconditional⟩ := h.getElem?_factors (h.length_factors ▸ hindex)
  obtain rfl : factor = other := Option.some.inj (hfactor.symm.trans hother)
  simp [UnderflowsAt, h.weightThrough, hconditional]

theorem HasFactors.zero_lt_iff (h : tree.HasFactors path factors)
    (hunit : ∀ factor ∈ factors, InUnitInterval factor) :
    0.0 < factors.foldl (· * ·) 1.0 ↔ ∀ index < tree.depth, ¬ tree.UnderflowsAt path index := by
  have hone : (0.0 : Float) < 1.0 := by decide
  rw [zero_lt_foldl_mul_iff hunit inUnitInterval_one, and_iff_right hone]
  constructor
  · intro hlarge index hindex
    obtain ⟨factor, hfactor, -⟩ := h.getElem?_factors hindex
    rw [h.underflowsAt_iff hfactor]
    exact not_le.2 (hlarge index factor hfactor)
  · intro hnot index factor hfactor
    obtain ⟨hindex, -⟩ := List.getElem?_eq_some_iff.1 hfactor
    have hlarge := hnot index (h.length_factors ▸ hindex)
    rwa [h.underflowsAt_iff hfactor, not_le] at hlarge

theorem hasFactors_of_samplePath {σ : Type} [UniformSource σ]
    (checked : tree.check tolerance = .ok ()) {source : σ}
    (h : (tree.samplePath source).result = .ok path) :
    ∃ factors, tree.HasFactors path factors ∧
      ∀ factor ∈ factors, InUnitInterval factor ∧ 0.0 < factor := by
  obtain ⟨nonempty, hids⟩ := samplePath_eq_ok_iff.1 h
  have hchecks := (levels_of_check checked).2
  have hnames := namesPositive_of_sampleLevels
    (fun level hlevel => (Level.check_eq_ok_iff.1 (hchecks level hlevel)).2.1) hids
  refine hasFactors_of_forall₂ nonempty ?_
  refine ((List.forall₂_and_left _ _).2 ⟨hchecks, hnames⟩).imp ?_
  rintro level id ⟨hchecked, branch, hbranch, hpositive⟩
  exact ⟨branch, hbranch,
    Level.inUnitInterval_of_check hchecked (Level.mem_of_branch hbranch), hpositive⟩

/-- From a checked tree, whatever the source hands out, a path is drawn whose decisions all have
    positive weights. Its joint weight is not negative, and it is positive exactly if the product
    underflows at no level. -/
theorem samplePath_positive_iff {σ : Type} [UniformSource σ]
    (checked : tree.check weightTolerance = .ok ()) (source : σ) :
    ∃ path weight, (tree.samplePath source).result = .ok path ∧
      tree.pathWeight path = .ok weight ∧ 0.0 ≤ weight ∧
      (∀ index < tree.depth, ∃ conditional,
        tree.conditionalWeight (path.take (index + 1)) = .ok conditional ∧ 0.0 < conditional) ∧
      (0.0 < weight ↔ ∀ index < tree.depth, ¬ tree.UnderflowsAt path index) := by
  obtain ⟨nonempty, hchecks⟩ := levels_of_check checked
  have narrow : weightTolerance ≤ weightTolerance := by decide
  obtain ⟨ids, hids, -⟩ := sampleLevels_of_drawable
    (fun level hlevel => Level.drawable_of_check narrow (hchecks level hlevel)) 0 source
  have hpath : (tree.samplePath source).result = .ok ⟨ids⟩ :=
    samplePath_eq_ok_iff.2 ⟨nonempty, hids⟩
  obtain ⟨factors, h, hfactors⟩ := hasFactors_of_samplePath checked hpath
  have hunit := fun factor hfactor => (hfactors factor hfactor).1
  refine ⟨⟨ids⟩, _, hpath, h.pathWeight,
    (inUnitInterval_foldl_mul hunit inUnitInterval_one).zero_le, ?_, h.zero_lt_iff hunit⟩
  intro index hindex
  obtain ⟨factor, hfactor, hconditional⟩ := h.getElem?_factors hindex
  exact ⟨factor, hconditional, (hfactors factor (List.mem_of_getElem? hfactor)).2⟩

/-- A subnormal joint weight has not underflowed. -/
theorem samplePath_positive_iff_smallWeights :
    smallWeights.check weightTolerance = .ok () ∧
      (smallWeights.samplePath (Replay.start 1e-161 [])).result = .ok ⟨[2, 1]⟩ ∧
      ∀ index < smallWeights.depth, ¬ smallWeights.UnderflowsAt ⟨[2, 1]⟩ index := by
  have checked : smallWeights.check weightTolerance = .ok () := by decide +kernel
  have drawn : (smallWeights.samplePath (Replay.start 1e-161 [])).result = .ok ⟨[2, 1]⟩ := by
    decide +kernel
  have product : smallWeights.pathWeight ⟨[2, 1]⟩ = .ok (1.0 * 1e-160 * 1e-160) := by
    decide +kernel
  have positive : (0.0 : Float) < 1.0 * 1e-160 * 1e-160 := by decide +kernel
  obtain ⟨path, weight, hpath, hweight, -, -, hpositive⟩ :=
    samplePath_positive_iff checked (Replay.start 1e-161 [])
  obtain rfl : path = ⟨[2, 1]⟩ := Except.ok.inj (hpath.symm.trans drawn)
  obtain rfl : weight = 1.0 * 1e-160 * 1e-160 := Except.ok.inj (hweight.symm.trans product)
  exact ⟨checked, drawn, hpositive.1 positive⟩

/-- Two choices of a weight whose square is too small for a positive double. -/
def tinyWeights : Tree String :=
  ⟨"", [⟨0, "", "", [⟨1, 1e-200, .flag true, none, none⟩, ⟨2, 1.0, .flag false, none, none⟩]⟩,
    ⟨1, "", "", [⟨1, 1e-200, .flag true, none, none⟩, ⟨2, 1.0, .flag false, none, none⟩]⟩], ∅⟩

/-- A path is drawn from a checked tree, by draws from zero to below one, that has the joint weight
    zero. -/
theorem tinyWeights_drawn_underflow :
    tinyWeights.check weightTolerance = .ok () ∧
      UniformSource.HandsOut IsUnitDraw (Replay.start 0.0 []) ∧
      (tinyWeights.samplePath (Replay.start 0.0 [])).result = .ok ⟨[1, 1]⟩ ∧
      tinyWeights.pathWeight ⟨[1, 1]⟩ = .ok 0.0 ∧ ¬ (0.0 : Float) < 0.0 := by
  have unit : IsUnitDraw 0.0 := ⟨by decide, by decide⟩
  exact ⟨by decide +kernel, Replay.handsOut_start unit (by simp), by decide +kernel,
    by decide +kernel, by decide⟩

end Tree

end LogicTree
