import Mathlib
import LogicTree.Proofs.Labels
import LogicTree.Proofs.Levels
import LogicTree.Proofs.PathCount
import LogicTree.Proofs.Steps

/-! # Enumerating paths

Paths are enumerated breadth first, and weighed one by one by looking up their ids. Both
agree with the depth-first list of the completions of a weight: the paths through some
levels, each with the weight multiplied by the weights on the way. Weights are multiplied
in the same order on both sides, so the products agree to the last bit, whatever the
weights are.
-/

namespace LogicTree.Tree

variable {E : Type}

/-- The id lists through the levels, depth first, each with the product of a weight and
    the weights on the way. -/
def completions (weight : Float) : List Level → List (List UInt32 × Float)
  | [] => [([], weight)]
  | level :: levels =>
      level.branches.flatMap fun branch =>
        (completions (weight * branch.weight) levels).map fun (ids, product) =>
          (branch.id :: ids, product)

/-- Breadth-first extension lists the completions of every path, one after the other. -/
theorem foldl_extendPaths (levels : List Level) (paths : List (Path × Float)) :
    levels.foldl extendPaths paths =
      paths.flatMap fun (path, weight) =>
        (completions weight levels).map fun (ids, product) => (⟨path.ids ++ ids⟩, product) := by
  induction levels generalizing paths with
  | nil => simp [completions]
  | cons level levels ih =>
      -- the hypothesis holds for any paths, so also for those extended by the first level
      rw [List.foldl_cons, ih, extendPaths, List.flatMap_assoc]
      apply List.flatMap_congr
      rintro ⟨path, weight⟩ -
      simp only [List.flatMap_map, completions, List.map_flatMap]
      apply List.flatMap_congr
      intro branch _
      simp [Path.push, List.map_map, Function.comp_def]

theorem multiplyWeights_cons_eq_ok_iff {weight product : Float} {level : Level}
    {levels : List Level} {id : UInt32} {ids : List UInt32} :
    multiplyWeights weight (level :: levels) (id :: ids) = .ok product ↔
      ∃ branch, level.branch id = .ok branch ∧
        multiplyWeights (weight * branch.weight) levels ids = .ok product :=
  bind_eq_ok_iff

theorem mem_completions_iff {levels : List Level} (numbered : ∀ level ∈ levels, level.WellNumbered)
    {weight product : Float} {ids : List UInt32} :
    (ids, product) ∈ completions weight levels ↔
      ids.length = levels.length ∧ multiplyWeights weight levels ids = .ok product := by
  induction levels generalizing weight ids with
  | nil =>
      cases ids with
      | nil => simp [completions, multiplyWeights, eq_comm]
      | cons id ids => simp [completions]
  | cons level levels ih =>
      obtain ⟨hlevel, hlevels⟩ := List.forall_mem_cons.1 numbered
      cases ids with
      | nil => simp [completions]
      | cons id ids =>
          have hfirst : (id :: ids, product) ∈ completions weight (level :: levels) ↔
              ∃ branch, level.branch id = .ok branch ∧
                (ids, product) ∈ completions (weight * branch.weight) levels := by
            simp only [completions, List.mem_flatMap, List.mem_map, Prod.mk.injEq,
              List.cons.injEq, Prod.exists, hlevel.branch_eq_ok_iff_mem]
            constructor
            · rintro ⟨branch, hmem, rest, value, hrest, ⟨hid, rfl⟩, rfl⟩
              exact ⟨branch, ⟨hmem, hid⟩, hrest⟩
            · rintro ⟨branch, ⟨hmem, hid⟩, hrest⟩
              exact ⟨branch, hmem, ids, product, hrest, ⟨hid, rfl⟩, rfl⟩
          rw [hfirst, multiplyWeights_cons_eq_ok_iff]
          simp only [ih hlevels, List.length_cons, Nat.add_right_cancel_iff]
          constructor
          · rintro ⟨branch, hbranch, hlength, hproduct⟩
            exact ⟨hlength, branch, hbranch, hproduct⟩
          · rintro ⟨hlength, branch, hbranch, hproduct⟩
            exact ⟨branch, hbranch, hlength, hproduct⟩

theorem compareIds_cons_of_lt {a b : UInt32} (h : a < b) (as bs : List UInt32) :
    Path.compareIds (a :: as) (b :: bs) = .lt := by
  rw [Path.compareIds, Std.compare_eq_lt.2 h]
  rfl

theorem compareIds_cons_self (a : UInt32) (as bs : List UInt32) :
    Path.compareIds (a :: as) (a :: bs) = Path.compareIds as bs := by
  rw [Path.compareIds, Std.compare_self]
  rfl

theorem completions_increase {levels : List Level}
    (numbered : ∀ level ∈ levels, level.WellNumbered) (weight : Float) :
    (completions weight levels).Pairwise fun a b => Path.compareIds a.1 b.1 = .lt := by
  induction levels generalizing weight with
  | nil => exact List.pairwise_singleton _ _
  | cons level levels ih =>
      obtain ⟨hlevel, hlevels⟩ := List.forall_mem_cons.1 numbered
      rw [completions, List.pairwise_flatMap]
      -- inside one branch the rest decides, across branches the first id does
      constructor
      · intro branch _
        refine List.pairwise_map.2 ((ih hlevels _).imp fun hlt => ?_)
        rw [compareIds_cons_self]
        exact hlt
      · refine hlevel.ids_increase.imp fun hlt first hfirst second hsecond => ?_
        obtain ⟨⟨as, _⟩, -, rfl⟩ := List.mem_map.1 hfirst
        obtain ⟨⟨bs, _⟩, -, rfl⟩ := List.mem_map.1 hsecond
        exact compareIds_cons_of_lt hlt as bs

theorem zero_notMem_of_multiplyWeights {levels : List Level} {ids : List UInt32}
    {weight product : Float} (hlength : ids.length = levels.length)
    (h : multiplyWeights weight levels ids = .ok product) : 0 ∉ ids := by
  induction levels generalizing weight ids with
  | nil => simp [List.length_eq_zero_iff.1 hlength]
  | cons level levels ih =>
      cases ids with
      | nil => simp at hlength
      | cons id ids =>
          obtain ⟨branch, hbranch, hproduct⟩ := multiplyWeights_cons_eq_ok_iff.1 h
          have hid : id ≠ 0 := (Level.branch_eq_ok_iff.1 hbranch).1
          have hrest : 0 ∉ ids := ih (by simpa using hlength) hproduct
          simp [hid.symm, hrest]

theorem pathWeight_eq_ok_iff {tree : Tree E} {path : Path} {weight : Float} :
    tree.pathWeight path = .ok weight ↔
      tree.levels ≠ [] ∧ path.ids.length = tree.levels.length ∧
        multiplyWeights 1.0 tree.levels path.ids = .ok weight := by
  by_cases hnil : tree.levels = []
  · simp [pathWeight, requireLevels, hnil, bind, Except.bind]
  · by_cases hlength : path.ids.length = tree.levels.length
    · simp [pathWeight, requireLevels, hnil, hlength, Path.length, depth, bind, Except.bind]
    · simp [pathWeight, requireLevels, hnil, hlength, Path.length, depth, bind, Except.bind,
        throw, throwThe, MonadExceptOf.throw]

theorem totalWeight_label {tree : Tree E} {path : Path} {weight : Float}
    (h : tree.pathWeight path = .ok weight) :
    Path.ofLabel path.label = .ok path ∧ tree.totalWeight path.label = .ok weight := by
  obtain ⟨hlevels, hlength, hproduct⟩ := pathWeight_eq_ok_iff.1 h
  have nonempty : path.ids ≠ [] := by
    intro hnil
    exact hlevels (List.length_eq_zero_iff.1 (by simpa [hnil] using hlength.symm))
  have hread : Path.ofLabel path.label = .ok path :=
    Path.ofLabel_label nonempty (zero_notMem_of_multiplyWeights hlength hproduct)
  refine ⟨hread, ?_⟩
  rw [totalWeight, hread]
  exact h

theorem counted_of_paths {tree : Tree E} {listed : List (Path × Float)}
    (h : tree.paths = .ok listed) : ∃ total, tree.pathCount = .ok total := by
  obtain ⟨total, counted, -⟩ := bind_eq_ok_iff.1 h
  exact ⟨total, counted⟩

theorem paths_eq {tree : Tree E} {total : Nat} (counted : tree.pathCount = .ok total) :
    tree.paths =
      .ok ((completions 1.0 tree.levels).map fun (ids, weight) => (⟨ids⟩, weight)) := by
  rw [paths, counted]
  simp [bind, Except.bind, pure, Except.pure, foldl_extendPaths, Path.empty]

theorem mem_paths_iff {tree : Tree E} {total : Nat} (counted : tree.pathCount = .ok total)
    (numbered : ∀ level ∈ tree.levels, level.WellNumbered) {path : Path} {weight : Float} :
    (path, weight) ∈ (completions 1.0 tree.levels).map
        (fun (ids, weight) => ((⟨ids⟩ : Path), weight)) ↔
      tree.pathWeight path = .ok weight := by
  obtain ⟨hlevels, -⟩ := prod_of_pathCount counted
  rw [pathWeight_eq_ok_iff, ← mem_completions_iff numbered, List.mem_map]
  constructor
  · rintro ⟨⟨ids, product⟩, hmem, heq⟩
    obtain ⟨rfl, rfl⟩ := Prod.mk.inj heq
    exact ⟨hlevels, hmem⟩
  · rintro ⟨-, hmem⟩
    exact ⟨_, hmem, rfl⟩

/-- A tree with well-numbered levels whose paths can be counted lists its paths in
    strictly increasing order. A path is listed exactly if it has a joint weight, and
    then with that weight, which is also the joint weight of its label. -/
theorem paths_enumerate_weights {tree : Tree E} {total : Nat}
    (counted : tree.pathCount = .ok total)
    (numbered : ∀ level ∈ tree.levels, level.WellNumbered) :
    ∃ listed, tree.paths = .ok listed ∧
      listed.Pairwise (fun a b => compare a.1 b.1 = .lt) ∧
      (∀ path, path ∈ listed.map Prod.fst ↔ ∃ weight, tree.pathWeight path = .ok weight) ∧
      ∀ path weight, (path, weight) ∈ listed →
        tree.pathWeight path = .ok weight ∧ tree.totalWeight path.label = .ok weight := by
  refine ⟨_, paths_eq counted, ?_, ?_, ?_⟩
  · exact List.pairwise_map.2 (completions_increase numbered 1.0)
  · intro path
    rw [List.mem_map]
    constructor
    · rintro ⟨⟨_, weight⟩, hmem, rfl⟩
      exact ⟨weight, (mem_paths_iff counted numbered).1 hmem⟩
    · rintro ⟨weight, hweight⟩
      exact ⟨(path, weight), (mem_paths_iff counted numbered).2 hweight, rfl⟩
  · intro path weight hmem
    have hweight : tree.pathWeight path = .ok weight := (mem_paths_iff counted numbered).1 hmem
    exact ⟨hweight, (totalWeight_label hweight).2⟩

/-- A tree with weights that are no number, negative zero and infinite. -/
def oddlyWeighted : Tree String :=
  ⟨"", [⟨0, "", "", [⟨1, 0.0 / 0.0, .flag true, none, none⟩, ⟨2, -0.0, .flag false, none, none⟩]⟩,
    ⟨0, "", "", [⟨1, 1.0 / 0.0, .text "", none, none⟩]⟩], ∅⟩

theorem paths_enumerate_weights_oddlyWeighted :
    oddlyWeighted.pathCount = .ok 2 ∧ (∀ level ∈ oddlyWeighted.levels, level.WellNumbered) ∧
      ∃ listed, oddlyWeighted.paths = .ok listed ∧
        listed.Pairwise (fun a b => compare a.1 b.1 = .lt) ∧ ⟨[2, 1]⟩ ∈ listed.map Prod.fst := by
  have counted : oddlyWeighted.pathCount = .ok 2 := rfl
  have numbered : ∀ level ∈ oddlyWeighted.levels, level.WellNumbered := by decide
  obtain ⟨listed, hpaths, hincrease, hmem, -⟩ := paths_enumerate_weights counted numbered
  exact ⟨counted, numbered, listed, hpaths, hincrease, (hmem ⟨[2, 1]⟩).2 ⟨_, rfl⟩⟩

end LogicTree.Tree
