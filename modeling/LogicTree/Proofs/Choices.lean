import LogicTree.Proofs.Paths
import LogicTree.Proofs.Sampling

/-! # Choosing branches

A path is enumerated for every choice of one branch a level, under the ids of these branches and with
the product of their weights. Sampling makes such a choice, of branches of positive weight. Neither
asks whether an id leads back to its branch; where all do, up to the weight, looking up the ids of a
choice gives the same product.
-/

namespace LogicTree

/-- One branch of each level. -/
def Chooses (levels : List Level) (branches : List Branch) : Prop :=
  List.Forall₂ (fun level branch => branch ∈ level.branches) levels branches

/-- A weight multiplied by the weights of branches, one after the other. -/
def productFrom (weight : Float) (branches : List Branch) : Float :=
  branches.foldl (fun product branch => product * branch.weight) weight

namespace Tree

variable {levels : List Level}

theorem mem_completions_iff_chooses {weight product : Float} {ids : List UInt32} :
    (ids, product) ∈ completions weight levels ↔
      ∃ branches, Chooses levels branches ∧ branches.map Branch.id = ids ∧
        productFrom weight branches = product := by
  induction levels generalizing weight ids with
  | nil =>
      simp only [completions, List.mem_singleton, Prod.mk.injEq, Chooses, List.forall₂_nil_left_iff,
        exists_eq_left, List.map_nil, productFrom, List.foldl_nil, eq_comm]
  | cons level levels ih =>
      constructor
      · intro h
        obtain ⟨branch, hbranch, hrow⟩ := List.mem_flatMap.1 h
        obtain ⟨⟨rest, last⟩, hrest, heq⟩ := List.mem_map.1 hrow
        obtain ⟨rfl, rfl⟩ := Prod.mk.inj heq
        obtain ⟨branches, hchooses, rfl, rfl⟩ := ih.1 hrest
        exact ⟨branch :: branches, .cons hbranch hchooses, rfl, rfl⟩
      · rintro ⟨_, hchooses, rfl, rfl⟩
        cases hchooses with
        | @cons _ branch _ branches hbranch hrest =>
            exact List.mem_flatMap.2 ⟨branch, hbranch,
              List.mem_map.2 ⟨_, ih.2 ⟨branches, hrest, rfl, rfl⟩, rfl⟩⟩

variable {E : Type} {tree : Tree E}

theorem mem_paths_iff_chooses {rows : List (Path × Float)} (h : tree.paths = .ok rows) {path : Path}
    {weight : Float} :
    (path, weight) ∈ rows ↔
      ∃ branches, Chooses tree.levels branches ∧ branches.map Branch.id = path.ids ∧
        productFrom 1.0 branches = weight := by
  obtain ⟨total, counted⟩ := counted_of_paths h
  obtain rfl := Except.ok.inj ((paths_eq counted).symm.trans h)
  rw [← mem_completions_iff_chooses, List.mem_map]
  constructor
  · rintro ⟨⟨ids, product⟩, hmem, heq⟩
    cases heq
    exact hmem
  · intro hmem
    exact ⟨_, hmem, rfl⟩

end Tree

theorem chooses_of_sampleLevels {σ : Type} [UniformSource σ] {levels : List Level} {index : Nat}
    {source : σ} {ids : List UInt32} (h : (sampleLevels index levels source).result = .ok ids) :
    ∃ branches, Chooses levels branches ∧ branches.map Branch.id = ids ∧
      ∀ branch ∈ branches, branch.weight > 0.0 := by
  have hselects := selectsId_of_sampleLevels (UniformSource.handsOut_true source) h
  clear h
  induction hselects with
  | nil => exact ⟨[], .nil, rfl, by simp⟩
  | cons hfirst _ ih =>
      obtain ⟨draw, -, position, branch, hbranch, rfl, hselects⟩ := hfirst
      have hpositive := (Level.positiveAt_iff hbranch).1 hselects.positive
      obtain ⟨branches, hchooses, rfl, hrest⟩ := ih
      exact ⟨branch :: branches, .cons (List.mem_of_getElem? hbranch) hchooses, rfl,
        List.forall_mem_cons.2 ⟨hpositive, hrest⟩⟩

/-- Whatever the ids and weights of a tree are: a path that is sampled is listed, for a choice of
    branches of positive weight, and with the product of their weights. -/
theorem Tree.samplePath_mem_paths {E σ : Type} [UniformSource σ] {tree : Tree E} {total : Nat}
    (counted : tree.pathCount = .ok total) {source : σ} {path : Path}
    (sampled : (tree.samplePath source).result = .ok path) :
    ∃ listed branches, tree.paths = .ok listed ∧ Chooses tree.levels branches ∧
      (∀ branch ∈ branches, branch.weight > 0.0) ∧ branches.map Branch.id = path.ids ∧
      (path, productFrom 1.0 branches) ∈ listed := by
  have listed := paths_eq counted
  obtain ⟨-, hids⟩ := samplePath_eq_ok_iff.1 sampled
  obtain ⟨branches, hchooses, hnames, hpositive⟩ := chooses_of_sampleLevels hids
  exact ⟨_, branches, listed, hchooses, hpositive, hnames,
    (mem_paths_iff_chooses listed).2 ⟨branches, hchooses, hnames, rfl⟩⟩

/-- Ids that are zero or repeated, and weights that are negative, infinite or no number. The
    weights of the second level fall short of one by rounding. -/
def unchecked : Tree String :=
  ⟨"", [⟨7, "", "", [⟨7, -1.0, .flag true, none, none⟩, ⟨0, 1.0 / 0.0, .flag true, none, none⟩,
      ⟨7, 0.0 / 0.0, .flag false, none, none⟩]⟩,
    ⟨7, "", "", [⟨3, 0.5, .text "", none, none⟩, ⟨3, 0.4999999999, .text "", none, none⟩,
      ⟨1, -0.0, .text "", none, none⟩]⟩], ∅⟩

theorem Tree.samplePath_mem_paths_unchecked :
    unchecked.pathCount = .ok 9 ∧
      (unchecked.samplePath (Replay.start 0.5 [2.0])).result = .ok ⟨[0, 3]⟩ ∧
      ∃ listed weight, unchecked.paths = .ok listed ∧ (⟨[0, 3]⟩, weight) ∈ listed := by
  have counted : unchecked.pathCount = .ok 9 := rfl
  have sampled : (unchecked.samplePath (Replay.start 0.5 [2.0])).result = .ok ⟨[0, 3]⟩ := by
    decide +kernel
  obtain ⟨listed, branches, hpaths, -, -, -, hmem⟩ := samplePath_mem_paths counted sampled
  exact ⟨counted, sampled, listed, _, hpaths, hmem⟩

/-! ## Looking up ids -/

namespace Level

/-- Every id of a level leads to a branch with the weight that it stands at. -/
def LooksUpOwnWeights (level : Level) : Prop :=
  ∀ branch ∈ level.branches, ∃ found, level.branch branch.id = .ok found ∧
    found.weight = branch.weight

theorem WellNumbered.looksUpOwnWeights {level : Level} (numbered : level.WellNumbered) :
    level.LooksUpOwnWeights :=
  fun branch hbranch => ⟨branch, numbered.branch_eq_ok_iff_mem.2 ⟨hbranch, rfl⟩, rfl⟩

end Level

theorem Tree.multiplyWeights_of_chooses {levels : List Level} {branches : List Branch}
    (own : ∀ level ∈ levels, level.LooksUpOwnWeights) (h : Chooses levels branches)
    (weight : Float) :
    multiplyWeights weight levels (branches.map Branch.id) = .ok (productFrom weight branches) := by
  induction h generalizing weight with
  | nil => rfl
  | @cons level branch levels branches hbranch _ ih =>
      obtain ⟨hlevel, hlevels⟩ := List.forall_mem_cons.1 own
      obtain ⟨found, hfound, hweight⟩ := hlevel branch hbranch
      refine multiplyWeights_cons_eq_ok_iff.2 ⟨found, hfound, ?_⟩
      rw [hweight]
      exact ih hlevels (weight * branch.weight)

end LogicTree
