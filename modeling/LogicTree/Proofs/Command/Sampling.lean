import LogicTree.Proofs.Command.Outcomes
import LogicTree.Proofs.Document.RoundTrip
import LogicTree.Proofs.JointWeights
import LogicTree.Proofs.Sampling.Search

/-! # Sampling after validation

Validation asks for weight sums within the configured tolerance of one; sampling allows for
rounding by a tolerance of its own. So under a wider configured tolerance a tree may be valid that
not every draw can be sampled from.
-/

namespace LogicTree

open Command

namespace Tree

variable {E : Type} {tree : Tree E}

theorem zero_le_of_check {tolerance : Float} (checked : tree.check tolerance = .ok ()) :
    ∀ level ∈ tree.levels, ∀ w ∈ level.weights, 0.0 ≤ w := by
  intro level hlevel
  have hchecked := (levels_of_check checked).2 level hlevel
  exact Level.zero_le_weights (Level.check_eq_ok_iff.1 hchecked).2.2.1

theorem pathWeight_of_samplePath {σ : Type} [UniformSource σ] {tolerance : Float}
    (checked : tree.check tolerance = .ok ()) {source : σ} {path : Path}
    (h : (tree.samplePath source).result = .ok path) :
    ∃ weight, tree.pathWeight path = .ok weight := by
  obtain ⟨factors, hfactors, -⟩ := hasFactors_of_samplePath checked h
  exact ⟨_, hfactors.pathWeight⟩

end Tree

/-- Where a tree is validated, it can be sampled from all draws from zero to below one exactly if
    the weights of all its levels reach one. Then it can be sampled under every seed. Under a
    configured tolerance that is no wider than that of sampling, they do. A level that falls short
    of one fails for every draw above its sum, telling both, unless all its weights are zero. -/
theorem sample_after_validate {tree : StoredTree} {config : Config} {entropy : UInt64}
    (validated : (validate.execute tree config entropy).result = .ok ()) :
    ((∀ {σ : Type} [UniformSource σ] (source : σ), UniformSource.HandsOut IsUnitDraw source →
        ∃ path, (tree.samplePath source).result = .ok path) ↔
      ∀ level ∈ tree.levels, level.ReachesOne) ∧
    ((∀ level ∈ tree.levels, level.ReachesOne) → ∀ seed config entropy,
      ((sample seed).execute tree config entropy).result = .ok ()) ∧
    (config.weightTolerance ≤ weightTolerance → ∀ level ∈ tree.levels, level.ReachesOne) ∧
    ∀ index level, tree.level index = .ok level → ¬ level.ReachesOne →
      ∀ {σ : Type} [UniformSource σ] (source : σ) (draw : Float),
        (UniformSource.next source).1 = draw → level.cumulativeTotal < draw →
        ((∃ w ∈ level.weights, w > 0.0) → (tree.sampleLevel index source).result =
          .error (.samplingUnderflow index draw level.cumulativeTotal)) ∧
        ((¬ ∃ w ∈ level.weights, w > 0.0) → (tree.sampleLevel index source).result =
          .error (.emptyLevel index)) := by
  have checked := check_of_validate validated
  obtain ⟨nonempty, hchecks⟩ := Tree.levels_of_check checked
  have hunit := Tree.samplePath_unit_iff nonempty (Tree.zero_le_of_check checked)
  refine ⟨hunit, ?_, ?_, ?_⟩
  · intro hreaches seed config entropy
    obtain ⟨path, hpath⟩ := hunit.2 hreaches _
      (ChaCha.handsOut_ofSeed ((seed.or config.seed).getD entropy))
    obtain ⟨weight, hweight⟩ := Tree.pathWeight_of_samplePath checked hpath
    exact Execution.succeeds_iff.2 ⟨_, prints_sample_iff.2 ⟨path, weight, hpath, hweight, rfl⟩⟩
  · intro narrow level hlevel
    exact .inr (Level.drawable_of_check narrow (hchecks level hlevel)).reached
  · rintro index level stands short σ _ source draw rfl above
    have hweights := Tree.zero_le_of_check checked level (Tree.mem_of_level stands)
    have number := (Float64.isNumber_of_le (Float64.le_of_lt above)).2
    have beyond := (Level.cumulativeTotal_lt_iff hweights (Float64.not_isNaN_iff.2 number)).1 above
    rw [Tree.sampleLevel_of_level stands, ← Level.exists_positiveAt_iff]
    constructor
    · intro positive
      exact Level.sample_of_beyond hweights positive beyond (fun near => short (.inr near)) index
    · intro empty
      rw [Level.sample_of_none (not_exists.1 empty)]

/-- A configuration with a tolerance that is wider than that of sampling. -/
def wideConfig : Config := { weightTolerance := 0.5 }

/-- A tree whose weights sum to five quarters. -/
def heavyTree : StoredTree :=
  ⟨"", [⟨0, "", "", [⟨1, 0.75, .flag true, none, none⟩, ⟨2, 0.5, .flag false, none, none⟩]⟩], ∅⟩

/-- A level whose weights sum to three quarters. -/
def lightLevel : Level := ⟨0, "", "", [⟨1, 0.75, .flag true, none, none⟩]⟩

def lightTree : StoredTree := ⟨"", [lightLevel], ∅⟩

/-- Both trees are valid. One is sampled under every seed, the other not from a draw above its sum. -/
theorem sample_after_validate_heavyTree :
    (validate.execute heavyTree wideConfig 0).result = .ok () ∧
      (∀ seed, ((sample seed).execute heavyTree wideConfig 0).result = .ok ()) ∧
      (validate.execute lightTree wideConfig 0).result = .ok () ∧ ¬ lightLevel.ReachesOne ∧
      (lightTree.sampleLevel 0 (Replay.start 0.875 [])).result =
        .error (.samplingUnderflow 0 0.875 lightLevel.cumulativeTotal) := by
  have validated : (validate.execute heavyTree wideConfig 0).result = .ok () := rfl
  have lightValidated : (validate.execute lightTree wideConfig 0).result = .ok () := rfl
  have reaches : ∀ level ∈ heavyTree.levels, level.ReachesOne :=
    List.forall_mem_cons.2 ⟨.inl (by decide), by simp⟩
  have short : ¬ lightLevel.ReachesOne := by
    rw [Level.ReachesOne, Level.NearlyOne]
    decide
  obtain ⟨-, hsample, -⟩ := sample_after_validate validated
  obtain ⟨-, -, -, falls⟩ := sample_after_validate lightValidated
  obtain ⟨fails, -⟩ := falls 0 lightLevel rfl short (Replay.start 0.875 []) 0.875 rfl (by decide)
  exact ⟨validated, fun seed => hsample reaches seed wideConfig 0, lightValidated, short,
    fails (by decide)⟩

/-- The wide configuration and the light tree, stored. -/
def lightTreeFiles : FileSystem where
  entries := [
    (["config.toml"], .file (Bytes.ofString "[sampling]\nweight_tolerance = 0.5\n")),
    (["tree.json"], .file (lightTree.toJson.print .lines))]
  workingDirectory := []

/-- Under a tolerance wider than that of sampling, a tree is validated that cannot be sampled from
    a draw below one, nor under a seed whose first draw is as high. -/
theorem lightTree_validated_not_sampled :
    Config.load "config.toml" lightTreeFiles = .ok wideConfig ∧
      (Tree.load "tree.json" lightTreeFiles : Except Error StoredTree) = .ok lightTree ∧
      (validate.execute lightTree wideConfig 0).result = .ok () ∧
      UniformSource.HandsOut IsUnitDraw (Replay.start 0.875 []) ∧
      (lightTree.samplePath (Replay.start 0.875 [])).result = .error (.samplingUnderflow 0 0.875 0.75) ∧
      ((sample (some 1)).execute lightTree wideConfig 0).result ≠ .ok () := by
  have stored : lightTreeFiles.read (FilePath.ofString "tree.json") = .ok (lightTree.toJson.print .lines) :=
    rfl
  have unit : IsUnitDraw 0.875 := ⟨by decide, by decide⟩
  refine ⟨by decide +kernel, ?_, rfl, Replay.handsOut_start unit (by simp), rfl, by decide +kernel⟩
  rw [Tree.load_of_read stored]
  exact Tree.ofBytes_toJson rfl fun _ hrow => absurd hrow List.not_mem_nil

end LogicTree
