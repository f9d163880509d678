import LogicTree.Proofs.Choices
import LogicTree.Proofs.Command.Outcomes
import LogicTree.Proofs.Document.RoundTrip
import LogicTree.Proofs.Sampling

/-! # Sampled, listed and weighed paths

Listing pairs the ids of branches with the product of their weights; sampling and weighing look the
ids up instead. The three commands tell the same of a path as long as every id leads to a branch of
the weight that it stands at, as it does where ids count from one.
-/

namespace LogicTree

open Command

namespace Tree

variable {E : Type} {tree : Tree E}

theorem levels_ne_nil_of_paths {rows : List (Path × Float)} (h : tree.paths = .ok rows) :
    tree.levels ≠ [] := by
  obtain ⟨total, counted⟩ := counted_of_paths h
  exact (prod_of_pathCount counted).1

theorem pathWeight_of_chooses (nonempty : tree.levels ≠ [])
    (own : ∀ level ∈ tree.levels, level.LooksUpOwnWeights) {branches : List Branch}
    (h : Chooses tree.levels branches) :
    tree.pathWeight ⟨branches.map Branch.id⟩ = .ok (productFrom 1.0 branches) := by
  have hlength : (branches.map Branch.id).length = tree.levels.length := by
    rw [List.length_map, List.Forall₂.length_eq h]
  exact pathWeight_eq_ok_iff.2 ⟨nonempty, hlength, multiplyWeights_of_chooses own h 1.0⟩

end Tree

/-- Where every id leads to a branch of the weight that it stands at, what is sampled is listed, and
    what is listed is the weight of the path. -/
theorem sample_listed_weighed {tree : StoredTree} {config : Config} {entropy : UInt64}
    {listing : String} (own : ∀ level ∈ tree.levels, level.LooksUpOwnWeights)
    (listed : (paths.execute tree config entropy).Prints listing) :
    ∃ rows : List (Path × Float),
      listing = linesText (rows.map fun row => pathText row.1 row.2) ∧
      (∀ seed config entropy sampled, ((sample seed).execute tree config entropy).Prints sampled →
        ∃ row ∈ rows, sampled = linesText [pathText row.1 row.2]) ∧
      ∀ row ∈ rows, ∀ config entropy,
        ((weight row.1.label false).execute tree config entropy).Prints
          (linesText [Text.ofFloat row.2]) := by
  obtain ⟨rows, hrows, rfl⟩ := prints_paths_iff.1 listed
  have nonempty := Tree.levels_ne_nil_of_paths hrows
  refine ⟨rows, rfl, ?_, ?_⟩
  · intro seed config entropy sampled hsampled
    obtain ⟨path, weight, hpath, hweight, rfl⟩ := prints_sample_iff.1 hsampled
    obtain ⟨branches, hchooses, hids, -⟩ :=
      chooses_of_sampleLevels (Tree.samplePath_eq_ok_iff.1 hpath).2
    have hproduct := Tree.pathWeight_of_chooses nonempty own hchooses
    rw [hids] at hproduct
    have hsame := Except.ok.inj (hproduct.symm.trans hweight)
    exact ⟨(path, weight), (Tree.mem_paths_iff_chooses hrows).2 ⟨branches, hchooses, hids, hsame⟩, rfl⟩
  · rintro ⟨path, weight⟩ hrow config entropy
    obtain ⟨branches, hchooses, hids, rfl⟩ := (Tree.mem_paths_iff_chooses hrows).1 hrow
    have hproduct := Tree.pathWeight_of_chooses nonempty own hchooses
    rw [hids] at hproduct
    exact prints_weight_iff.2 ⟨_, (Tree.totalWeight_label hproduct).2, rfl⟩

/-- Two choices, each under its own number. -/
def numberedPair : StoredTree :=
  ⟨"", [⟨0, "", "", [⟨1, 0.25, .flag true, none, none⟩, ⟨2, 0.75, .flag false, none, none⟩]⟩], ∅⟩

theorem sample_listed_weighed_numberedPair :
    (∀ level ∈ numberedPair.levels, level.LooksUpOwnWeights) ∧
      (paths.execute numberedPair {} 0).Prints "1 0.25\n2 0.75\n" ∧
      ∃ rows : List (Path × Float),
        "1 0.25\n2 0.75\n" = linesText (rows.map fun row => pathText row.1 row.2) ∧
        ∀ row ∈ rows, ((weight row.1.label false).execute numberedPair {} 0).Prints
          (linesText [Text.ofFloat row.2]) := by
  have own : ∀ level ∈ numberedPair.levels, level.LooksUpOwnWeights :=
    List.forall_mem_cons.2 ⟨Level.WellNumbered.looksUpOwnWeights (by decide), by simp⟩
  have listed : (paths.execute numberedPair {} 0).Prints "1 0.25\n2 0.75\n" := ⟨rfl, by decide +kernel⟩
  obtain ⟨rows, hlisting, -, hweights⟩ := sample_listed_weighed own listed
  exact ⟨own, listed, rows, hlisting, fun row hrow => hweights row hrow {} 0⟩

/-- Two choices, each under the number of the other. -/
def swappedPair : StoredTree :=
  ⟨"", [⟨0, "", "", [⟨2, 0.25, .flag true, none, none⟩, ⟨1, 0.75, .flag false, none, none⟩]⟩], ∅⟩

/-- The swapped choices, stored. -/
def swappedPairFiles : FileSystem where
  entries := [(["tree.json"], .file (swappedPair.toJson.print .lines))]
  workingDirectory := []

/-- A path with swapped ids is listed with one weight, and sampled and weighed with another. -/
theorem swappedPair_listed_otherwise :
    (Tree.load "tree.json" swappedPairFiles : Except Error StoredTree) = .ok swappedPair ∧
      (paths.execute swappedPair {} 0).Prints "2 0.25\n1 0.75\n" ∧
      ((sample (some 3)).execute swappedPair {} 0).Prints "2 0.75\n" ∧
      ((weight "2" false).execute swappedPair {} 0).Prints "0.75\n" := by
  have stored :
      swappedPairFiles.read (FilePath.ofString "tree.json") = .ok (swappedPair.toJson.print .lines) := rfl
  refine ⟨?_, ⟨rfl, by decide +kernel⟩, ⟨by decide +kernel, by decide +kernel⟩,
    ⟨rfl, by decide +kernel⟩⟩
  rw [Tree.load_of_read stored]
  exact Tree.ofBytes_toJson rfl fun _ hrow => absurd hrow List.not_mem_nil

end LogicTree
