import Mathlib
import LogicTree.Command.Execution
import LogicTree.Proofs.Steps

/-! # What commands print

A command succeeds with an output exactly if what it asks of the tree succeeds, and then it prints
what the tree answers.
-/

namespace LogicTree

namespace Execution

/-- A command succeeds and leaves an output. -/
def Prints (execution : Execution) (output : String) : Prop :=
  execution.result = .ok () ∧ execution.output = output

theorem succeeds_iff {execution : Execution} :
    execution.result = .ok () ↔ ∃ output, execution.Prints output := by
  simp [Prints]

theorem prints_ofExcept_iff {answer : Except Error String} {notices : List Notice}
    {output : String} : (ofExcept answer notices).Prints output ↔ answer = .ok output := by
  cases answer with
  | error e => simp [Prints, ofExcept, failed]
  | ok printed => simp [Prints, ofExcept, done]

end Execution

theorem Tree.load_of_read {E : Type} [Json.Readable E] {path : String} {files : FileSystem}
    {content : Bytes} (h : files.read (FilePath.ofString path) = .ok content) :
    (Tree.load path files : Except Error (Tree E)) = Tree.ofBytes content := by
  rw [Tree.load, h]
  rfl

namespace Command

variable {tree : StoredTree} {config : Config} {entropy : UInt64} {output : String}

theorem prints_weight_iff {label : String} :
    ((Command.weight label false).execute tree config entropy).Prints output ↔
      ∃ weight, tree.totalWeight label = .ok weight ∧ output = linesText [Text.ofFloat weight] := by
  rw [execute, Execution.prints_ofExcept_iff, Tree.totalWeight]
  simp only [bind_eq_ok_iff, Bool.false_eq_true, if_false, pure, Except.pure, Except.ok.injEq]
  constructor
  · rintro ⟨path, hpath, weight, hweight, rfl⟩
    exact ⟨weight, ⟨path, hpath, hweight⟩, rfl⟩
  · rintro ⟨weight, ⟨path, hpath, hweight⟩, rfl⟩
    exact ⟨path, hpath, weight, hweight, rfl⟩

theorem prints_sample_iff {seed : Option UInt64} :
    ((Command.sample seed).execute tree config entropy).Prints output ↔
      ∃ path weight,
        (tree.samplePath
          (ChaCha.Stream.ofSeed ((seed.or config.seed).getD entropy))).result = .ok path ∧
        tree.pathWeight path = .ok weight ∧ output = linesText [pathText path weight] := by
  rw [execute]
  simp only [sampleText]
  rw [Execution.prints_ofExcept_iff]
  simp only [bind_eq_ok_iff, pure, Except.pure, Except.ok.injEq, exists_and_left, @eq_comm _ output]

theorem prints_paths_iff :
    (Command.paths.execute tree config entropy).Prints output ↔
      ∃ rows, tree.paths = .ok rows ∧
        output = linesText (rows.map fun row => pathText row.1 row.2) := by
  rw [execute, Execution.prints_ofExcept_iff]
  simp only [bind_eq_ok_iff, pure, Except.pure, Except.ok.injEq, @eq_comm _ output]

theorem check_of_validate (h : (Command.validate.execute tree config entropy).result = .ok ()) :
    tree.check config.weightTolerance = .ok () := by
  cases hcheck : tree.check config.weightTolerance with
  | error e => simp [execute, hcheck, Execution.failed] at h
  | ok => rfl

end Command

end LogicTree
