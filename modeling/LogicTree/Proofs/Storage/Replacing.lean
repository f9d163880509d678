import LogicTree.Proofs.Storage.Stages
import LogicTree.Proofs.Storage.Temporaries

/-! # Replacing a file all at once

Saving a tree or a configuration replaces what stands at its target all at once or not at all,
however many of its steps are taken, and it never leaves a temporary file where its target could
not be replaced.
-/

namespace LogicTree

namespace FileSystem

/-- The same stands where a path leads, and below it. -/
structure SameAt (path : FilePath) (before after : FileSystem) : Prop where
  found : ∀ entry, after.find path = .ok entry ↔ before.find path = .ok entry
  below : ∀ names, after.entry? (path.place before.workingDirectory ++ names) =
    before.entry? (path.place before.workingDirectory ++ names)

theorem Changes.sameAt {made written : Place → Prop} {before after : FileSystem}
    (changes : Changes made written before after) (wellFormed : before.WellFormed)
    {path : FilePath} (noUp : ".." ∉ path.names)
    (unmade : ∀ names, ¬ made (path.place before.workingDirectory ++ names))
    (unwritten : ∀ names, ¬ written (path.place before.workingDirectory ++ names)) :
    SameAt path before after := by
  have below : ∀ names, after.entry? (path.place before.workingDirectory ++ names) =
      before.entry? (path.place before.workingDirectory ++ names) := by
    intro names
    rcases changes.others _ (unwritten names) with same | ⟨here, -⟩
    · exact same
    · exact absurd here (unmade names)
  have same := below []
  rw [List.append_nil] at same
  exact ⟨fun entry => ⟨changes.find_back wellFormed noUp same, changes.find same⟩, below⟩

end FileSystem

namespace Storage

open FileSystem (Changes SameAt read_of_write read_of_rename find_of_rename find_of_remove)

/-- A file is replaced by a document all at once: `result` is the outcome and the file system after
`steps`, which lead from `files` to it by way of a temporary file. -/
structure Replaces (files : FileSystem) (temporary target : FilePath)
    (document : Except Error Bytes) (steps : List Step)
    (result : Except Error Unit × FileSystem) : Prop where
  ends : (stages files steps).getLast? = some result.2
  stored : result.1 = .ok () → ∃ content, document = .ok content ∧
    result.2.read target = .ok content ∧ result.2.find temporary = .error .notFound
  kept : result.1 ≠ .ok () → SameAt target files result.2
  /-- Nothing is left of the temporary file if it cannot be moved. -/
  cleaned : ∀ content prepared written failure, document = .ok content →
    runSteps files (directorySteps target) = (.ok (), prepared) →
    prepared.write temporary content = .ok written →
    written.rename temporary target = .error failure →
    result.1 = .error (.device failure) ∧ result.2.find temporary = .error .notFound
  interrupted : ∀ stage ∈ stages files steps, SameAt target files stage ∨
    ∃ content, document = .ok content ∧ stage.read target = .ok content

variable {files : FileSystem} {temporary target : FilePath} {content : Bytes}

section

variable (wellFormed : files.WellFormed) (noUp : ".." ∉ target.names)
  (named : target.fileName?.isSome)

/-- The places above that of a target. -/
def higher (files : FileSystem) (target : FilePath) (place : Place) : Prop :=
  place.length < (target.place files.workingDirectory).length

theorem not_higher (names : List String) :
    ¬ higher files target (target.place files.workingDirectory ++ names) := by
  simp [higher]

include wellFormed noUp

theorem sameAt_of_changes (beside : target.Beside temporary) {after : FileSystem}
    (changes : Changes (higher files target) (· = temporary.place files.workingDirectory)
      files after) : SameAt target files after :=
  changes.sameAt wellFormed noUp not_higher (beside.not_below _)

include named

theorem replaces_of_document (beside : target.Beside temporary) :
    Replaces files temporary target (.ok content) (storeSteps temporary target content)
      (outcome (runSteps files (storeSteps temporary target content))) := by
  have above : ∀ path ∈ target.parent.ancestors,
      higher files target (path.place files.workingDirectory) := fun path member =>
    FilePath.length_place_of_ancestor noUp named member
  have stores : Stores files temporary target content
      (runSteps files (storeSteps temporary target content)) := stores_storeSteps
  refine ⟨getLast?_stages _, ?stored, ?kept, ?cleaned, ?interrupted⟩
  case stored =>
    intro succeeded
    generalize runSteps files (storeSteps temporary target content) = run at stores succeeded ⊢
    cases stores with
    | unmade => cases succeeded
    | unwritten => cases succeeded
    | unmoved => cases succeeded
    | moved _ wrote renamed =>
        have waiting := read_of_write wrote
        exact ⟨content, rfl, read_of_rename waiting renamed,
          find_of_rename waiting renamed beside.apart⟩
  case kept =>
    intro failed
    -- Whichever step failed, only the temporary file and directories have come and gone.
    apply sameAt_of_changes wellFormed noUp beside
    apply stores.changes_of_failure above
    intro succeeded
    exact failed (by simp [outcome, succeeded, Except.mapError])
  case cleaned =>
    rintro _ prepared written failure ⟨⟩ made wrote renamed
    have run : runSteps files (storeSteps temporary target content) =
        (.error failure, written.remove temporary) := by
      rw [runSteps_storeSteps made wrote]
      simp only [Step.run, renamed]
    rw [run]
    exact ⟨rfl, find_of_remove (read_of_write wrote)⟩
  case interrupted =>
    intro stage member
    rcases changes_or_settled above member with changes | settled
    · exact .inl (sameAt_of_changes wellFormed noUp beside changes)
    · rw [settled] at stores
      cases stores with
      | moved _ wrote renamed =>
          exact .inr ⟨content, rfl, read_of_rename (read_of_write wrote) renamed⟩

theorem replaces_of_refusal (beside : target.Beside temporary) {refusal failure : Error}
    {steps : List Step} {after : FileSystem} (final : (runSteps files steps).2 = after)
    (early : steps = [] ∨ steps = directorySteps target) :
    Replaces files temporary target (.error refusal) steps (.error failure, after) := by
  have above : ∀ path ∈ target.parent.ancestors,
      higher files target (path.place files.workingDirectory) := fun path member =>
    FilePath.length_place_of_ancestor noUp named member
  have same : ∀ stage ∈ stages files steps, SameAt target files stage := by
    intro stage member
    apply sameAt_of_changes wellFormed noUp beside
    rcases early with rfl | rfl
    · rw [List.mem_singleton.1 member]
      exact .refl files
    · exact changes_of_directorySteps above member
  subst final
  refine ⟨getLast?_stages steps, ?stored, ?kept, ?cleaned, ?interrupted⟩
  case stored =>
    intro succeeded
    cases succeeded
  case kept =>
    intro _
    exact same _ (runSteps_mem_stages steps)
  case cleaned =>
    intro _ _ _ _ written
    cases written
  case interrupted =>
    intro stage member
    exact .inl (same stage member)

end

end Storage

open Storage

/-- The steps that save a tree. -/
def Tree.saveSteps {E : Type} [Json.Writable E] (tree : Tree E) (target : FilePath) : List Step :=
  match tree.toBytes with
  | .error _ => directorySteps target
  | .ok content => storeSteps (temporaryTree target) target content

/-- The steps that save a configuration. -/
def Config.saveSteps (config : Config) (target : FilePath) : List Step :=
  match config.toText with
  | .error _ => []
  | .ok text => storeSteps (temporaryConfig target) target (Bytes.ofString text)

theorem Tree.save_of_document {E : Type} [Json.Writable E] {tree : Tree E} {content : Bytes}
    (written : tree.toBytes = .ok content) (path : String) (files : FileSystem) :
    tree.save path files = outcome (runSteps files
      (storeSteps (temporaryTree (FilePath.ofString path)) (FilePath.ofString path) content)) := by
  simp only [Tree.save, written, storeSteps, runSteps_append]
  split <;> simp_all [outcome, Except.mapError]

theorem Tree.save_of_refusal {E : Type} [Json.Writable E] {tree : Tree E} {refusal : Error}
    (written : tree.toBytes = .error refusal) (path : String) (files : FileSystem) :
    ∃ failure, tree.save path files =
      (.error failure, (runSteps files (directorySteps (FilePath.ofString path))).2) := by
  simp only [Tree.save, written]
  rcases runSteps files (directorySteps (FilePath.ofString path)) with ⟨result, after⟩
  cases result with
  | error e => exact ⟨.device e, rfl⟩
  | ok => exact ⟨refusal, rfl⟩

theorem Tree.replaces_save {E : Type} [Json.Writable E] (tree : Tree E) {path : String}
    {files : FileSystem} (wellFormed : files.WellFormed)
    (noUp : ".." ∉ (FilePath.ofString path).names)
    (named : (FilePath.ofString path).fileName?.isSome) :
    Replaces files (temporaryTree (FilePath.ofString path)) (FilePath.ofString path) tree.toBytes
      (tree.saveSteps (FilePath.ofString path)) (tree.save path files) := by
  have beside := FilePath.beside_temporaryTree named
  cases written : tree.toBytes with
  | error refusal =>
      obtain ⟨failure, run⟩ := Tree.save_of_refusal written path files
      simp only [Tree.saveSteps, written, run]
      exact replaces_of_refusal wellFormed noUp named beside rfl (.inr rfl)
  | ok content =>
      simp only [Tree.saveSteps, written, Tree.save_of_document written]
      exact replaces_of_document wellFormed noUp named beside

theorem Config.replaces_save (config : Config) {path : String} {files : FileSystem}
    (wellFormed : files.WellFormed) (noUp : ".." ∉ (FilePath.ofString path).names)
    (named : (FilePath.ofString path).fileName?.isSome) :
    Replaces files (temporaryConfig (FilePath.ofString path)) (FilePath.ofString path)
      (config.toText.map Bytes.ofString) (config.saveSteps (FilePath.ofString path))
      (config.save path files) := by
  have beside := FilePath.beside_temporaryConfig named
  cases written : config.toText with
  | error refusal =>
      simp only [Config.saveSteps, Config.save, written]
      exact replaces_of_refusal wellFormed noUp named beside rfl (.inl rfl)
  | ok text =>
      simp only [Config.saveSteps, Config.save, written]
      exact replaces_of_document wellFormed noUp named beside

/-- Saving a tree and saving a configuration each replace what stands at the target all at once:
by the whole document, or not at all. -/
theorem save_replaces {path : String} {files : FileSystem} (wellFormed : files.WellFormed)
    (noUp : ".." ∉ (FilePath.ofString path).names)
    (named : (FilePath.ofString path).fileName?.isSome) :
    (∀ {E : Type} [Json.Writable E] (tree : Tree E),
      Replaces files (temporaryTree (FilePath.ofString path)) (FilePath.ofString path) tree.toBytes
        (tree.saveSteps (FilePath.ofString path)) (tree.save path files)) ∧
    ∀ config : Config,
      Replaces files (temporaryConfig (FilePath.ofString path)) (FilePath.ofString path)
        (config.toText.map Bytes.ofString) (config.saveSteps (FilePath.ofString path))
        (config.save path files) :=
  ⟨fun tree => tree.replaces_save wellFormed noUp named,
    fun config => config.replaces_save wellFormed noUp named⟩

/-- A directory with one file, in which relative paths start. The file holds the text of an empty
    object. -/
def oneFile : FileSystem where
  entries := [(["work"], .directory), (["work", "hazard.json"], .file [0x7b, 0x7d])]
  workingDirectory := ["work"]

def faultTree : Tree String where
  modelName := "faults"
  levels := [⟨0, "magnitude", "all", [⟨1, 0.75, .number 6.5, some ⟨"cap", .integer 8⟩, none⟩,
    ⟨2, 0.25, .flag false, none, some "rates.csv"⟩]⟩]
  elements := ⟨[("1", "low"), ("2", "high")], by unfold KeysIncrease; decide⟩

def faultConfig : Config where
  treeFile := some "hazard.json"
  seed := some 7
  weightTolerance := 0.125
  level := "debug"

/-- Saving a tree and a configuration over a file that holds neither. -/
theorem save_replaces_oneFile :
    let target := FilePath.ofString "hazard.json"
    oneFile.WellFormed ∧ ".." ∉ target.names ∧ target.fileName?.isSome ∧
      oneFile.read target = .ok [0x7b, 0x7d] ∧
      Replaces oneFile (temporaryTree target) target faultTree.toBytes
        (faultTree.saveSteps target) (faultTree.save "hazard.json" oneFile) ∧
      Replaces oneFile (temporaryConfig target) target (faultConfig.toText.map Bytes.ofString)
        (faultConfig.saveSteps target) (faultConfig.save "hazard.json" oneFile) ∧
      (∃ content, faultTree.toBytes = .ok content ∧
        (faultTree.save "hazard.json" oneFile).2.read target = .ok content) ∧
      ∃ text, faultConfig.toText = .ok text ∧
        (faultConfig.save "hazard.json" oneFile).2.read target = .ok (Bytes.ofString text) := by
  intro target
  have wellFormed : oneFile.WellFormed := by decide
  have noUp : ".." ∉ target.names := by decide
  have named : target.fileName?.isSome := by decide
  obtain ⟨trees, configs⟩ := save_replaces wellFormed noUp named
  have treeSaved : (faultTree.save "hazard.json" oneFile).1 = .ok () := rfl
  have configSaved : (faultConfig.save "hazard.json" oneFile).1 = .ok () := rfl
  obtain ⟨content, written, stands, -⟩ := (trees faultTree).stored treeSaved
  obtain ⟨bytes, settled, settingsStand, -⟩ := (configs faultConfig).stored configSaved
  obtain ⟨text, settings, rfl⟩ := map_eq_ok_iff.1 settled
  exact ⟨wellFormed, noUp, named, rfl, trees _, configs _, ⟨content, written, stands⟩,
    text, settings, settingsStand⟩

end LogicTree
