import LogicTree.Proofs.Document.RoundTrip
import LogicTree.Proofs.Storage.Runs

/-! # Refused trees

A tree with a number that is not finite is refused when its document is made, and by then the
directory of its target has been made. So a refused save writes no file, but it leaves the file
system as it was only if this directory stood already.
-/

namespace LogicTree

namespace FileSystem

variable {files middle after : FileSystem} {path : FilePath}

/-! ## Directories that stand already -/

/-- A directory stands where none stood. -/
def Gains (before after : FileSystem) : Prop :=
  ∃ place, before.entry? place ≠ some .directory ∧ after.entry? place = some .directory

theorem Gains.ne (gains : files.Gains after) : after ≠ files := by
  rintro rfl
  obtain ⟨place, nothing, directory⟩ := gains
  exact nothing directory

theorem Changes.trans_gains {made written : Place → Prop}
    (changes : Changes made written files middle) (gains : middle.Gains after) :
    files.Gains after := by
  obtain ⟨place, nothing, directory⟩ := gains
  exact ⟨place, mt (changes.directories place) nothing, directory⟩

theorem gains_of_makeDirectory (h : files.makeDirectory path = .ok after) :
    files.hasDirectory path = false ∧ files.Gains after := by
  obtain ⟨above, last, located, nothing, rfl⟩ := makeDirectory_eq_ok_iff.1 h
  refine ⟨by simp [hasDirectory, find_eq_notFound located nothing], above ++ [last], ?_,
    entry?_put_self _ _ _⟩
  simp [nothing]

theorem not_hasDirectory_of_notFound (h : files.makeDirectory path = .error .notFound) :
    files.hasDirectory path = false := by
  unfold makeDirectory at h
  rcases bind_eq_error_iff.1 h with lost | ⟨target, -, rest⟩
  · simp [hasDirectory, find, lost, error_bind]
  · cases target with
    | directory found => cases rest
    | name above last =>
        cases stands : files.entry? (above ++ [last]) <;>
          simp [stands, throw_eq_error, pure_eq_ok] at rest

/-- A directory is made where the ones above it all stand already or some of them come: it stands
    already, or something has come. -/
theorem makeNested_cons_of_above {above : List FilePath}
    (upper : ∀ middle, files.makeNested above = (.ok (), middle) →
      middle = files ∨ files.Gains middle)
    (h : files.makeNested (path :: above) = (.ok (), after)) :
    files.hasDirectory path = true ∧ after = files ∨
      files.hasDirectory path = false ∧ files.Gains after := by
  unfold makeNested at h
  split at h
  next made =>
    cases h
    exact .inr (gains_of_makeDirectory made)
  next lost =>
    -- The directories above come first, and then there is a second attempt.
    have missing := not_hasDirectory_of_notFound lost
    refine .inr ⟨missing, ?_⟩
    split at h
    next => cases h
    next middle reached =>
      have changes : Changes (fun _ => True) nowhere files (files.makeNested above).2 :=
        changes_makeNested above fun _ _ => trivial
      rw [reached] at changes
      rcases upper middle reached with rfl | gains
      · -- Nothing has come, so the second attempt fails as the first one did.
        simp [lost, missing] at h
      · split at h
        next made =>
          cases h
          exact changes.trans_gains (gains_of_makeDirectory made).2
        next =>
          obtain ⟨-, rfl⟩ := Prod.mk.inj h
          exact gains
  next =>
    obtain ⟨found, rfl⟩ := Prod.mk.inj h
    left
    refine ⟨?_, rfl⟩
    by_contra missing
    simp [missing] at found

theorem makeNested_of_ok {paths : List FilePath} (h : files.makeNested paths = (.ok (), after)) :
    after = files ∨ files.Gains after := by
  induction paths generalizing after with
  | nil =>
      cases h
      exact .inl rfl
  | cons path above ih =>
      exact (makeNested_cons_of_above (fun _ => ih) h).imp And.right And.right

theorem makeDirectories_of_ok (named : path.isEmpty = false)
    (h : files.makeDirectories path = (.ok (), after)) :
    files.hasDirectory path = true ∧ after = files ∨
      files.hasDirectory path = false ∧ files.Gains after := by
  rw [makeDirectories, FilePath.ancestors, named] at h
  exact makeNested_cons_of_above (fun _ => makeNested_of_ok) h

end FileSystem

namespace Storage

open FileSystem (Changes Gains nowhere)

variable {files after : FileSystem} {target : FilePath}

/-- The directory of a target stands already. -/
def DirectoryStands (files : FileSystem) (target : FilePath) : Prop :=
  target.parent.isEmpty = true ∨ files.hasDirectory target.parent = true

instance : Decidable (DirectoryStands files target) :=
  inferInstanceAs (Decidable (_ ∨ _))

/-- The places of the directory of a target and of those above it. -/
def directoryPlaces (files : FileSystem) (target : FilePath) (place : Place) : Prop :=
  ∃ path ∈ target.parent.ancestors, place = path.place files.workingDirectory

theorem runSteps_singleton (step : Step) : runSteps files [step] = step.run files := by
  unfold runSteps
  rcases step.run files with ⟨_ | _, next⟩ <;> rfl

theorem directorySteps_of_ok (h : runSteps files (directorySteps target) = (.ok (), after)) :
    DirectoryStands files target ∧ after = files ∨
      ¬ DirectoryStands files target ∧ files.Gains after := by
  unfold directorySteps at h
  split at h
  next here =>
    cases h
    exact .inl ⟨.inl here, rfl⟩
  next named =>
    rw [runSteps_singleton] at h
    have named' : target.parent.isEmpty = false := by simpa using named
    rcases FileSystem.makeDirectories_of_ok named' h with ⟨stands, same⟩ | ⟨missing, gains⟩
    · exact .inl ⟨.inr stands, same⟩
    · refine .inr ⟨?_, gains⟩
      simp [DirectoryStands, named', missing]

end Storage

open FileSystem (Changes Gains nowhere)
open Storage

namespace Tree

variable {E : Type} [Json.Writable E]

theorem toBytes_eq_refusal_iff {tree : Tree E} {refusal : Error} :
    tree.toBytes = .error refusal ↔
      ∃ field, tree.firstNonFinite? = some field ∧ field.complaint = refusal := by
  have written : tree.toBytes = tree.toBytesWith tree.elements.rows := rfl
  rw [written, toBytesWith_eq]
  cases tree.firstNonFinite? <;> simp

theorem save_eq_refusal_iff {tree : Tree E} {path : String} {files : FileSystem} {level : UInt64}
    {reason : String} :
    (tree.save path files).1 = .error (.invalidLevel level reason) ↔
      (runSteps files (directorySteps (FilePath.ofString path))).1 = .ok () ∧
        tree.toBytes = .error (.invalidLevel level reason) := by
  simp only [save]
  rcases runSteps files (directorySteps (FilePath.ofString path)) with ⟨failure | _, prepared⟩
  · simp
  · cases tree.toBytes with
    | error refusal => simp
    | ok content =>
        -- From here on only the file system can fail.
        simp only [outcome]
        cases (runSteps prepared (replaceSteps (temporaryTree (FilePath.ofString path))
          (FilePath.ofString path) content)).1 <;> simp [Except.mapError]

end Tree

/-- A save is refused for a number that is not finite, and no sooner than the directory of its target
    is made. So what a refused save changes is that directories come where nothing stood, at the
    place of this directory and above it: none exactly if it stood already. -/
theorem Tree.save_refused {E : Type} [Json.Writable E] (tree : Tree E) (path : String)
    (files : FileSystem) (level : UInt64) (reason : String) :
    let target := FilePath.ofString path
    let outcome := tree.save path files
    (outcome.1 = .error (.invalidLevel level reason) ↔
      (runSteps files (directorySteps target)).1 = .ok () ∧
        ∃ field, tree.firstNonFinite? = some field ∧
          field.complaint = .invalidLevel level reason) ∧
    (outcome.1 = .error (.invalidLevel level reason) →
      Changes (directoryPlaces files target) nowhere files outcome.2 ∧
        (outcome.2 = files ↔ DirectoryStands files target) ∧
        (¬ DirectoryStands files target → files.Gains outcome.2)) := by
  intro target outcome
  refine ⟨by rw [← toBytes_eq_refusal_iff]; exact save_eq_refusal_iff, ?_⟩
  intro refused
  obtain ⟨made, unwritten⟩ := save_eq_refusal_iff.1 refused
  obtain ⟨failure, run⟩ := save_of_refusal unwritten path files
  have prepared : runSteps files (directorySteps target) = (.ok (), outcome.2) :=
    Prod.ext made (congrArg Prod.snd run).symm
  refine ⟨changes_of_prepared (fun path member => ⟨path, member, rfl⟩) prepared, ?_⟩
  rcases directorySteps_of_ok prepared with ⟨stands, same⟩ | ⟨missing, gains⟩
  · exact ⟨iff_of_true same stands, absurd stands⟩
  · exact ⟨iff_of_false gains.ne missing, fun _ => gains⟩

def infiniteTree : Tree String where
  modelName := ""
  levels := [⟨0, "L", "All", [⟨1, 1.0 / 0.0, .text "b", none, none⟩]⟩]
  elements := ∅

/-- A tree that is refused beside a file, and below directories that are missing. -/
theorem Tree.save_refused_infinite :
    let refusal := Error.invalidLevel 0 "branch 1 has non-finite weight inf"
    (infiniteTree.save "hazard.json" oneFile).1 = .error refusal ∧
      (infiniteTree.save "hazard.json" oneFile).2 = oneFile ∧
      (infiniteTree.save "trees/old/hazard.json" oneFile).1 = .error refusal ∧
      oneFile.Gains (infiniteTree.save "trees/old/hazard.json" oneFile).2 := by
  have beside : (infiniteTree.save "hazard.json" oneFile).1 =
      .error (.invalidLevel 0 "branch 1 has non-finite weight inf") := by decide +kernel
  have below : (infiniteTree.save "trees/old/hazard.json" oneFile).1 =
      .error (.invalidLevel 0 "branch 1 has non-finite weight inf") := by decide +kernel
  obtain ⟨-, kept, -⟩ := (save_refused infiniteTree "hazard.json" oneFile _ _).2 beside
  obtain ⟨-, -, come⟩ := (save_refused infiniteTree "trees/old/hazard.json" oneFile _ _).2 below
  exact ⟨beside, kept.2 (by decide), below, come (by decide)⟩

/-- A tree is refused, and a directory has come. -/
theorem refused_save_makes_directory :
    (infiniteTree.save "trees/hazard.json" noFiles).1 =
        .error (.invalidLevel 0 "branch 1 has non-finite weight inf") ∧
      (infiniteTree.save "trees/hazard.json" noFiles).2 = ⟨[(["trees"], .directory)], []⟩ ∧
      (infiniteTree.save "trees/hazard.json" noFiles).2 ≠ noFiles :=
  ⟨by decide +kernel, by decide +kernel, by decide +kernel⟩

end LogicTree
