import LogicTree.Proofs.FileSystem.Changes
import LogicTree.Storage

/-! # Stages of a replacement

Replacing a file takes steps, and a step may be cut short: while directories are made one by one, and
while a temporary file has only some of its bytes. Moving a file is not cut short. The stages of a
list of steps are the file systems in which it can be cut short, the last of them the one that
results. Until the temporary file is moved only this file and directories have come.
-/

namespace LogicTree

namespace FileSystem

variable {files : FileSystem} {made written : Place → Prop}

/-- The file systems through which nested directories are made. -/
def nestedStages (files : FileSystem) : List FilePath → List FileSystem
  | [] => [files]
  | path :: above =>
      match files.makeDirectory path with
      | .error .notFound => files.nestedStages above ++ [(files.makeNested (path :: above)).2]
      | _ => [files, (files.makeNested (path :: above)).2]

theorem getLast?_nestedStages (paths : List FilePath) :
    (files.nestedStages paths).getLast? = some (files.makeNested paths).2 := by
  cases paths with
  | nil => rfl
  | cons path above =>
      unfold nestedStages
      split <;> simp

theorem changes_of_makeDirectory {path : FilePath} {after : FileSystem}
    (here : made (path.place files.workingDirectory)) (h : files.makeDirectory path = .ok after) :
    Changes made written files after := by
  obtain ⟨above, last, located, nothing, rfl⟩ := makeDirectory_eq_ok_iff.1 h
  exact .of_put_directory located nothing here

theorem changes_makeNested (paths : List FilePath)
    (here : ∀ path ∈ paths, made (path.place files.workingDirectory)) :
    Changes made written files (files.makeNested paths).2 := by
  induction paths with
  | nil => exact .refl files
  | cons path above ih =>
      have upper := ih fun other member => here other (List.mem_cons_of_mem _ member)
      have own := here path List.mem_cons_self
      unfold makeNested
      split
      next after made => exact changes_of_makeDirectory own made
      next =>
        split
        next e middle failed =>
          rw [failed] at upper
          exact upper
        next middle reached =>
          -- The second attempt is made where the directories above are.
          rw [reached] at upper
          rw [← upper.place] at own
          split
          next after made => exact upper.trans (changes_of_makeDirectory own made)
          next => exact upper
      next => exact .refl files

theorem changes_of_mem_nestedStages {paths : List FilePath}
    (here : ∀ path ∈ paths, made (path.place files.workingDirectory)) {stage : FileSystem}
    (h : stage ∈ files.nestedStages paths) : Changes made written files stage := by
  induction paths with
  | nil =>
      rw [List.mem_singleton.1 h]
      exact .refl files
  | cons path above ih =>
      have whole : Changes made written files (files.makeNested (path :: above)).2 :=
        changes_makeNested _ here
      unfold nestedStages at h
      split at h
      next =>
        rcases List.mem_append.1 h with earlier | last
        · exact ih (fun other member => here other (List.mem_cons_of_mem _ member)) earlier
        · rw [List.mem_singleton.1 last]
          exact whole
      next =>
        rcases List.mem_pair.1 h with rfl | rfl
        · exact .refl _
        · exact whole

end FileSystem

namespace Storage

open FileSystem (Changes changes_of_write changes_of_remove changes_of_rename read_of_write
  read_of_rename)

variable {files : FileSystem} {made written : Place → Prop}

/-- The file systems in which a step can be cut short, and the one after it. -/
def Step.stages (files : FileSystem) : Step → List FileSystem
  | .makeDirectories path => files.nestedStages path.ancestors
  | .write temporary content =>
      files :: content.inits.filterMap fun part => (files.write temporary part).toOption
  | .settle temporary target => [files, (Step.run files (.settle temporary target)).2]

/-- The file systems in which steps can be cut short, and the one after them. -/
def stages (files : FileSystem) : List Step → List FileSystem
  | [] => [files]
  | step :: steps =>
      step.stages files ++
        match step.run files with
        | (.ok (), next) => stages next steps
        | (.error _, _) => []

theorem inits_eq_append (content : Bytes) : ∃ parts, content.inits = parts ++ [content] := by
  induction content using List.reverseRecOn with
  | nil => exact ⟨[], rfl⟩
  | append_singleton content byte _ => exact ⟨content.inits, by simp [List.inits_append]⟩

theorem getLast?_stages_of_step (step : Step) :
    (step.stages files).getLast? = some (step.run files).2 := by
  cases step with
  | makeDirectories path => exact FileSystem.getLast?_nestedStages _
  | settle temporary target => rfl
  | write temporary content =>
      cases whole : files.write temporary content with
      | ok after =>
          obtain ⟨parts, ends⟩ := inits_eq_append content
          simp [Step.stages, Step.run, whole, ends, List.getLast?_cons, Except.toOption]
      | error e =>
          have none : ∀ part ∈ content.inits, (files.write temporary part).toOption = none := by
            intro part _
            cases partly : files.write temporary part with
            | error e => rfl
            | ok after =>
                obtain ⟨after', written⟩ := FileSystem.write_of_write partly content
                rw [whole] at written
                cases written
          simp [Step.stages, Step.run, whole, List.filterMap_eq_nil_iff.2 none]

theorem getLast?_stages (steps : List Step) :
    (stages files steps).getLast? = some (runSteps files steps).2 := by
  induction steps generalizing files with
  | nil => rfl
  | cons step steps ih =>
      unfold stages runSteps
      rw [List.getLast?_append, getLast?_stages_of_step]
      rcases step.run files with ⟨result, next⟩
      cases result with
      | error e => rfl
      | ok => simp [ih]

variable {temporary target : FilePath} {content : Bytes}

/-! ## Lists of steps -/

theorem runSteps_append (first second : List Step) :
    runSteps files (first ++ second) =
      match runSteps files first with
      | (.ok (), next) => runSteps next second
      | (.error e, next) => (.error e, next) := by
  induction first generalizing files with
  | nil => rfl
  | cons step steps ih =>
      rw [List.cons_append, runSteps, runSteps]
      rcases step.run files with ⟨result, next⟩
      cases result with
      | error e => rfl
      | ok => exact ih

theorem mem_stages_append {first second : List Step} {stage : FileSystem}
    (h : stage ∈ stages files (first ++ second)) :
    stage ∈ stages files first ∨
      ∃ next, runSteps files first = (.ok (), next) ∧ stage ∈ stages next second := by
  induction first generalizing files with
  | nil => exact .inr ⟨files, rfl, h⟩
  | cons step steps ih =>
      rw [List.cons_append, stages] at h
      rw [stages, runSteps]
      rcases List.mem_append.1 h with here | later
      · exact .inl (List.mem_append_left _ here)
      · rcases taken : step.run files with ⟨result, next⟩
        rw [taken] at later
        cases result with
        | error e => cases later
        | ok =>
            rcases ih later with earlier | ⟨further, ran, last⟩
            · exact .inl (List.mem_append_right _ earlier)
            · exact .inr ⟨further, ran, last⟩

theorem runSteps_mem_stages (steps : List Step) :
    (runSteps files steps).2 ∈ stages files steps :=
  List.mem_of_getLast? (getLast?_stages steps)

theorem mem_stages_singleton {step : Step} {stage : FileSystem}
    (h : stage ∈ stages files [step]) : stage ∈ step.stages files := by
  rcases List.mem_append.1 h with here | last
  · exact here
  · have final : (step.run files).2 ∈ step.stages files :=
      List.mem_of_getLast? (getLast?_stages_of_step step)
    rcases taken : step.run files with ⟨result, next⟩
    rw [taken] at last final
    cases result with
    | error e => cases last
    | ok =>
        rw [List.mem_singleton.1 last]
        exact final

theorem changes_of_directorySteps
    (here : ∀ path ∈ target.parent.ancestors, made (path.place files.workingDirectory))
    {stage : FileSystem} (h : stage ∈ stages files (directorySteps target)) :
    Changes made written files stage := by
  unfold directorySteps at h
  split at h
  · rw [List.mem_singleton.1 h]
    exact .refl files
  · exact FileSystem.changes_of_mem_nestedStages here (mem_stages_singleton h)

theorem changes_of_writeStep {stage : FileSystem}
    (h : stage ∈ (Step.write temporary content).stages files) :
    Changes made (· = temporary.place files.workingDirectory) files stage := by
  rcases List.mem_cons.1 h with rfl | written
  · exact .refl _
  · obtain ⟨part, -, ok⟩ := List.mem_filterMap.1 written
    cases partly : files.write temporary part with
    | error e => simp [partly, Except.toOption] at ok
    | ok after =>
        rw [partly] at ok
        cases ok
        exact changes_of_write partly

/-! ## Storing a content -/

/-- The steps that store a content, with the directories for it. -/
def storeSteps (temporary target : FilePath) (content : Bytes) : List Step :=
  directorySteps target ++ replaceSteps temporary target content

/-- How far the steps that store a content get, and what results. -/
inductive Stores (files : FileSystem) (temporary target : FilePath) (content : Bytes) :
    Except DeviceError Unit × FileSystem → Prop where
  | unmade {e : DeviceError} {after : FileSystem} :
      runSteps files (directorySteps target) = (.error e, after) →
      Stores files temporary target content (.error e, after)
  | unwritten {e : DeviceError} {prepared : FileSystem} :
      runSteps files (directorySteps target) = (.ok (), prepared) →
      prepared.write temporary content = .error e →
      Stores files temporary target content (.error e, prepared)
  | unmoved {e : DeviceError} {prepared written : FileSystem} :
      runSteps files (directorySteps target) = (.ok (), prepared) →
      prepared.write temporary content = .ok written →
      written.rename temporary target = .error e →
      Stores files temporary target content (.error e, written.remove temporary)
  | moved {prepared written after : FileSystem} :
      runSteps files (directorySteps target) = (.ok (), prepared) →
      prepared.write temporary content = .ok written →
      written.rename temporary target = .ok after →
      Stores files temporary target content (.ok (), after)

/-- The last step decides, once the temporary file is written. -/
theorem runSteps_storeSteps {prepared written : FileSystem}
    (made : runSteps files (directorySteps target) = (.ok (), prepared))
    (wrote : prepared.write temporary content = .ok written) :
    runSteps files (storeSteps temporary target content) =
      Step.run written (.settle temporary target) := by
  rw [storeSteps, runSteps_append, made]
  simp only [replaceSteps, runSteps, Step.run, wrote]
  split <;> simp_all

theorem stores_storeSteps :
    Stores files temporary target content
      (runSteps files (storeSteps temporary target content)) := by
  rcases made : runSteps files (directorySteps target) with ⟨result, prepared⟩
  cases result with
  | error e =>
      rw [storeSteps, runSteps_append, made]
      exact .unmade made
  | ok =>
      cases wrote : prepared.write temporary content with
      | error e =>
          rw [storeSteps, runSteps_append, made]
          simp only [replaceSteps, runSteps, Step.run, wrote]
          exact .unwritten made wrote
      | ok written =>
          rw [runSteps_storeSteps made wrote]
          cases renamed : written.rename temporary target with
          | error e =>
              simp only [Step.run, renamed]
              exact .unmoved made wrote renamed
          | ok after =>
              simp only [Step.run, renamed]
              exact .moved made wrote renamed

theorem Stores.read {run : Except DeviceError Unit × FileSystem}
    (stores : Stores files temporary target content run) (succeeded : run.1 = .ok ()) :
    run.2.read target = .ok content := by
  cases stores with
  | unmade => cases succeeded
  | unwritten => cases succeeded
  | unmoved => cases succeeded
  | moved _ wrote renamed => exact read_of_rename (read_of_write wrote) renamed

section Changes

variable {run : Except DeviceError Unit × FileSystem}
  (here : ∀ path ∈ target.parent.ancestors, made (path.place files.workingDirectory))

include here

theorem changes_of_prepared {result : Except DeviceError Unit} {prepared : FileSystem}
    (h : runSteps files (directorySteps target) = (result, prepared)) :
    Changes made written files prepared := by
  apply changes_of_directorySteps here
  have last : (runSteps files (directorySteps target)).2 ∈ stages files (directorySteps target) :=
    runSteps_mem_stages _
  rwa [h] at last

theorem changes_of_written {prepared after : FileSystem}
    (h : runSteps files (directorySteps target) = (.ok (), prepared))
    (wrote : prepared.write temporary content = .ok after) :
    Changes made (· = temporary.place files.workingDirectory) files after := by
  have prepares : Changes made (· = temporary.place files.workingDirectory) files prepared :=
    changes_of_prepared here h
  refine prepares.trans ?_
  rw [← prepares.place]
  exact changes_of_write wrote

theorem changes_of_unmoved {prepared after : FileSystem}
    (h : runSteps files (directorySteps target) = (.ok (), prepared))
    (wrote : prepared.write temporary content = .ok after) :
    Changes made (· = temporary.place files.workingDirectory) files (after.remove temporary) := by
  have writes : Changes made _ files after := changes_of_written here h wrote
  refine writes.trans ?_
  rw [← writes.place]
  exact changes_of_remove (read_of_write wrote)

theorem Stores.changes (stores : Stores files temporary target content run) :
    Changes made (fun place => place = temporary.place files.workingDirectory ∨
      (run.1 = .ok () ∧ place = target.place files.workingDirectory)) files run.2 := by
  cases stores with
  | unmade made => exact changes_of_prepared here made
  | unwritten made => exact changes_of_prepared here made
  | unmoved made wrote =>
      exact (changes_of_unmoved here made wrote).mono (fun _ => id) fun _ => .inl
  | moved made wrote renamed =>
      have writes := changes_of_written here made wrote
      refine (writes.mono (fun _ => id) fun _ => .inl).trans ?_
      rw [← writes.place, ← writes.place]
      refine (changes_of_rename (read_of_write wrote) renamed).mono (fun _ => id) ?_
      rintro place (same | same)
      · exact .inl same
      · exact .inr ⟨rfl, same⟩

theorem Stores.changes_of_failure (stores : Stores files temporary target content run)
    (failed : run.1 ≠ .ok ()) :
    Changes made (· = temporary.place files.workingDirectory) files run.2 := by
  refine (stores.changes here).mono (fun _ => id) ?_
  rintro place (same | ⟨succeeded, -⟩)
  · exact same
  · exact absurd succeeded failed

/-- Until the temporary file takes its place, nothing but this file and directories have come. -/
theorem changes_or_settled {stage : FileSystem}
    (h : stage ∈ stages files (storeSteps temporary target content)) :
    Changes made (· = temporary.place files.workingDirectory) files stage ∨
      runSteps files (storeSteps temporary target content) = (.ok (), stage) := by
  rcases mem_stages_append h with early | ⟨prepared, made, later⟩
  · exact .inl (changes_of_directorySteps here early)
  · have prepares : Changes _ (· = temporary.place files.workingDirectory) files prepared :=
      changes_of_prepared here made
    -- Of the two steps left, the first has a stage for each part of the content.
    rcases List.mem_append.1 later with partly | settling
    · refine .inl (prepares.trans ?_)
      rw [← prepares.place]
      exact changes_of_writeStep partly
    · cases wrote : prepared.write temporary content with
      | error e => simp [Step.run, wrote] at settling
      | ok after =>
          simp only [Step.run, wrote] at settling
          rcases List.mem_pair.1 (mem_stages_singleton settling) with rfl | rfl
          · exact .inl (changes_of_written here made wrote)
          · cases renamed : after.rename temporary target with
            | error e =>
                left
                simp only [Step.run, renamed]
                exact changes_of_unmoved here made wrote
            | ok settled =>
                right
                rw [runSteps_storeSteps made wrote]
                simp only [Step.run, renamed]

end Changes

end Storage

end LogicTree
