import LogicTree.Proofs.Storage.Replacing

/-! # Runs of saves

Trees are saved one after another, each to a path of its own. A save touches files at two places
only, that of its target and that of its temporary file, and at its target only if it succeeds. So a
tree is loaded as it was last saved, unless a temporary file has taken its place.
-/

namespace LogicTree

open FileSystem (Changes Sound)
open Storage

/-- A tree to be saved, of any kind of elements. -/
structure SaveCall where
  {Element : Type}
  [writable : Json.Writable Element]
  tree : Tree Element
  path : String

namespace SaveCall

attribute [instance] writable

def target (call : SaveCall) : FilePath := FilePath.ofString call.path

def temporary (call : SaveCall) : FilePath := temporaryTree call.target

def run (call : SaveCall) (files : FileSystem) : Except Error Unit × FileSystem :=
  call.tree.save call.path files

/-- The file system after some saves, whether they succeed or fail. -/
def runAll (files : FileSystem) (calls : List SaveCall) : FileSystem :=
  calls.foldl (fun files call => (call.run files).2) files

variable {files : FileSystem} {call : SaveCall} {calls : List SaveCall} {path : FilePath}
  {content : Bytes}

/-- Where a save writes. -/
def writes (call : SaveCall) (files : FileSystem) (place : Place) : Prop :=
  place = call.temporary.place files.workingDirectory ∨
    ((call.run files).1 = .ok () ∧ place = call.target.place files.workingDirectory)

theorem run_of_refusal {refusal : Error} (written : call.tree.toBytes = .error refusal)
    (files : FileSystem) :
    ∃ failure, call.run files =
      (.error failure, (runSteps files (directorySteps call.target)).2) :=
  Tree.save_of_refusal written call.path files

theorem run_of_document (written : call.tree.toBytes = .ok content) (files : FileSystem) :
    call.run files =
      outcome (runSteps files (storeSteps call.temporary call.target content)) :=
  Tree.save_of_document written call.path files

theorem changes (call : SaveCall) (files : FileSystem) :
    Changes (fun _ => True) (call.writes files) files (call.run files).2 := by
  have anywhere : ∀ path ∈ call.target.parent.ancestors, True := fun _ _ => trivial
  cases written : call.tree.toBytes with
  | error refusal =>
      obtain ⟨failure, run⟩ := run_of_refusal written files
      rw [run]
      exact changes_of_prepared anywhere rfl
  | ok content =>
      have run := run_of_document written files
      rw [run]
      refine (stores_storeSteps.changes anywhere).mono (fun _ => id) fun place => Or.imp_right ?_
      rintro ⟨succeeded, same⟩
      refine ⟨?_, same⟩
      rw [run]
      exact mapError_eq_ok_iff.2 succeeded

theorem run_workingDirectory :
    (call.run files).2.workingDirectory = files.workingDirectory :=
  (call.changes files).workingDirectory

theorem read_of_run (call : SaveCall) (succeeded : (call.run files).1 = .ok ()) :
    ∃ content, call.tree.toBytes = .ok content ∧
      (call.run files).2.read call.target = .ok content := by
  cases written : call.tree.toBytes with
  | error refusal =>
      obtain ⟨failure, run⟩ := run_of_refusal written files
      rw [run] at succeeded
      cases succeeded
  | ok content =>
      rw [run_of_document written files] at succeeded ⊢
      exact ⟨content, rfl, stores_storeSteps.read (mapError_eq_ok_iff.1 succeeded)⟩

/-! ## Runs -/

theorem runAll_append (earlier later : List SaveCall) :
    runAll files (earlier ++ later) = runAll (runAll files earlier) later :=
  List.foldl_append

theorem runAll_workingDirectory :
    (runAll files calls).workingDirectory = files.workingDirectory := by
  induction calls generalizing files with
  | nil => rfl
  | cons call calls ih => exact ih.trans run_workingDirectory

theorem read_of_runAll (h : files.read path = .ok content)
    (spared : ∀ done next rest, calls = done ++ next :: rest →
      ¬ next.writes (runAll files done) (path.place files.workingDirectory)) :
    (runAll files calls).read path = .ok content := by
  induction calls generalizing files with
  | nil => exact h
  | cons call calls ih =>
      have first := spared [] call calls rfl
      apply ih ((call.changes files).read first h)
      intro done next rest split
      rw [run_workingDirectory]
      apply spared (call :: done) next rest
      rw [split, List.cons_append]

end SaveCall

open SaveCall (runAll)

/-- A save changes no file but at the places where it writes. So a tree that was saved is loaded
again, as long as no later save writes at its place. -/
theorem saved_until_written :
    (∀ (files : FileSystem) (call : SaveCall) (path : FilePath) (content : Bytes),
      ¬ call.writes files (path.place files.workingDirectory) →
      ((call.run files).2.HasFile (path.place files.workingDirectory) content ↔
        files.HasFile (path.place files.workingDirectory) content) ∧
      (files.read path = .ok content → (call.run files).2.read path = .ok content)) ∧
    ∀ {E : Type} [Json.Writable E] [Json.Readable E] (files : FileSystem) (tree : Tree E)
      (path : String) (earlier later : List SaveCall),
      tree.toBytes.bind Tree.ofBytes = .ok tree →
      (tree.save path (runAll files earlier)).1 = .ok () →
      (∀ done next rest, later = done ++ next :: rest →
        ¬ next.writes (runAll files (earlier ++ ⟨tree, path⟩ :: done))
          ((FilePath.ofString path).place files.workingDirectory)) →
      Tree.load path (runAll files (earlier ++ ⟨tree, path⟩ :: later)) = .ok tree := by
  constructor
  · intro files call path content elsewhere
    exact ⟨(call.changes files).file_iff elsewhere, (call.changes files).read elsewhere⟩
  · intro E _ _ files tree path earlier later survives succeeded spared
    let call : SaveCall := ⟨tree, path⟩
    obtain ⟨content, written, stored⟩ := call.read_of_run succeeded
    have kept : (runAll files (earlier ++ call :: later)).read (FilePath.ofString path) =
        .ok content := by
      rw [SaveCall.runAll_append]
      apply SaveCall.read_of_runAll stored
      intro done next rest split
      have here := spared done next rest split
      rw [SaveCall.runAll_append] at here
      rw [SaveCall.run_workingDirectory, SaveCall.runAll_workingDirectory]
      exact here
    have read : Tree.ofBytes content = .ok tree := by
      rw [written] at survives
      exact survives
    rw [Tree.load, kept]
    exact read

/-- A tree under a name, saved at a path. -/
def saveNamed (name path : String) : SaveCall := ⟨(Tree.named name : Tree String), path⟩

/-- A file system in which nothing stands yet. -/
def noFiles : FileSystem := ⟨[], []⟩

theorem saveNamed_elsewhere {files : FileSystem} (root : files.workingDirectory = []) :
    ¬ (saveNamed "two" "b.json").writes files ["a.json"] := by
  rintro (here | ⟨-, here⟩) <;>
    rw [root] at here <;>
    exact absurd here (by decide)

/-- A tree between two saves to another path. -/
theorem saved_until_written_elsewhere :
    ¬ (saveNamed "two" "b.json").writes noFiles ["a.json"] ∧
      (((saveNamed "two" "b.json").run noFiles).2.HasFile ["a.json"] [] ↔
        noFiles.HasFile ["a.json"] []) ∧
      (Tree.named "one" : Tree String).toBytes.bind Tree.ofBytes =
        .ok (Tree.named "one" : Tree String) ∧
      ((Tree.named "one" : Tree String).save "a.json"
        (runAll noFiles [saveNamed "two" "b.json"])).1 = .ok () ∧
      Tree.load "a.json" (runAll noFiles [saveNamed "two" "b.json", saveNamed "one" "a.json",
        saveNamed "two" "b.json"]) = .ok (Tree.named "one" : Tree String) := by
  have place : (FilePath.ofString "a.json").place noFiles.workingDirectory = ["a.json"] := by
    decide
  have elsewhere : ¬ (saveNamed "two" "b.json").writes noFiles
      ((FilePath.ofString "a.json").place noFiles.workingDirectory) := by
    rw [place]
    exact saveNamed_elsewhere rfl
  have survives : (Tree.named "one" : Tree String).toBytes.bind Tree.ofBytes =
      .ok (Tree.named "one" : Tree String) := by decide +kernel
  have saved : ((Tree.named "one" : Tree String).save "a.json"
      (runAll noFiles [saveNamed "two" "b.json"])).1 = .ok () := by decide +kernel
  obtain ⟨frame, loads⟩ := saved_until_written
  have kept := (frame noFiles (saveNamed "two" "b.json") (FilePath.ofString "a.json") []
    elsewhere).1
  rw [place] at kept elsewhere
  refine ⟨elsewhere, kept, survives, saved, ?_⟩
  apply loads noFiles (Tree.named "one") "a.json" [saveNamed "two" "b.json"]
    [saveNamed "two" "b.json"] survives saved
  intro done next rest split
  have only : next = saveNamed "two" "b.json" := by
    have member : next ∈ [saveNamed "two" "b.json"] := by
      rw [split]
      simp
    exact List.mem_singleton.1 member
  rw [only, place]
  exact saveNamed_elsewhere SaveCall.runAll_workingDirectory

/-- A temporary file takes the place of a tree that was saved under its name. -/
theorem temporary_replaces_saved :
    ((saveNamed "one" "a.tmp").run noFiles).1 = .ok () ∧
      ((saveNamed "two" "a").run (runAll noFiles [saveNamed "one" "a.tmp"])).1 = .ok () ∧
      (saveNamed "two" "a").target.place noFiles.workingDirectory ≠
        (saveNamed "one" "a.tmp").target.place noFiles.workingDirectory ∧
      Tree.load "a.tmp" (runAll noFiles [saveNamed "one" "a.tmp"]) =
        .ok (Tree.named "one" : Tree String) ∧
      (Tree.load "a.tmp" (runAll noFiles [saveNamed "one" "a.tmp", saveNamed "two" "a"]) :
        Except Error (Tree String)) = .error (.device .notFound) :=
  ⟨by decide +kernel, by decide +kernel, by decide, by decide +kernel, by decide +kernel⟩

end LogicTree
