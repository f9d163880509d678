import LogicTree.Command.Printing
import LogicTree.Proofs.Command.Outlines

/-! # Output all at once

Every command asks all its questions before it gives its first line to the sink. So with a sink that
never fails a run ends with its whole output in the sink, or it fails and the sink is as it was.
-/

namespace LogicTree

/-- The sink after it has taken a text, whatever its limit. -/
def Sink.holding (sink : Sink) (text : String) : Sink :=
  { sink with written := sink.written ++ Bytes.ofString text }

theorem Sink.write_of_endless {sink : Sink} (endless : sink.limit = none) (text : String) :
    sink.write (Bytes.ofString text) = (.ok (), sink.holding text) := by
  simp only [write, endless, holding]

theorem linesText_cons (line : String) (lines : List String) :
    linesText (line :: lines) = linesText [line] ++ linesText lines := by
  simp [linesText]

theorem linesText_singleton (line : String) : linesText [line] = line ++ "\n" := by
  simp [linesText]

theorem Sink.holding_holding (sink : Sink) (first second : String) :
    (sink.holding first).holding second = sink.holding (first ++ second) := by
  simp [holding, Bytes.ofString]

namespace Printing

/-- What a sink without limit is left with: all of an answer, or nothing new. -/
def leave (sink : Sink) : Except Failure String → Except Stop Unit × Sink
  | .ok output => (.ok (), sink.holding output)
  | .error failure => (.error (.failed failure), sink)

/-- Printing leaves an answer in every sink without limit. -/
def Leaves (work : Printing Unit) (answer : Except Failure String) : Prop :=
  ∀ sink : Sink, sink.limit = none → work.runOn sink = leave sink answer

variable {α β : Type} {rest : α → Printing Unit}

theorem leaves_throw (failure : Failure) : Leaves (throw (.failed failure)) (.error failure) :=
  fun _ _ => rfl

theorem ask_ok_bind (value : α) : (ask (.ok value) >>= rest) = rest value := rfl

/-- A question that is answered leaves what comes after it to be printed; one that fails ends the
    printing. -/
theorem Leaves.ask {step : Except Error α} {next : α → Except Error String}
    (later : ∀ value, Leaves (rest value) ((next value).mapError .error)) :
    Leaves (ask step >>= rest) ((step >>= next).mapError .error) := by
  intro sink endless
  cases step with
  | error e => rfl
  | ok value => exact later value sink endless

theorem runOn_bind (work : Printing α) (rest : α → Printing β) (sink : Sink) :
    (work >>= rest).runOn sink = match work.runOn sink with
      | (.ok value, sink) => (rest value).runOn sink
      | (.error stop, sink) => (.error stop, sink) := by
  simp only [runOn, ExceptT.run_bind, StateT.run_bind, Id.run_bind]
  rcases (StateT.run (ExceptT.run work) sink).run with ⟨_ | value, sink⟩ <;> rfl

theorem leaves_line (text : String) : Leaves (line text) (.ok (linesText [text])) := by
  intro sink endless
  have taken := Sink.write_of_endless endless (text ++ "\n")
  have start : (get : Printing Sink).runOn sink = (.ok sink, sink) := rfl
  rw [line, runOn_bind, start, linesText_singleton]
  simp only [taken]
  rfl

theorem leaves_lines (texts : List String) : Leaves (lines texts) (.ok (linesText texts)) := by
  induction texts with
  | nil =>
      intro sink _
      have nothing : sink.holding "" = sink := by simp [Sink.holding, Bytes.ofString]
      change (Except.ok (), sink) = (Except.ok (), sink.holding "")
      rw [nothing]
  | cons text texts ih =>
      intro sink endless
      have first := leaves_line text sink endless
      have others := ih (sink.holding (linesText [text])) endless
      rw [lines, runOn_bind, first]
      simp only [leave] at others ⊢
      rw [others, Sink.holding_holding, ← linesText_cons]

end Printing

/-! ## Commands -/

open Printing

/-- The output of an execution, or its failure. -/
def Execution.answer (execution : Execution) : Except Failure String :=
  execution.result.map fun _ => execution.output

namespace Execution

theorem answer_ofExcept (answer : Except Error String) (notices : List Notice) :
    (ofExcept answer notices).answer = answer.mapError .error := by
  cases answer <;> rfl

end Execution

theorem Command.leaves_print (command : Command) (tree : StoredTree) (config : Config)
    (entropy : UInt64) :
    (command.print tree config entropy).Leaves (command.execute tree config entropy).answer := by
  cases command with
  | describe => exact leaves_lines tree.describe
  | elements => exact leaves_lines tree.elements.labels
  | weight label conditional =>
      rw [execute, Execution.answer_ofExcept]
      apply Leaves.ask
      intro path
      cases conditional with
      | false | true =>
          apply Leaves.ask
          intro weight
          exact leaves_line _
  | sample seed =>
      rw [execute]
      simp only [sampleText]
      rw [Execution.answer_ofExcept]
      apply Leaves.ask
      intro path
      apply Leaves.ask
      intro weight
      exact leaves_line _
  | paths =>
      rw [execute, Execution.answer_ofExcept]
      apply Leaves.ask
      intro rows
      exact leaves_lines _
  | validate =>
      simp only [print, execute]
      cases tree.check config.weightTolerance with
      | error e => exact leaves_throw _
      | ok =>
          rw [Execution.answer_ofExcept]
          apply Leaves.ask
          intro count
          exact leaves_line _

theorem Invocation.leaves_print (invocation : Invocation) (config : Config)
    (around : Surroundings) :
    (invocation.print config around).Leaves (invocation.run config around).answer := by
  unfold print run
  cases config.resolveTreeFile invocation.treeFile Config.treeFileVariable around.treeVariable with
  | error e => exact leaves_throw _
  | ok path =>
      rw [ask_ok_bind]
      dsimp only
      cases (Tree.load path around.files : Except Error StoredTree) with
      | error e => exact leaves_throw _
      | ok tree => exact invocation.command.leaves_print tree config around.entropy

theorem Execution.answer_eq_ok_iff {execution : Execution} {output : String} :
    execution.answer = .ok output ↔ execution.Prints output := by
  unfold answer Prints
  cases execution.result <;> simp [Except.map]

theorem Invocation.prints_run_iff {invocation : Invocation} {config : Config}
    {around : Surroundings} {output : String} :
    (invocation.run config around).Prints output ↔
      ∃ path tree,
        config.resolveTreeFile invocation.treeFile Config.treeFileVariable around.treeVariable =
            .ok path ∧
          Tree.load path around.files = .ok tree ∧
          (invocation.command.execute tree config around.entropy).Prints output := by
  unfold run
  cases config.resolveTreeFile invocation.treeFile Config.treeFileVariable around.treeVariable with
  | error e => simp [Execution.Prints, Execution.failed]
  | ok path =>
      cases loaded : (Tree.load path around.files : Except Error StoredTree) with
      | error e => simp [Execution.Prints, Execution.failed, loaded]
      | ok tree => simp [Execution.Prints, loaded]

/-- A run with a sink that never fails ends with all its output in the sink, or it fails and gives
    the sink nothing. What it gives is the whole enumeration if it is to list the paths, and a path
    with its weight if it is to draw one. -/
theorem Invocation.print_all_or_nothing (invocation : Invocation) (config : Config)
    (around : Surroundings) {sink : Sink} (endless : sink.limit = none) :
    (∃ failure, (invocation.print config around).runOn sink = (.error (.failed failure), sink)) ∨
      ∃ path tree output,
        config.resolveTreeFile invocation.treeFile Config.treeFileVariable around.treeVariable =
            .ok path ∧
          Tree.load path around.files = .ok tree ∧
          (invocation.print config around).runOn sink = (.ok (), sink.holding output) ∧
          (invocation.command.execute tree config around.entropy).Prints output ∧
          (invocation.command = .paths → ∃ rows, tree.paths = .ok rows ∧
            output = linesText (rows.map fun row => pathText row.1 row.2)) ∧
          ∀ seed, invocation.command = .sample seed → ∃ path weight,
            tree.pathWeight path = .ok weight ∧ output = linesText [pathText path weight] := by
  have left := invocation.leaves_print config around sink endless
  cases answer : (invocation.run config around).answer with
  | error failure =>
      rw [answer] at left
      exact .inl ⟨failure, left⟩
  | ok output =>
      rw [answer] at left
      obtain ⟨path, tree, resolved, loaded, prints⟩ :=
        prints_run_iff.1 (Execution.answer_eq_ok_iff.1 answer)
      refine .inr ⟨path, tree, output, resolved, loaded, left, prints, ?_, ?_⟩
      · intro listing
        rw [listing] at prints
        exact Command.prints_paths_iff.1 prints
      · intro seed drawing
        rw [drawing] at prints
        obtain ⟨path, weight, -, weighed, rfl⟩ := Command.prints_sample_iff.1 prints
        exact ⟨path, weight, weighed, rfl⟩

def forkedTree : StoredTree :=
  ⟨"", [⟨0, "", "", [⟨1, 0.25, .flag true, none, none⟩, ⟨2, 0.75, .flag false, none, none⟩]⟩], ∅⟩

def besideFork : Surroundings := besideTree (forkedTree.toJson.print .lines)

/-- A sink that holds a byte. -/
def startedSink : Sink := { written := [0x2e] }

/-- Lists the paths of the tree. -/
def listing : Invocation := ⟨some "tree.json", none, .paths⟩

/-- Weighs a path by a branch that the tree does not have. -/
def weighing : Invocation := ⟨some "tree.json", none, .weight "3" false⟩

/-- Both runs load the tree. One prints two paths, the other fails after loading. -/
theorem Invocation.print_all_or_nothing_forkedTree :
    startedSink.limit = none ∧ Tree.load "tree.json" besideFork.files = .ok forkedTree ∧
      (listing.print {} besideFork).runOn startedSink =
        (.ok (), startedSink.holding "1 0.25\n2 0.75\n") ∧
      ∃ failure, (weighing.print {} besideFork).runOn startedSink =
        (.error (.failed failure), startedSink) := by
  have endless : startedSink.limit = none := rfl
  have loaded : Tree.load "tree.json" besideFork.files = .ok forkedTree :=
    (Tree.load_of_read rfl).trans
      (Tree.ofBytes_toJson rfl fun _ hrow => absurd hrow List.not_mem_nil)
  have listed : (listing.command.execute forkedTree {} besideFork.entropy).Prints
      "1 0.25\n2 0.75\n" := ⟨rfl, by decide +kernel⟩
  have refused : (weighing.command.execute forkedTree {} besideFork.entropy).result ≠ .ok () := by
    decide +kernel
  refine ⟨endless, loaded, ?_, ?_⟩
  · obtain ⟨failure, failed⟩ | ⟨path, tree, output, resolved, found, printed, prints, -⟩ :=
      print_all_or_nothing listing {} besideFork endless
    · have ran : (listing.run {} besideFork).Prints "1 0.25\n2 0.75\n" :=
        prints_run_iff.2 ⟨_, _, rfl, loaded, listed⟩
      have left := listing.leaves_print {} besideFork startedSink endless
      rw [Execution.answer_eq_ok_iff.2 ran] at left
      cases left.symm.trans failed
    · cases resolved
      cases loaded.symm.trans found
      rw [← prints.2, listed.2] at printed
      exact printed
  · obtain failed | ⟨path, tree, output, resolved, found, -, prints, -⟩ :=
      print_all_or_nothing weighing {} besideFork endless
    · exact failed
    · cases resolved
      cases loaded.symm.trans found
      exact absurd prints.1 refused

end LogicTree
