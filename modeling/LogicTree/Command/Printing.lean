import LogicTree.Command.Execution

/-! # Printing to a sink

A command gives its output to a sink line by line, as soon as there is a line to give. What it has
given when it stops stays given, whether it stops for a failure of its own or because the sink takes
no more.
-/

namespace LogicTree

/-- Why printing stops before its end. -/
inductive Stop where
  | failed (failure : Failure)
  /-- The sink fails, for the reason given. -/
  | refused (reason : String)
  deriving DecidableEq

/-- Work that gives bytes to a sink and may stop. -/
abbrev Printing (α : Type) := ExceptT Stop (StateM Sink) α

namespace Printing

/-- What work leaves of a sink, with its value or why it stopped. -/
def runOn {α : Type} (work : Printing α) (sink : Sink) : Except Stop α × Sink :=
  (StateT.run (ExceptT.run work) sink).run

/-- Takes the answer to a question, or stops with the error. -/
def ask {α : Type} : Except Error α → Printing α
  | .ok value => pure value
  | .error e => throw (.failed (.error e))

/-- Gives a line to the sink. -/
def line (text : String) : Printing Unit := do
  let (result, sink) := (← get).write (Bytes.ofString (text ++ "\n"))
  set sink
  match result with
  | .ok () => return ()
  | .error reason => throw (.refused reason)

/-- Gives lines to the sink, one by one. -/
def lines : List String → Printing Unit
  | [] => return ()
  | text :: texts => do
      line text
      lines texts

end Printing

open Printing

/-- Executes a command on a tree and prints what it finds. -/
def Command.print (command : Command) (tree : StoredTree) (config : Config) (entropy : UInt64) :
    Printing Unit :=
  match command with
  | .describe => lines tree.describe
  | .weight label conditional => do
      let path ← ask (Path.ofLabel label)
      let weight ← ask (if conditional then tree.conditionalWeight path else tree.pathWeight path)
      line (Text.ofFloat weight)
  | .sample seed => do
      let source := ChaCha.Stream.ofSeed ((seed.or config.seed).getD entropy)
      let path ← ask (tree.samplePath source).result
      let weight ← ask (tree.pathWeight path)
      line (pathText path weight)
  | .paths => do
      let rows ← ask tree.paths
      lines (rows.map fun row => pathText row.1 row.2)
  | .validate => do
      match tree.check config.weightTolerance with
      | .error e => throw (.failed (.invalid tree.modelName e))
      | .ok () => do
          let count ← ask (pathCountText tree)
          line ("OK: " ++ Text.ofNat tree.depth ++ " levels, " ++ count ++ " paths")
  | .elements => lines tree.elements.labels

/-- Loads the tree, executes the command on it and prints what it finds. -/
def Invocation.print (invocation : Invocation) (config : Config) (around : Surroundings) :
    Printing Unit := do
  let path ← ask
    (config.resolveTreeFile invocation.treeFile Config.treeFileVariable around.treeVariable)
  match (Tree.load path around.files : Except Error StoredTree) with
  | .error e => throw (.failed (.loading path e))
  | .ok tree => invocation.command.print tree config around.entropy

end LogicTree
