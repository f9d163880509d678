import LogicTree.Command.Arguments
import LogicTree.Report
import LogicTree.Sampling
import LogicTree.Sampling.ChaCha
import LogicTree.Storage
import LogicTree.Tree.Weights

/-! # Executing commands

A command works on a tree that is loaded from a file, and leaves output, or fails and leaves none.
On the way it posts messages; the level that is set decides which of them are shown.
-/

namespace LogicTree

/-- A tree as stored, with elements of any sort. -/
abbrev StoredTree := Tree Json

/-- Something that is worth a message. -/
inductive Notice where
  /-- There is no configuration file. -/
  | noConfig
  /-- The level of messages is set. -/
  | levelSet (level : LogLevel)
  /-- The program starts. -/
  | starting
  /-- A tree has been loaded. -/
  | loaded (modelName : String)
  /-- Draws are made from a seed. -/
  | seeded (seed : UInt64)
  /-- A tree breaks a rule. -/
  | invalid (cause : Error)
  /-- The weights of the level at an index fell short of a draw by rounding. -/
  | clamped (index : Nat)
  deriving DecidableEq

/-- How severe a notice is. -/
def Notice.level : Notice → LogLevel
  | .noConfig | .invalid _ | .clamped _ => .warn
  | .starting | .loaded _ | .seeded _ => .info
  | .levelSet _ => .debug

/-- The words of a notice. -/
def Notice.message : Notice → String
  | .noConfig => "No config file found, using defaults"
  | .levelSet level => "Log level set to " ++ level.name
  | .starting => "Starting ltree"
  | .loaded modelName => "Loaded logic tree '" ++ modelName ++ "'"
  | .seeded seed => "Sampling with seed " ++ Text.ofNat seed.toNat
  | .invalid cause => "Validation failed: " ++ cause.message
  | .clamped index =>
      "Cumulative weight fell short of draw by rounding; using last weighted branch of level "
        ++ Text.ofNat index

/-- Why a command failed. -/
inductive Failure where
  | error (cause : Error)
  /-- The tree could not be loaded from a file. -/
  | loading (path : String) (cause : Error)
  /-- The tree of a name broke a rule when it was checked. -/
  | invalid (modelName : String) (cause : Error)
  deriving DecidableEq

namespace Failure

/-- What the message of an error wraps, if it wraps anything. -/
def wrapped : Error → List String
  | .device cause => [cause.describe]
  | .document problem => [problem.describe]
  | _ => []

/-- The outermost words for a failure. -/
def headline : Failure → String
  | .error cause => cause.message
  | .loading path _ => "Failed to load tree from " ++ path
  | .invalid modelName cause => "Logic tree '" ++ modelName ++ "' is invalid: " ++ cause.message

/-- The words for what is behind a failure, down to the innermost cause. -/
def causes : Failure → List String
  | .error cause => wrapped cause
  | .loading _ cause => cause.message :: wrapped cause
  | .invalid _ _ => []

/-- The words for a failure, from the outermost cause to the innermost. -/
def chain (failure : Failure) : List String :=
  failure.headline :: failure.causes

/-- Lines that name causes, each with its number. -/
def numbered : Nat → List String → List String
  | _, [] => []
  | n, cause :: causes => ("    " ++ Text.ofNat n ++ ": " ++ cause) :: numbered (n + 1) causes

/-- The words that a program leaves for a failure, with the causes below them. -/
def complaint (failure : Failure) : String :=
  "Error: " ++ failure.headline ++ match failure.causes with
    | [] => ""
    | [cause] => "\n\nCaused by:\n    " ++ cause
    | causes => "\n\nCaused by:\n" ++ "\n".intercalate (numbered 0 causes)

end Failure

/-- What executing a command leaves. -/
structure Execution where
  result : Except Failure Unit
  output : String
  notices : List Notice

namespace Execution

/-- The execution that ends with a failure. -/
def failed (failure : Failure) (notices : List Notice) : Execution :=
  ⟨.error failure, "", notices⟩

/-- The execution that ends with output. -/
def done (output : String) (notices : List Notice) : Execution :=
  ⟨.ok (), output, notices⟩

/-- The execution that ends with output or an error. -/
def ofExcept (output : Except Error String) (notices : List Notice) : Execution :=
  match output with
  | .ok output => done output notices
  | .error e => failed (.error e) notices

end Execution

/-- Lines of output, every one ended. -/
def linesText (lines : List String) : String :=
  String.join (lines.map fun line => line ++ "\n")

/-- The words for the number of paths. -/
def pathCountText (tree : StoredTree) : Except Error String :=
  match tree.pathCount with
  | .ok count => .ok (Text.ofNat count)
  | .error (.pathCountOverflow _) => .ok ("more than " ++ Text.ofNat 18446744073709551615)
  | .error e => .error e

/-- A path with its joint weight. -/
def pathText (path : Path) (weight : Float) : String :=
  path.label ++ " " ++ Text.ofFloat weight

/-- Draws a path and finds its joint weight. -/
def sampleText {σ : Type} [UniformSource σ] (tree : StoredTree) (source : σ) :
    Except Error String × List Notice :=
  let sampled := tree.samplePath source
  let output := do
    let path ← sampled.result
    let weight ← tree.pathWeight path
    return linesText [pathText path weight]
  (output, sampled.clamped.map .clamped)

/-- Executes a command on a tree. Draws without a seed are made from `entropy`. -/
def Command.execute (command : Command) (tree : StoredTree) (config : Config)
    (entropy : UInt64) : Execution :=
  match command with
  | .describe => .done tree.report []
  | .weight label conditional =>
      .ofExcept (do
        let path ← Path.ofLabel label
        let found ← if conditional then tree.conditionalWeight path else tree.pathWeight path
        return linesText [Text.ofFloat found]) []
  | .sample seed =>
      let seed := seed.or config.seed
      let (output, notices) := sampleText tree (ChaCha.Stream.ofSeed (seed.getD entropy))
      .ofExcept output ((seed.map Notice.seeded).toList ++ notices)
  | .paths =>
      .ofExcept (do
        let paths ← tree.paths
        return linesText (paths.map fun row => pathText row.1 row.2)) []
  | .validate =>
      match tree.check config.weightTolerance with
      | .error e => .failed (.invalid tree.modelName e) [.invalid e]
      | .ok () =>
          .ofExcept (do
            let count ← pathCountText tree
            return linesText
              ["OK: " ++ Text.ofNat tree.depth ++ " levels, " ++ count ++ " paths"]) []
  | .elements => .done (linesText tree.elements.labels) []

/-- What surrounds the program. -/
structure Surroundings where
  files : FileSystem
  /-- The directory below which programs keep their configurations. -/
  configDirectory : String
  /-- The variable of the environment that names the tree file. -/
  treeVariable : Option String
  /-- A seed that nobody chose. -/
  entropy : UInt64

namespace Invocation

/-- Loads the tree and executes the command, under a configuration. -/
def run (invocation : Invocation) (config : Config) (around : Surroundings) : Execution :=
  match config.resolveTreeFile invocation.treeFile Config.treeFileVariable around.treeVariable with
  | .error e => .failed (.error e) []
  | .ok path =>
      match (Tree.load path around.files : Except Error StoredTree) with
      | .error e => .failed (.loading path e) []
      | .ok tree =>
          let execution := invocation.command.execute tree config around.entropy
          { execution with notices := .loaded tree.modelName :: execution.notices }

/-- Executes the command under the configuration of the file that the invocation names, or under
another one if it names none. -/
def runWith (invocation : Invocation) (config : Config) (around : Surroundings) : Execution :=
  match invocation.configFile with
  | none => invocation.run config around
  | some path =>
      match Config.load path around.files with
      | .error e => .failed (.error e) []
      | .ok config => invocation.run config around

end Invocation

end LogicTree
