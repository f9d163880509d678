import LogicTree.Command.Execution

/-! # The program

The program finds its configuration, sets the level of messages and executes its command. Messages
that come before the level is set are shown from the level of information on.
-/

namespace LogicTree

/-- What a run of the program leaves. -/
structure ProgramRun where
  exitCode : Nat
  output : String
  failure : Option Failure
  /-- The notices that are shown. -/
  shown : List Notice

namespace Program

/-- The version of the program. -/
def version : String := "0.1.0"

/-- What the program says when it is asked for its version. -/
def versionText : String := "ltree " ++ version ++ "\n"

/-- What the program says when it is asked for help. -/
def helpText : String := linesText [
  "Inspect, weigh and sample logic trees",
  "",
  "Usage: ltree [OPTIONS] <COMMAND>",
  "",
  "Commands:",
  "  describe  Print every level and branch",
  "  weight    Weight of a path label such as 2_1_3",
  "  sample    Sample one complete path",
  "  paths     List every complete path with its joint weight",
  "  validate  Check level ordering, branch ids and weight sums",
  "  elements  List element mapping labels",
  "  help      Print this message",
  "",
  "Options:",
  "      --tree <TREE>      Persisted logic tree (JSON)",
  "      --config <CONFIG>  Config file (defaults to the platform config location)",
  "  -h, --help             Print help",
  "  -V, --version          Print version"]

/-- The run that a line of arguments leaves which is no invocation. -/
def usageRun : Usage → ProgramRun
  | .help => ⟨0, helpText, none, []⟩
  | .version => ⟨0, versionText, none, []⟩
  | .wrong => ⟨2, "", none, []⟩

/-- The run that ends with a failure. -/
def failedRun (failure : Failure) (output : String) (shown : List Notice) : ProgramRun :=
  ⟨1, output, some failure, shown⟩

/-- Those of some notices that are shown at a level. -/
def shownAt (level : LogLevel) (notices : List Notice) : List Notice :=
  notices.filter fun notice => notice.level.shownAt level

/-- The configuration to use, and the notices that finding it leaves. -/
def findConfig (invocation : Invocation) (around : Surroundings) :
    Except Error Config × List Notice :=
  match invocation.configFile with
  | some path => (Config.load path around.files, [])
  | none =>
      match Config.loadDefault? around.configDirectory around.files with
      | some config => (config, [])
      | none => (.ok {}, [.noConfig])

/-- Runs the program on an invocation. -/
def runInvocation (invocation : Invocation) (around : Surroundings) : ProgramRun :=
  let (found, early) := findConfig invocation around
  let early := shownAt .info early
  let ready := do
    let config ← found
    return (config, ← config.logLevel)
  match ready with
  | .error e => failedRun (.error e) "" early
  | .ok (config, level) =>
      let execution := invocation.run config around
      let shown := early
        ++ shownAt level (.levelSet level :: .starting :: execution.notices)
      match execution.result with
      | .ok () => ⟨0, execution.output, none, shown⟩
      | .error failure => failedRun failure execution.output shown

/-- Runs the program on a line of arguments. -/
def run (arguments : List String) (around : Surroundings) : ProgramRun :=
  match Invocation.ofArguments arguments with
  | .error usage => usageRun usage
  | .ok invocation => runInvocation invocation around

end Program

end LogicTree
