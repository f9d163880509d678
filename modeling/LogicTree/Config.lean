import LogicTree.Config.LogLevel
import LogicTree.Level
import LogicTree.Toml.Reader
import LogicTree.Toml.Writer

/-! # Configuration

A configuration names a tree file, a seed for sampling, the tolerance of weight sums and the level
of messages. It is kept in a settings document, in which everything may be left out.
-/

namespace LogicTree

open Toml

/-- Settings of the program. -/
structure Config where
  treeFile : Option String := none
  seed : Option UInt64 := none
  weightTolerance : Float := weightTolerance
  level : String := "info"
  deriving DecidableEq

namespace Config

/-- The level of messages. -/
def logLevel (config : Config) : Except Error LogLevel :=
  match LogLevel.ofText? config.level with
  | some level => .ok level
  | none => .error (.config
      ("logging.level must be one of trace, debug, info, warn, error; got '" ++ config.level
        ++ "'"))

/-! ## Reading -/

/-- Reads one setting into a configuration; there is none if the value has a wrong type. -/
abbrev Setter := Value → Config → Option Config

/-- Sets the tree file. -/
def setTreeFile : Setter
  | .text value, config => some { config with treeFile := some value }
  | _, _ => none

/-- Sets the seed. -/
def setSeed : Setter
  | .integer value, config =>
      if 0 ≤ value then some { config with seed := some value.toNat.toUInt64 } else none
  | _, _ => none

/-- Sets the tolerance, which may be written as an integer. -/
def setTolerance : Setter
  | .integer value, config => some { config with weightTolerance := Float.ofInt value }
  | .real value, config => some { config with weightTolerance := value }
  | _, _ => none

/-- Sets the level of messages. -/
def setLevel : Setter
  | .text value, config => some { config with level := value }
  | _, _ => none

/-- Reads the entries of a table by the setters of their keys. Others are passed over. -/
def readEntries (setters : List (String × Setter)) :
    List (String × Value) → Config → Option Config
  | [], config => some config
  | (key, value) :: entries, config => do
      match setters.lookup key with
      | some set => readEntries setters entries (← set value config)
      | none => readEntries setters entries config

/-- Reads the items of an array by setters in order. Items beyond them are not looked at. -/
def readItems : List Setter → List Value → Config → Option Config
  | set :: setters, value :: values, config => do readItems setters values (← set value config)
  | _, _, config => some config

/-- Reads a section: a table of its settings or an array of them in order. A moment counts as a
table without settings. -/
def readSection (setters : List (String × Setter)) : Setter
  | .table entries, config => readEntries setters entries config
  | .array items, config => readItems (setters.map Prod.snd) items config
  | .moment, config => some config
  | _, _ => none

/-- The settings on sampling and checking. -/
def samplingSetters : List (String × Setter) :=
  [("seed", setSeed), ("weight_tolerance", setTolerance)]

/-- The settings on messages. -/
def loggingSetters : List (String × Setter) :=
  [("level", setLevel)]

/-- All settings. -/
def setters : List (String × Setter) :=
  [("tree_file", setTreeFile), ("sampling", readSection samplingSetters),
    ("logging", readSection loggingSetters)]

/-- The configuration that a settings document holds. -/
def parse? (text : String) : Option Config := do
  readEntries setters (← Toml.read? text) {}

/-- An error about a configuration file. -/
def complaint (file : String) (text : String) : Error :=
  .config (file ++ ": " ++ text)

/-- Checks the settings that a file may hold and that cannot be used. -/
def check (file : String) (config : Config) : Except Error Unit := do
  if !config.weightTolerance.isFinite || config.weightTolerance < 0.0 then
    throw (complaint file
      ("weight_tolerance must be a non-negative number, got "
        ++ Text.ofFloat config.weightTolerance))
  match config.logLevel with
  | .ok _ => return ()
  | .error e => throw (complaint file e.message)

/-- The configuration in the text of a file. -/
def ofText (file : String) (text : String) : Except Error Config := do
  match parse? text with
  | none => throw (complaint file "TOML parse error")
  | some config => do
      config.check file
      return config

/-! ## Writing -/

/-- The settings document of a configuration. A seed has to fit in a signed word. -/
def toText (config : Config) : Except Error String := do
  let seed ← match config.seed with
    | none => pure []
    | some seed =>
        if seed.toNat < 9223372036854775808 then pure (line "seed" (Nat.toDigits 10 seed.toNat))
        else throw (.config "Failed to serialize config: out-of-range value for u64 type")
  let treeFile := match config.treeFile with
    | none => []
    | some file => line "tree_file" (writeText file.toList) ++ ['\n']
  return String.ofList (treeFile
    ++ header "sampling" ++ seed
    ++ line "weight_tolerance" (NumberLayout.settings.chars config.weightTolerance)
    ++ '\n' :: header "logging" ++ line "level" (writeText config.level.toList))

/-! ## The tree file -/

/-- The variable of the environment that names the tree file. -/
def treeFileVariable : String := "LTREE_TREE_FILE"

/-- The tree file to use: the one given as an argument, else the one in a variable of the
environment unless that is empty, else the one of the configuration. -/
def resolveTreeFile (config : Config) (argument : Option String) (variableName : String)
    (fromVariable : Option String) : Except Error String :=
  match argument, fromVariable.filter (fun file => !file.isEmpty), config.treeFile with
  | some file, _, _ | none, some file, _ | none, none, some file => .ok file
  | none, none, none => .error (.config
      ("No tree file given: pass --tree, set " ++ variableName
        ++ " or add tree_file to config.toml"))

end Config

end LogicTree
