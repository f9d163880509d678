import LogicTree.Text.Numeral

/-! # Command line arguments

Options may stand before the command or after it; those of the command come after it. An option
takes its value from behind an equals sign or from the next argument. Two dashes end the options.
Faults are found from left to right, but a value that is given in an argument of its own is only
looked at when the next option or the end of its part of the line is reached. So a request for help
wins over the faults that come to light behind it.
-/

namespace LogicTree

/-- What the program is asked to do with a tree. -/
inductive Command where
  /-- Report the levels and branches. -/
  | describe
  /-- Give the weight of a path, or of its last decision only. -/
  | weight (label : String) (conditional : Bool)
  /-- Draw a path, possibly from a seed. -/
  | sample (seed : Option UInt64)
  /-- List all paths. -/
  | paths
  /-- Check the tree. -/
  | validate
  /-- List the labels of the elements. -/
  | elements
  deriving DecidableEq

/-- A command with the files to use. -/
structure Invocation where
  treeFile : Option String
  configFile : Option String
  command : Command
  deriving DecidableEq

/-- Why a line of arguments is no invocation. -/
inductive Usage where
  /-- It asks for help. -/
  | help
  /-- It asks for the version. -/
  | version
  /-- It cannot be understood. -/
  | wrong
  deriving DecidableEq

namespace Arguments

/-- An option that takes a value. -/
inductive ValueOption where
  | tree
  | config
  | seed
  deriving DecidableEq

/-- An option whose value is not settled yet. -/
inductive Pending where
  | nothing
  /-- The value is still to come. -/
  | waiting (option : ValueOption)
  /-- The value has come, and has not been looked at. -/
  | given (option : ValueOption) (value : String)

/-- The commands by name. -/
inductive Verb where
  | describe
  | weight
  | sample
  | paths
  | validate
  | elements
  deriving DecidableEq

/-- The command that a name stands for. -/
def Verb.ofName? (name : String) : Option Verb :=
  [("describe", Verb.describe), ("weight", .weight), ("sample", .sample), ("paths", .paths),
    ("validate", .validate), ("elements", .elements)].lookup name

/-- What has been read of a part of the line: the part before the command, or the one after it. -/
structure Draft where
  tree : Option String := none
  config : Option String := none
  seed : Option UInt64 := none
  label : Option String := none
  conditional : Bool := false
  pending : Pending := .nothing

/-- Reading goes on, or ends with what the line is instead of an invocation. -/
abbrev Result (α : Type) := Except Usage α

/-- The 64-bit number that an argument spells. -/
def seed? (text : String) : Option UInt64 :=
  (Text.natural? text.toList).bind fun n =>
    if n < 18446744073709551616 then some n.toUInt64 else none

namespace Draft

/-- Gives a value to an option, which can have only one. File names are not empty. -/
def set (draft : Draft) (option : ValueOption) (value : String) : Result Draft :=
  match option with
  | .tree =>
      if draft.tree.isSome || value.isEmpty then .error .wrong
      else .ok { draft with tree := some value }
  | .config =>
      if draft.config.isSome || value.isEmpty then .error .wrong
      else .ok { draft with config := some value }
  | .seed =>
      match draft.seed, seed? value with
      | none, some seed => .ok { draft with seed := some seed }
      | _, _ => .error .wrong

/-- Settles the pending option, if there is one. -/
def settle (draft : Draft) : Result Draft :=
  match draft.pending with
  | .nothing => .ok draft
  | .waiting _ => .error .wrong
  | .given option value => { draft with pending := .nothing }.set option value

/-- Ends reading, once the pending option is settled. -/
def stop {α : Type} (draft : Draft) (usage : Usage) : Result α := do
  let _ ← draft.settle
  throw usage

end Draft

/-- Splits an argument at its first equals sign. -/
def splitValue (text : List Char) : List Char × Option (List Char) :=
  match text.dropWhile fun c => c != '=' with
  | [] => (text, none)
  | _ :: value => (text.takeWhile fun c => c != '=', some value)

/-- The option with a value that has a name, before the command (`none`) or after it. -/
def option? (verb : Option Verb) (name : String) : Option ValueOption :=
  match name with
  | "tree" => some .tree
  | "config" => some .config
  | "seed" => if verb = some .sample then some .seed else none
  | _ => none

/-- Takes in an argument that starts with two dashes, which are dropped. -/
def longOption (verb : Option Verb) (text : List Char) (draft : Draft) : Result Draft := do
  let (chars, value) := splitValue text
  let name := String.ofList chars
  match option? verb name, value with
  | some option, some value => do (← draft.settle).set option (String.ofList value)
  | some option, none => do return { ← draft.settle with pending := .waiting option }
  | none, some _ => throw .wrong
  | none, none =>
      if name = "help" then draft.stop .help
      else if name = "version" ∧ verb = none then draft.stop .version
      else if name = "conditional" ∧ verb = some .weight then do
        let draft ← draft.settle
        if draft.conditional then throw .wrong
        return { draft with conditional := true }
      else throw .wrong

/-- Takes in an argument that starts with one dash, which is dropped. All letters end reading. -/
def shortOption (verb : Option Verb) (letters : List Char) (draft : Draft) : Result Draft :=
  match letters with
  | 'h' :: _ => draft.stop .help
  | 'V' :: _ => if verb = none then draft.stop .version else .error .wrong
  | _ => .error .wrong

/-- Takes in an argument that is no option, after the command. Only a label is wanted. -/
def positional (verb : Verb) (value : String) (draft : Draft) : Result Draft := do
  if verb ≠ .weight ∨ draft.label.isSome then throw .wrong
  return { ← draft.settle with label := some value }

/-- What an argument looks like. -/
inductive Look where
  | dashes
  | long (text : List Char)
  | short (letters : List Char)
  | plain

/-- What an argument looks like. A single dash is a plain argument. -/
def Look.ofString (text : String) : Look :=
  match text.toList with
  | ['-', '-'] => .dashes
  | '-' :: '-' :: rest => .long rest
  | '-' :: c :: rest => .short (c :: rest)
  | _ => .plain

/-- Takes in the arguments after two dashes, none of which is an option. -/
def readPlain (verb : Verb) : List String → Draft → Result Draft
  | [], draft => .ok draft
  | argument :: arguments, draft => do readPlain verb arguments (← positional verb argument draft)

/-- Takes in the arguments after a command. -/
def readOptions (verb : Verb) : List String → Draft → Result Draft
  | [], draft => .ok draft
  | argument :: arguments, draft => do
      match Look.ofString argument with
      | .dashes => readPlain verb arguments draft
      | .long text => readOptions verb arguments (← longOption (some verb) text draft)
      | .short letters => readOptions verb arguments (← shortOption (some verb) letters draft)
      | .plain =>
          match draft.pending with
          | .waiting option =>
              readOptions verb arguments { draft with pending := .given option argument }
          | _ => readOptions verb arguments (← positional verb argument draft)

/-- Makes the command of what has been read after it. -/
def command (verb : Verb) (draft : Draft) : Result Command :=
  match verb with
  | .describe => .ok .describe
  | .weight =>
      match draft.label with
      | some label => .ok (.weight label draft.conditional)
      | none => .error .wrong
  | .sample => .ok (.sample draft.seed)
  | .paths => .ok .paths
  | .validate => .ok .validate
  | .elements => .ok .elements

/-- What a line that asks for help on something is: commands are known, and so is help itself, but
nothing below them. -/
def helpOn : List String → Usage
  | [] => .help
  | [topic] => if topic = "help" ∨ (Verb.ofName? topic).isSome then .help else .wrong
  | _ => .wrong

/-- Takes in the arguments before a command, the command and those after it. Of an option that is
given before and after, the value after counts. -/
def readLine : List String → Draft → Result Invocation
  | [], _ => .error .wrong
  | argument :: arguments, draft => do
      match draft.pending, Look.ofString argument with
      | _, .dashes => throw .wrong
      | _, .long text => readLine arguments (← longOption none text draft)
      | _, .short letters => readLine arguments (← shortOption none letters draft)
      | .waiting option, .plain =>
          readLine arguments { draft with pending := .given option argument }
      | _, .plain =>
          if argument = "help" then throw (helpOn arguments)
          match Verb.ofName? argument with
          | none => throw .wrong
          | some verb => do
              let inner ← (← readOptions verb arguments {}).settle
              let command ← command verb inner
              let outer ← draft.settle
              return ⟨inner.tree.or outer.tree, inner.config.or outer.config, command⟩

end Arguments

/-- The invocation that a line of arguments makes. -/
def Invocation.ofArguments (arguments : List String) : Except Usage Invocation :=
  Arguments.readLine arguments {}

end LogicTree
