import LogicTree.Config
import LogicTree.Document.Reader
import LogicTree.Document.Writer
import LogicTree.FileSystem

/-! # Stored trees and configurations

A file is replaced in steps: its new content is written to a temporary file beside it, which then
takes its place. So nobody ever sees half of a file where it belongs.
-/

namespace LogicTree

namespace Storage

/-- A step by which a file is replaced. -/
inductive Step where
  /-- Makes a directory and those above it. -/
  | makeDirectories (path : FilePath)
  /-- Writes a temporary file. -/
  | write (temporary : FilePath) (content : Bytes)
  /-- Moves the temporary file to its place, or removes it if that fails. -/
  | settle (temporary target : FilePath)

/-- Takes a step. -/
def Step.run (files : FileSystem) : Step → Except DeviceError Unit × FileSystem
  | .makeDirectories path => files.makeDirectories path
  | .write temporary content =>
      match files.write temporary content with
      | .ok files => (.ok (), files)
      | .error e => (.error e, files)
  | .settle temporary target =>
      match files.rename temporary target with
      | .ok files => (.ok (), files)
      | .error e => (.error e, files.remove temporary)

/-- Takes steps in order, up to the first that fails. -/
def runSteps (files : FileSystem) : List Step → Except DeviceError Unit × FileSystem
  | [] => (.ok (), files)
  | step :: steps =>
      match step.run files with
      | (.ok (), files) => runSteps files steps
      | failed => failed

/-- The step that makes the directory of a file, unless that is the working directory. -/
def directorySteps (target : FilePath) : List Step :=
  if target.parent.isEmpty then [] else [.makeDirectories target.parent]

/-- The steps that bring a content to a place. -/
def replaceSteps (temporary target : FilePath) (content : Bytes) : List Step :=
  [.write temporary content, .settle temporary target]

/-- The outcome of steps, as an outcome of the library. -/
def outcome (run : Except DeviceError Unit × FileSystem) : Except Error Unit × FileSystem :=
  (run.1.mapError .device, run.2)

/-- The content of a file as text. -/
def readText (files : FileSystem) (path : String) : Except Error String := do
  let content ← (files.read (FilePath.ofString path)).mapError .device
  match Bytes.toString? content with
  | some text => return text
  | none => throw (.device (.other "stream did not contain valid UTF-8"))

/-- Where a tree waits before it takes its place. -/
def temporaryTree (target : FilePath) : FilePath := target.besideWithSuffix ".tmp"

/-- Where a configuration waits before it takes its place. -/
def temporaryConfig (target : FilePath) : FilePath := target.withExtension "toml.tmp"

end Storage

open Storage

/-- Saves a tree. The directory of the file is made first, and a tree that cannot be written is
refused only then. -/
def Tree.save {E : Type} [Json.Writable E] (tree : Tree E) (path : String) (files : FileSystem) :
    Except Error Unit × FileSystem :=
  let target := FilePath.ofString path
  match runSteps files (directorySteps target) with
  | (.error e, files) => (.error (.device e), files)
  | (.ok (), files) =>
      match tree.toBytes with
      | .error e => (.error e, files)
      | .ok content =>
          outcome (runSteps files (replaceSteps (temporaryTree target) target content))

/-- Loads a tree. -/
def Tree.load {E : Type} [Json.Readable E] (path : String) (files : FileSystem) :
    Except Error (Tree E) := do
  Tree.ofBytes (← (files.read (FilePath.ofString path)).mapError .device)

namespace Config

/-- Saves a configuration. -/
def save (config : Config) (path : String) (files : FileSystem) :
    Except Error Unit × FileSystem :=
  let target := FilePath.ofString path
  match config.toText with
  | .error e => (.error e, files)
  | .ok text =>
      outcome (runSteps files (directorySteps target
        ++ replaceSteps (temporaryConfig target) target (Bytes.ofString text)))

/-- Loads a configuration. -/
def load (path : String) (files : FileSystem) : Except Error Config := do
  ofText path (← readText files path)

/-- The configuration file of the program below the directory of all configurations. -/
def defaultPath (directory : String) : String := directory ++ "/ltree/config.toml"

/-- Loads the configuration of the program, if there is a file for it. -/
def loadDefault? (directory : String) (files : FileSystem) : Option (Except Error Config) :=
  let path := defaultPath directory
  if files.hasEntry (FilePath.ofString path) then some (load path files) else none

end Config

end LogicTree
