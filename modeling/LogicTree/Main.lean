import LogicTree.Command.Program

/-! # Command line

Looks at the files that a run can ask for, runs the program on what stands there, and prints what it
leaves.
-/

namespace LogicTree.CommandLine

/-- What stands at a path on the disk. -/
def probe (path : String) : IO (Option Entry) := do
  try
    let content ← IO.FS.readBinFile path
    return some (.file content.data.toList)
  catch _ =>
    try
      let _ ← IO.FS.realPath path
      return some .directory
    catch _ => return none

/-- Adds to a file system what stands at the names of a path, given the names passed so far and the
place where they lead. -/
def survey (start : String) (files : FileSystem) : Place → List String → List String → IO FileSystem
  | _, _, [] => return files
  | place, passed, name :: names => do
      let passed := passed ++ [name]
      if name = "." then survey start files place passed names
      else if name = ".." then survey start files place.dropLast passed names
      else
        let place := place ++ [name]
        match ← probe (start ++ "/".intercalate passed) with
        | some entry => survey start (files.put place entry) place passed names
        | none => return files

/-- Adds to a file system what stands on the way to a path. -/
def surveyPath (files : FileSystem) (path : String) : IO FileSystem := do
  let parsed := FilePath.ofString path
  if parsed.absolute then survey "/" files [] [] parsed.names
  else survey "" files files.workingDirectory [] parsed.names

/-- The directory below which programs keep their configurations. -/
def configDirectory : IO String := do
  let home := (← IO.getEnv "HOME").getD ""
  match ← IO.getEnv "XDG_CONFIG_HOME" with
  | some directory =>
      return if directory.startsWith "/" then directory else home ++ "/.config"
  | none => return home ++ "/.config"

/-- The number that bytes make. -/
def numberOf (bytes : ByteArray) : UInt64 :=
  bytes.data.foldl (fun n byte => n * 256 + byte.toUInt64) 0

/-- What surrounds a run on a line of arguments. -/
def surroundings (arguments : List String) : IO Surroundings := do
  let directory ← configDirectory
  let fromVariable ← IO.getEnv Config.treeFileVariable
  let entropy := numberOf (← IO.getRandomBytes 8)
  let here := FilePath.ofString (toString (← IO.currentDir))
  let around (files : FileSystem) : Surroundings := ⟨files, directory, fromVariable, entropy⟩
  let files : FileSystem := ⟨[], here.names⟩
  match Invocation.ofArguments arguments with
  | .error _ => return around files
  | .ok invocation => do
      let configFile := invocation.configFile.getD (Config.defaultPath directory)
      let files ← surveyPath (← surveyPath files ".") configFile
      let tree? := do
        let config ← (Program.findConfig invocation (around files)).1
        config.resolveTreeFile invocation.treeFile Config.treeFileVariable fromVariable
      match tree? with
      | .ok path => return around (← surveyPath files path)
      | .error _ => return around files

end LogicTree.CommandLine

open LogicTree in
def main (arguments : List String) : IO UInt32 := do
  let run := Program.run arguments (← CommandLine.surroundings arguments)
  for notice in run.shown do
    IO.eprintln (notice.level.name ++ " " ++ notice.message)
  IO.print run.output
  match run.failure with
  | some failure => IO.eprintln failure.complaint
  | none => if run.exitCode = 2 then IO.eprint Program.helpText
  return run.exitCode.toUInt32
