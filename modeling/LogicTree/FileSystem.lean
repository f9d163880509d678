import LogicTree.Error
import LogicTree.FileSystem.Path

/-! # File systems

A file system without links: what stands at each place below the root, and the working directory in
which relative paths start. Operations give the file system after them, or the reason that they
change nothing.
-/

namespace LogicTree

/-- The names on the way from the root to a place. -/
abbrev Place := List String

/-- What stands at a place. -/
inductive Entry where
  | file (content : Bytes)
  | directory
  deriving DecidableEq

/-- Files and directories below a root that is a directory itself. -/
structure FileSystem where
  entries : List (Place × Entry)
  workingDirectory : Place
  deriving DecidableEq

/-- Where a path leads. -/
inductive Target where
  /-- To a name in a directory, at which something may or may not stand. -/
  | name (directory : Place) (name : String)
  /-- To a directory, by a path that ends in points or names none. -/
  | directory (place : Place)
  deriving DecidableEq

namespace FileSystem

/-- What stands at a place. -/
def entry? (files : FileSystem) (place : Place) : Option Entry :=
  if place.isEmpty then some .directory else files.entries.lookup place

/-- The file system with nothing at a place. -/
def erase (files : FileSystem) (place : Place) : FileSystem :=
  { files with entries := files.entries.filter fun row => row.1 != place }

/-- The file system with something at a place, instead of what stood there. -/
def put (files : FileSystem) (place : Place) (entry : Entry) : FileSystem :=
  { files with entries := (place, entry) :: (files.erase place).entries }

/-- Walks from a directory along names, all of which but the last have to be directories. -/
def walk (files : FileSystem) : Place → List String → Except DeviceError Target
  | place, [] => .ok (.directory place)
  | place, name :: names =>
      if name = "." then files.walk place names
      else if name = ".." then files.walk place.dropLast names
      else if 255 < name.utf8ByteSize then .error .nameTooLong
      else if names.isEmpty then .ok (.name place name)
      else match files.entry? (place ++ [name]) with
        | none => .error .notFound
        | some (.file _) => .error .notADirectory
        | some .directory => files.walk (place ++ [name]) names

/-- Where a path leads. -/
def locate (files : FileSystem) (path : FilePath) : Except DeviceError Target :=
  if path.names.any fun name => name.toList.contains '\x00' then
    .error (.other "file name contained an unexpected NUL byte")
  else if path.isEmpty then .error .notFound
  else files.walk (if path.absolute then [] else files.workingDirectory) path.names

/-- What stands where a path leads. -/
def find (files : FileSystem) (path : FilePath) : Except DeviceError Entry := do
  match ← files.locate path with
  | .directory _ => return .directory
  | .name place name =>
      match files.entry? (place ++ [name]) with
      | none => throw .notFound
      | some (.file content) =>
          if path.endsInSlash then throw .notADirectory else return .file content
      | some .directory => return .directory

/-- Whether something stands where a path leads. -/
def hasEntry (files : FileSystem) (path : FilePath) : Bool :=
  match files.find path with
  | .ok _ => true
  | .error _ => false

/-- Whether a path leads to a directory. -/
def hasDirectory (files : FileSystem) (path : FilePath) : Bool :=
  match files.find path with
  | .ok .directory => true
  | _ => false

/-- The content of a file. -/
def read (files : FileSystem) (path : FilePath) : Except DeviceError Bytes := do
  match ← files.find path with
  | .file content => return content
  | .directory => throw .isADirectory

/-- Writes a file, anew or over its content. -/
def write (files : FileSystem) (path : FilePath) (content : Bytes) :
    Except DeviceError FileSystem := do
  match ← files.locate path with
  | .directory _ => throw .isADirectory
  | .name place name =>
      if path.endsInSlash then throw .isADirectory
      match files.entry? (place ++ [name]) with
      | some .directory => throw .isADirectory
      | _ => return files.put (place ++ [name]) (.file content)

/-- Makes a directory where nothing stands. -/
def makeDirectory (files : FileSystem) (path : FilePath) : Except DeviceError FileSystem := do
  match ← files.locate path with
  | .directory _ => throw .exists
  | .name place name =>
      match files.entry? (place ++ [name]) with
      | some _ => throw .exists
      | none => return files.put (place ++ [name]) .directory

/-- Makes the first of some directories, each of which lies in the next one: those that are missing
are made from the last on. The file system is the one that results, also when a directory cannot be
made. -/
def makeNested (files : FileSystem) : List FilePath → Except DeviceError Unit × FileSystem
  | [] => (.ok (), files)
  | path :: above =>
      match files.makeDirectory path with
      | .ok files => (.ok (), files)
      | .error .notFound =>
          match files.makeNested above with
          | (.error e, files) => (.error e, files)
          | (.ok (), files) =>
              match files.makeDirectory path with
              | .ok files => (.ok (), files)
              | .error e => (if files.hasDirectory path then .ok () else .error e, files)
      | .error e => (if files.hasDirectory path then .ok () else .error e, files)

/-- Makes a directory and those above it that are missing. A path that ends in a point names no
directory to be made. -/
def makeDirectories (files : FileSystem) (path : FilePath) :
    Except DeviceError Unit × FileSystem :=
  files.makeNested path.ancestors

/-- Moves a file, over any file that stands where it goes. -/
def rename (files : FileSystem) (source target : FilePath) : Except DeviceError FileSystem := do
  match ← files.locate source, ← files.locate target with
  | .name sourcePlace sourceName, .name place name =>
      match files.entry? (sourcePlace ++ [sourceName]) with
      | none => throw .notFound
      | some entry =>
          if target.endsInSlash then throw .notADirectory
          match files.entry? (place ++ [name]) with
          | some .directory => throw .isADirectory
          | _ => return (files.erase (sourcePlace ++ [sourceName])).put (place ++ [name]) entry
  | _, _ => throw .busy

/-- The file system without a file. Nothing changes if there is none. -/
def remove (files : FileSystem) (path : FilePath) : FileSystem :=
  match files.locate path with
  | .ok (.name place name) =>
      match files.entry? (place ++ [name]) with
      | some (.file _) => files.erase (place ++ [name])
      | _ => files
  | _ => files

/-- The paths of everything below the working directory, relative to it. Those of directories end in
a slash. -/
def listing (files : FileSystem) : List String :=
  let depth := files.workingDirectory.length
  files.entries.filterMap fun (place, entry) =>
    if files.workingDirectory.isPrefixOf place && decide (depth < place.length) then
      let path := "/".intercalate (place.drop depth)
      some (match entry with
        | .file _ => path
        | .directory => path ++ "/")
    else none

end FileSystem

end LogicTree
