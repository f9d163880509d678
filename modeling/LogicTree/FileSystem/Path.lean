/-! # File paths

A path is the names between its slashes. Single points among them change nothing; a final slash asks
for a directory.
-/

namespace LogicTree

/-- A path of a file or directory. -/
structure FilePath where
  absolute : Bool
  /-- The names between the slashes, single and double points among them. -/
  names : List String
  /-- Whether the path ends in a slash. -/
  endsInSlash : Bool
  deriving DecidableEq

namespace FilePath

/-- Splits text at every slash. There is always at least one piece. -/
def pieces : List Char → List (List Char)
  | [] => [[]]
  | c :: rest =>
      if c = '/' then [] :: pieces rest
      else match pieces rest with
        | [] => [[c]]
        | first :: others => (c :: first) :: others

/-- The path that a text spells. -/
def ofString (text : String) : FilePath where
  absolute := text.toList.head? == some '/'
  names := ((pieces text.toList).filter fun piece => !piece.isEmpty).map String.ofList
  endsInSlash := text.toList.getLast? == some '/'

/-- The path of a list of names. -/
def ofNames (absolute : Bool) (names : List String) : FilePath := ⟨absolute, names, false⟩

/-- Whether the path has no name at all and does not start at the root. -/
def isEmpty (path : FilePath) : Bool := path.names.isEmpty && !path.absolute

/-- The names without single points. -/
def steps (path : FilePath) : List String := path.names.filter fun name => name != "."

/-- The last name, unless that leads upwards. -/
def fileName? (path : FilePath) : Option String :=
  path.steps.getLast?.filter fun name => name != ".."

/-- The path without its last name. -/
def parent (path : FilePath) : FilePath := ofNames path.absolute path.steps.dropLast

/-- The paths of some names that are given from the last on, and of fewer and fewer of them. -/
def prefixes (absolute : Bool) : List String → List FilePath
  | [] => []
  | name :: before => ofNames absolute (name :: before).reverse :: prefixes absolute before

/-- The path as it stands, and after it those of the directories that it leads through, from the
innermost on. -/
def ancestors (path : FilePath) : List FilePath :=
  if path.isEmpty then [] else path :: prefixes path.absolute path.steps.dropLast.reverse

/-- The name without its last extension. A name that starts with its only point has none. -/
def stem (name : String) : String :=
  match name.toList.reverse.dropWhile fun c => c != '.' with
  | [] | [_] => name
  | _ :: before => String.ofList before.reverse

/-- The path of a file beside this one: its name with a suffix. Without a name to put it behind, the
suffix is itself the name of a file below this path. -/
def besideWithSuffix (path : FilePath) (suffix : String) : FilePath :=
  match path.fileName? with
  | some name => ofNames path.absolute (path.steps.dropLast ++ [name ++ suffix])
  | none => ofNames path.absolute (path.names ++ [suffix])

/-- The path with another extension. A path without a name is left as it is. -/
def withExtension (path : FilePath) (extension : String) : FilePath :=
  match path.fileName? with
  | some name => ofNames path.absolute (path.steps.dropLast ++ [stem name ++ "." ++ extension])
  | none => path

end FilePath

end LogicTree
