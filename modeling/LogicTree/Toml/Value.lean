/-! # Settings documents

A settings document is a table of named values, in tables of their own where that helps. It is built
statement by statement: headers open tables, and dotted keys make them on the way. A table can be
opened once, and what a dotted key or an inline table has made cannot be added to by a header.
-/

namespace LogicTree.Toml

/-- A value of a settings document. -/
inductive Value where
  | text (value : String)
  | integer (value : Int)
  | real (value : Float)
  | bool (value : Bool)
  /-- A date, a time or both. -/
  | moment
  | array (items : List Value)
  | table (entries : List (String × Value))

/-- How a table of a document came to be. -/
inductive Origin where
  /-- On the way to a table that a header opens. -/
  | passed
  /-- By a header of its own. -/
  | opened
  /-- By a dotted key. -/
  | dotted
  deriving DecidableEq

/-- What a key of an unfinished document stands for. -/
inductive Item where
  | value (value : Value)
  | table (origin : Origin) (entries : List (String × Item))
  /-- Tables that headers in double brackets open one after the other, the latest first. -/
  | tables (latest : List (String × Item)) (others : List (List (String × Item)))

/-- The entries of an unfinished table. -/
abbrev Entries := List (String × Item)

/-- Changes what a key stands for, which may be nothing yet. -/
def Entries.change (key : String) (f : Option Item → Option Item) : Entries → Option Entries
  | [] => (f none).map fun item => [(key, item)]
  | (other, item) :: entries =>
      if other = key then (f (some item)).map fun item => (other, item) :: entries
      else (Entries.change key f entries).map ((other, item) :: ·)

/-- Changes the table at the end of a path of keys, and makes the tables on the way that are not
there. The change is told how its table came to be. A dotted path goes through no table that a
header opened. -/
def Entries.descend (dotted : Bool) (f : Origin → Entries → Option Entries) :
    Origin → List String → Entries → Option Entries
  | origin, [], entries => f origin entries
  | _, key :: keys, entries =>
      entries.change key fun
        | none =>
            let origin := if dotted then .dotted else .passed
            (Entries.descend dotted f origin keys []).map (.table origin)
        | some (.value _) => none
        | some (.table origin entries) =>
            if dotted && origin == .opened then none
            else (Entries.descend dotted f origin keys entries).map (.table origin)
        | some (.tables latest others) =>
            (Entries.descend dotted f .opened keys latest).map fun latest => .tables latest others

/-- Opens the table of a header. -/
def Entries.openTable (path : List String) (root : Entries) : Option Entries :=
  match path.getLast? with
  | none => none
  | some key =>
      Entries.descend false (fun _ entries => entries.change key fun
        | none => some (.table .opened [])
        | some (.table .passed entries) => some (.table .opened entries)
        | some _ => none) .opened path.dropLast root

/-- Opens the next table of a header in double brackets. -/
def Entries.openNext (path : List String) (root : Entries) : Option Entries :=
  match path.getLast? with
  | none => none
  | some key =>
      Entries.descend false (fun _ entries => entries.change key fun
        | none => some (.tables [] [])
        | some (.tables latest others) => some (.tables [] (latest :: others))
        | some _ => none) .opened path.dropLast root

/-- Gives a value to a key of a table. Only a dotted key gives one to a table that dotted keys
made, and it gives none to any other table. -/
def Entries.assign (path : List String) (value : Value) (table : Entries) : Option Entries :=
  match path.getLast? with
  | none => none
  | some key =>
      let way := path.dropLast
      Entries.descend true (fun origin entries =>
        if (origin == .dotted) == way.isEmpty then none
        else entries.change key fun
          | none => some (.value value)
          | some _ => none) .opened way table

/-- Gives a value to a key of the table that the latest header opened. -/
def Entries.assignIn (header : List String) (path : List String) (value : Value) (root : Entries) :
    Option Entries :=
  Entries.descend false (fun _ entries => entries.assign path value) .opened header root

mutual

/-- The finished value of an item. -/
def Item.toValue : Item → Value
  | .value value => value
  | .table _ entries => .table (finishEntries entries)
  | .tables latest others => .array (finishTables others [.table (finishEntries latest)])

/-- The finished entries of a table. -/
def finishEntries : List (String × Item) → List (String × Value)
  | [] => []
  | (key, item) :: entries => (key, item.toValue) :: finishEntries entries

/-- Puts finished tables, given from the latest on, before others. -/
def finishTables : List (List (String × Item)) → List Value → List Value
  | [], values => values
  | entries :: others, values => finishTables others (.table (finishEntries entries) :: values)

end

end LogicTree.Toml
