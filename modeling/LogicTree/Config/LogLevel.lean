import LogicTree.Text.Numeral

/-! # Log levels

A message is shown if it is at least as severe as the level that is set.
-/

namespace LogicTree

/-- How severe a message is, from the most severe level on. -/
inductive LogLevel where
  | error
  | warn
  | info
  | debug
  | trace
  deriving DecidableEq

namespace LogLevel

/-- Rank of a level, from one for the most severe. -/
def rank : LogLevel → Nat
  | .error => 1
  | .warn => 2
  | .info => 3
  | .debug => 4
  | .trace => 5

/-- Name of a level. -/
def name : LogLevel → String
  | .error => "ERROR"
  | .warn => "WARN"
  | .info => "INFO"
  | .debug => "DEBUG"
  | .trace => "TRACE"

/-- All levels. -/
def all : List LogLevel := [.error, .warn, .info, .debug, .trace]

/-- Whether messages of a level are shown when another is set. -/
def shownAt (message setting : LogLevel) : Bool :=
  decide (message.rank ≤ setting.rank)

/-- The level that a text names: by its name, in capitals or small letters, or by its rank. -/
def ofText? (text : String) : Option LogLevel :=
  all.find? fun level =>
    text.toList.map Char.toUpper == level.name.toList
      || Text.natural? text.toList == some level.rank

end LogLevel

end LogicTree
