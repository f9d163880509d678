import LogicTree.Text.Bytes

/-! # Sinks

A sink takes bytes, possibly up to a limit. When it is given more than it can take, it keeps what
fits and fails.
-/

namespace LogicTree

/-- A receiver of bytes. -/
structure Sink where
  /-- The bytes received. -/
  written : Bytes := []
  /-- How many bytes it takes in all, if there is a limit. -/
  limit : Option Nat := none

namespace Sink

/-- The reason that a full sink gives. -/
def full : String := "sink full"

/-- Gives bytes to a sink. -/
def write (sink : Sink) (bytes : Bytes) : Except String Unit × Sink :=
  match sink.limit with
  | none => (.ok (), { sink with written := sink.written ++ bytes })
  | some limit =>
      let room := limit - sink.written.length
      if bytes.length ≤ room then (.ok (), { sink with written := sink.written ++ bytes })
      else (.error full, { sink with written := sink.written ++ bytes.take room })

/-- Gives one piece after the other to a sink, until it fails. -/
def writeAll (sink : Sink) : List Bytes → Except String Unit × Sink
  | [] => (.ok (), sink)
  | piece :: pieces =>
      match sink.write piece with
      | (.ok (), sink) => sink.writeAll pieces
      | failed => failed

end Sink

/-- Work that gives bytes to a sink. It ends where the sink fails, for the reason that the sink
gives. -/
abbrev Delivery (α : Type) := ExceptT String (StateM Sink) α

namespace Delivery

/-- Gives a piece to the sink. -/
def give (piece : Bytes) : Delivery Unit :=
  ExceptT.mk (modifyGet fun sink => sink.write piece)

/-- What work leaves of a sink, with its value or the reason of the sink. -/
def into {α : Type} (work : Delivery α) (sink : Sink) : Except String α × Sink :=
  (StateT.run (ExceptT.run work) sink).run

end Delivery

end LogicTree
