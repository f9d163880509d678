import LogicTree.Error
import LogicTree.Text.Numeral

/-! # Paths

A path names one branch a level, from the first level on, by id. Its label is the ids in decimal,
joined by underscores.
-/

namespace LogicTree

/-- Branch ids in level order. -/
structure Path where
  ids : List UInt32
  deriving DecidableEq, Inhabited

namespace Path

/-- The path that makes no decision. -/
def empty : Path := ⟨[]⟩

/-- The path with one decision more. -/
def push (path : Path) (id : UInt32) : Path := ⟨path.ids ++ [id]⟩

/-- The first `n` decisions, or all if there are fewer. -/
def take (path : Path) (n : Nat) : Path := ⟨path.ids.take n⟩

/-- The last decision. -/
def last? (path : Path) : Option UInt32 := path.ids.getLast?

/-- Number of decisions. -/
def length (path : Path) : Nat := path.ids.length

/-- Lexicographic order of id lists: a path comes before those that continue it. -/
def compareIds : List UInt32 → List UInt32 → Ordering
  | [], [] => .eq
  | [], _ :: _ => .lt
  | _ :: _, [] => .gt
  | a :: as, b :: bs => (compare a b).then (compareIds as bs)

instance : Ord Path := ⟨fun a b => compareIds a.ids b.ids⟩

/-- Label characters of a list of ids. -/
def labelChars : List UInt32 → List Char
  | [] => []
  | [id] => Nat.toDigits 10 id.toNat
  | id :: rest => Nat.toDigits 10 id.toNat ++ '_' :: labelChars rest

/-- The label of a path. -/
def label (path : Path) : String := String.ofList (labelChars path.ids)

/-- Splits text at every underscore. There is always at least one piece. -/
def segments : List Char → List (List Char)
  | [] => [[]]
  | c :: rest =>
      if c = '_' then [] :: segments rest
      else match segments rest with
        | [] => [[c]]
        | first :: others => (c :: first) :: others

/-- The id that a segment spells, or why the label is refused. -/
def readSegment (label : String) (segment : List Char) : Except Error UInt32 :=
  match Text.natural? segment with
  | none => .error (notAnId segment)
  | some n =>
      if n = 0 then .error (.malformedLabel ("'" ++ label ++ "': branch ids start at 1"))
      else if n < 4294967296 then .ok n.toUInt32
      else .error (notAnId segment)
where
  /-- The complaint about a segment that is no 32-bit number. -/
  notAnId (segment : List Char) : Error :=
    .malformedLabel
      ("'" ++ label ++ "': segment '" ++ String.ofList segment ++ "' is not a branch id")

/-- Reads the segments in order, and stops at the first that is refused. -/
def readSegments (label : String) : List (List Char) → Except Error (List UInt32)
  | [] => .ok []
  | segment :: rest => do
      let id ← readSegment label segment
      let ids ← readSegments label rest
      return id :: ids

/-- Reads a label. Every segment is an id from one on; there is at least one. -/
def ofLabel (label : String) : Except Error Path :=
  if label.isEmpty then .error (.malformedLabel "empty label")
  else (readSegments label (segments label.toList)).map Path.mk

end Path

end LogicTree
