import LogicTree.Json.Printer
import LogicTree.Sink

/-! # Giving JSON to a sink

A document need not be made before it is written. A value can be given to a sink while it is walked,
token by token, with the breaks between them; then a sink that fails ends the walk where it stands.
-/

namespace LogicTree.Json

open Delivery

/-- Gives the bytes of a string as they stand between the quotes. Bytes that need no escape are
collected, the last one first, and given together when an escape or the end comes. -/
def deliverBytes : Bytes → Bytes → Delivery Unit
  | plain, [] => give plain.reverse
  | plain, byte :: bytes =>
      if escapeByte byte = [byte] then deliverBytes (byte :: plain) bytes
      else do
        give plain.reverse
        give (escapeByte byte)
        deliverBytes [] bytes

/-- Gives a string in quotes. -/
def deliverString (s : String) : Delivery Unit := do
  give [0x22]
  deliverBytes [] (Bytes.ofString s)
  give [0x22]

/-- What stands before an item or a member: a comma unless it is the first one, and the line
break. -/
def Spread.leading (depth : Nat) (first : Bool) (spread : Spread) : Bytes :=
  (if first then [] else [0x2c]) ++ spread.lineBreak depth

/-- What stands after the last item or member, if there is one. -/
def Spread.trailing (depth : Nat) (none : Bool) (spread : Spread) : Bytes :=
  if none then [] else spread.lineBreak depth

mutual

/-- Gives a value that starts at a depth. -/
def deliverAt (spread : Spread) (depth : Nat) : Json → Delivery Unit
  | .string value => deliverString value
  | .array items => do
      give [0x5b]
      deliverItems spread (depth + 1) true items
      give (spread.trailing depth items.isEmpty)
      give [0x5d]
  | .object members => do
      give [0x7b]
      deliverMembers spread (depth + 1) true members
      give (spread.trailing depth members.isEmpty)
      give [0x7d]
  | word => give (word.printAt spread depth)

/-- Gives items, of which the first one may be the first of its array. -/
def deliverItems (spread : Spread) (depth : Nat) : Bool → List Json → Delivery Unit
  | _, [] => return ()
  | first, item :: items => do
      give (spread.leading depth first)
      deliverAt spread depth item
      deliverItems spread depth false items

/-- Gives members, of which the first one may be the first of its object. -/
def deliverMembers (spread : Spread) (depth : Nat) : Bool → List (String × Json) → Delivery Unit
  | _, [] => return ()
  | first, (key, value) :: members => do
      give (spread.leading depth first)
      deliverString key
      give spread.afterKey
      deliverAt spread depth value
      deliverMembers spread depth false members

end

/-- Gives the text of a value. -/
def deliver (spread : Spread) (value : Json) : Delivery Unit :=
  value.deliverAt spread 0

end LogicTree.Json
