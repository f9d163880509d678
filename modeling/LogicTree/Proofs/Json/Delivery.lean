import LogicTree.Json.Delivery
import LogicTree.Proofs.Sinks

/-! # A document given to a sink is the document printed

A value that is walked and given to a sink token by token leaves the sink as giving it the printed
text at once would, wherever the sink fails. The walk looks at every item whether it is the first,
the printer has the first one apart; so arrays and objects are compared by their first item.
-/

namespace LogicTree.Json

open Delivery

theorem delivers_deliverBytes (plain bytes : Bytes) :
    Delivers (deliverBytes plain bytes) (plain.reverse ++ bytes.flatMap escapeByte) := by
  induction bytes generalizing plain with
  | nil =>
      rw [List.flatMap_nil, List.append_nil]
      exact delivers_give plain.reverse
  | cons byte bytes ih =>
      rw [deliverBytes, List.flatMap_cons]
      by_cases kept : escapeByte byte = [byte]
      · have collected := ih (byte :: plain)
        rw [List.reverse_cons, List.append_assoc] at collected
        rw [if_pos kept, kept]
        exact collected
      · rw [if_neg kept]
        have escaped := (delivers_give (escapeByte byte)).andThen (ih [])
        exact (delivers_give plain.reverse).andThen escaped

theorem delivers_deliverString (s : String) : Delivers (deliverString s) (printString s) := by
  have body := delivers_deliverBytes [] (Bytes.ofString s)
  exact (delivers_give [0x22]).andThen (body.andThen (delivers_give [0x22]))

variable (spread : Spread)

theorem printAt_array_cons (depth : Nat) (item : Json) (items : List Json) :
    printAt spread depth (.array (item :: items)) =
      0x5b :: ((spread.leading (depth + 1) true ++ (printAt spread (depth + 1) item ++
        printItems spread (depth + 1) items)) ++ (spread.trailing depth false ++ [0x5d])) := by
  simp [printAt, Spread.leading, Spread.trailing]

theorem printAt_object_cons (depth : Nat) (key : String) (value : Json)
    (members : List (String × Json)) :
    printAt spread depth (.object ((key, value) :: members)) =
      0x7b :: ((spread.leading (depth + 1) true ++ (printString key ++ (spread.afterKey ++
        (printAt spread (depth + 1) value ++ printMembers spread (depth + 1) members)))) ++
          (spread.trailing depth false ++ [0x7d])) := by
  simp [printAt, Spread.leading, Spread.trailing]

theorem delivers_bracketed {work : Delivery Unit} {text : Bytes} (opening closing : UInt8)
    (depth : Nat) (none : Bool) (inside : Delivers work text) :
    Delivers (do
      give [opening]
      work
      give (spread.trailing depth none)
      give [closing])
    (opening :: (text ++ (spread.trailing depth none ++ [closing]))) := by
  have ending := (delivers_give (spread.trailing depth none)).andThen (delivers_give [closing])
  exact (delivers_give [opening]).andThen (inside.andThen ending)

mutual

theorem delivers_deliverAt (depth : Nat) (value : Json) :
    Delivers (deliverAt spread depth value) (printAt spread depth value) := by
  cases value with
  | null | bool | number => exact delivers_give _
  | string value => exact delivers_deliverString value
  | array items =>
      cases items with
      | nil => exact delivers_bracketed spread 0x5b 0x5d depth true delivers_pure
      | cons item items =>
          have inside := (delivers_give (spread.leading (depth + 1) true)).andThen
            ((delivers_deliverAt (depth + 1) item).andThen
              (delivers_deliverItems (depth + 1) items))
          rw [printAt_array_cons]
          exact delivers_bracketed spread 0x5b 0x5d depth false inside
  | object members =>
      cases members with
      | nil => exact delivers_bracketed spread 0x7b 0x7d depth true delivers_pure
      | cons member members =>
          obtain ⟨key, value⟩ := member
          have inside := (delivers_give (spread.leading (depth + 1) true)).andThen
            ((delivers_deliverString key).andThen ((delivers_give spread.afterKey).andThen
              ((delivers_deliverAt (depth + 1) value).andThen
                (delivers_deliverMembers (depth + 1) members))))
          rw [printAt_object_cons]
          exact delivers_bracketed spread 0x7b 0x7d depth false inside
termination_by sizeOf value

theorem delivers_deliverItems (depth : Nat) (items : List Json) :
    Delivers (deliverItems spread depth false items) (printItems spread depth items) := by
  cases items with
  | nil => exact delivers_pure
  | cons item items =>
      have whole := (delivers_give (spread.leading depth false)).andThen
        ((delivers_deliverAt depth item).andThen (delivers_deliverItems depth items))
      simp only [printItems, List.append_assoc]
      exact whole
termination_by sizeOf items

theorem delivers_deliverMembers (depth : Nat) (members : List (String × Json)) :
    Delivers (deliverMembers spread depth false members)
      (printMembers spread depth members) := by
  cases members with
  | nil => exact delivers_pure
  | cons member members =>
      obtain ⟨key, value⟩ := member
      have whole := (delivers_give (spread.leading depth false)).andThen
        ((delivers_deliverString key).andThen ((delivers_give spread.afterKey).andThen
          ((delivers_deliverAt depth value).andThen (delivers_deliverMembers depth members))))
      simp only [printMembers, List.append_assoc]
      exact whole
termination_by sizeOf members

end

end LogicTree.Json
