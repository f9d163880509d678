import Mathlib.Data.List.Basic
import LogicTree.Sink

/-! # What a sink receives

It makes no difference to a sink whether it is given bytes at once or in pieces, one after the other
for as long as it takes them: it has the same bytes in the end, and it fails or not as it would.
-/

namespace LogicTree

namespace Sink

theorem write_nil (sink : Sink) : sink.write [] = (.ok (), sink) := by
  obtain ⟨written, limit⟩ := sink
  cases limit <;> simp [write]

theorem write_append (sink : Sink) (first second : Bytes) :
    sink.write (first ++ second) =
      match sink.write first with
      | (.ok (), sink) => sink.write second
      | failed => failed := by
  obtain ⟨written, limit⟩ := sink
  cases limit with
  | none => simp [write]
  | some limit =>
      have sum : (first ++ second).length = first.length + second.length := List.length_append
      have left : limit - (written ++ first).length = limit - written.length - first.length := by
        rw [List.length_append]
        omega
      by_cases fits : first.length ≤ limit - written.length
      · simp only [write, fits, if_true, left]
        by_cases rest : second.length ≤ limit - written.length - first.length
        · have both : (first ++ second).length ≤ limit - written.length := by omega
          simp only [both, rest, if_true, List.append_assoc]
        · have both : ¬ (first ++ second).length ≤ limit - written.length := by omega
          simp only [both, rest, if_false, List.take_append, List.take_of_length_le fits,
            List.append_assoc]
      · have both : ¬ (first ++ second).length ≤ limit - written.length := by omega
        have short : limit - written.length ≤ first.length := by omega
        simp only [write, fits, both, if_false, List.take_append_of_le_length short]

/-- It makes no difference where the pieces of a text are cut. -/
theorem writeAll_eq_write_flatten (sink : Sink) (pieces : List Bytes) :
    sink.writeAll pieces = sink.write pieces.flatten := by
  induction pieces generalizing sink with
  | nil => exact (write_nil sink).symm
  | cons piece pieces ih =>
      rw [writeAll, List.flatten_cons, write_append]
      rcases sink.write piece with ⟨_ | _, after⟩
      · rfl
      · exact ih after

/-- The sink that has taken some bytes and takes so many more. -/
def withRoom (taken : Bytes) (room : Nat) : Sink :=
  { written := taken, limit := some (taken.length + room) }

theorem write_withRoom (taken : Bytes) (room : Nat) (bytes : Bytes) :
    (withRoom taken room).write bytes =
      (if bytes.length ≤ room then .ok () else .error full,
        { withRoom taken room with written := taken ++ bytes.take room }) := by
  have left : taken.length + room - taken.length = room := Nat.add_sub_cancel_left ..
  by_cases fits : bytes.length ≤ room
  · simp [withRoom, write, left, fits, List.take_of_length_le fits]
  · simp [withRoom, write, left, fits]

end Sink

namespace Delivery

variable {α β : Type}

theorem into_bind (work : Delivery α) (rest : α → Delivery β) (sink : Sink) :
    (work >>= rest).into sink = match work.into sink with
      | (.ok value, sink) => (rest value).into sink
      | (.error reason, sink) => (.error reason, sink) := by
  simp only [into, ExceptT.run_bind, StateT.run_bind, Id.run_bind]
  rcases (StateT.run (ExceptT.run work) sink).run with ⟨_ | value, sink⟩ <;> rfl

/-- The bytes that work gives: it leaves every sink as giving them at once would. -/
def Delivers (work : Delivery Unit) (bytes : Bytes) : Prop :=
  ∀ sink : Sink, work.into sink = sink.write bytes

variable {work next : Delivery Unit} {bytes more : Bytes}

theorem delivers_give (piece : Bytes) : Delivers (give piece) piece :=
  fun _ => rfl

theorem delivers_pure : Delivers (pure ()) [] :=
  fun sink => (Sink.write_nil sink).symm

theorem Delivers.andThen (first : Delivers work bytes) (second : Delivers next more) :
    Delivers (work >>= fun _ => next) (bytes ++ more) := by
  intro sink
  rw [into_bind, first sink, Sink.write_append]
  obtain ⟨_ | _, after⟩ := sink.write bytes
  · rfl
  · exact second after

end Delivery

end LogicTree
