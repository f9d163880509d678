/-! # Sources of uniform draws

A source hands out draws one after the other; what is left is again a source. `Replay` repeats a
list of draws. `Counted` keeps count of the draws taken from another source.
-/

namespace LogicTree

/-- A type of sources of draws, meant to lie from zero to below one. -/
class UniformSource (σ : Type) where
  /-- The next draw, and the source after it. -/
  next : σ → Float × σ

/-- Repeats a list of draws that is not empty, over and over. -/
structure Replay where
  first : Float
  others : List Float
  /-- What is left of the present round. -/
  pending : List Float

namespace Replay

/-- The source that starts with the first draw of the list. -/
def start (first : Float) (others : List Float) : Replay := ⟨first, others, first :: others⟩

instance : UniformSource Replay where
  next replay := match replay.pending with
    | draw :: rest => (draw, { replay with pending := rest })
    | [] => (replay.first, { replay with pending := replay.others })

end Replay

/-- A source with the number of draws taken from it. -/
structure Counted (σ : Type) where
  source : σ
  taken : Nat := 0

namespace Counted

instance {σ : Type} [UniformSource σ] : UniformSource (Counted σ) where
  next counted :=
    let (draw, rest) := UniformSource.next counted.source
    (draw, ⟨rest, counted.taken + 1⟩)

end Counted

instance {σ τ : Type} [UniformSource σ] [UniformSource τ] : UniformSource (σ ⊕ τ) where
  next
    | .inl source => let (draw, rest) := UniformSource.next source; (draw, .inl rest)
    | .inr source => let (draw, rest) := UniformSource.next source; (draw, .inr rest)

end LogicTree
