import WebVTT.Source.Basic

/-!
# Sources in other hands

A source can be read from by somebody who does not own it, or who keeps it in a box. Every pull is
passed on to the source itself, and whoever has it back finds it as the pulls have left it.
-/

namespace WebVTT

/-- A source that is read from by way of a reference to it or of the box it is in. -/
structure Held (σ : Type) where
  /-- The source itself. -/
  source : σ
deriving DecidableEq, Repr

namespace Held

variable {σ : Type} [Source σ]

/-- Pull from the source itself. -/
def next (s : Held σ) : Event × Held σ :=
  let (event, source) := Source.next s.source
  (event, ⟨source⟩)

instance : Source (Held σ) where
  next := next
  size s := Source.size s.source
  size_next_le s := Source.size_next_le s.source

end Held

end WebVTT
