import WebVTT.Source.Basic

/-!
# Sources with a record

What a reader makes of a source depends on the events it yields alone, so a source may be replaced by
any other that yields the same (`Source.Bisimulation`). One that does and also keeps all events that
were pulled from it is `Recorded`: it tells, of any run of a reader, what the run has pulled.
-/

namespace WebVTT

/-- Related sources yield the same event when pulled, and are related afterwards. -/
def Source.Bisimulation {σ τ : Type} [Source σ] [Source τ] (B : σ → τ → Prop) : Prop :=
  ∀ a b, B a b → (next a).1 = (next b).1 ∧ B (next a).2 (next b).2

/-- A source, and all events that were pulled from it, the oldest first. -/
structure Recorded (σ : Type) where
  /-- The source as it is now. -/
  source : σ
  /-- What it has yielded. -/
  pulled : List Event := []

namespace Recorded

variable {σ : Type}

/-- Start to record a source. -/
def ofSource (source : σ) : Recorded σ := { source }

variable [Source σ]

/-- Pull from the source, and keep the event. -/
def next (s : Recorded σ) : Event × Recorded σ :=
  ((Source.next s.source).1,
    ⟨(Source.next s.source).2, s.pulled ++ [(Source.next s.source).1]⟩)

instance : Source (Recorded σ) where
  next := next
  size s := Source.size s.source
  size_next_le s := Source.size_next_le s.source

theorem pulled_next (s : Recorded σ) :
    (Source.next s).2.pulled = s.pulled ++ [(Source.next s).1] := rfl

/-- Keeping the events changes none of them. -/
theorem bisimulation : Source.Bisimulation fun (s : Recorded σ) (t : σ) ↦ s.source = t := by
  rintro s _ rfl
  exact ⟨rfl, rfl⟩

end Recorded

end WebVTT
