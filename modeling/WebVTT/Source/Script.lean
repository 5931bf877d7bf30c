import WebVTT.Source.Basic

/-!
# Prescribed events

A `Script` yields a list of events, one a pull, and the end for ever after. It shows how a reader
fares with any mixture of bytes, ends and failures.
-/

namespace WebVTT

/-- A source that plays a list of events. -/
structure Script where
  /-- The events not played yet. -/
  pending : List Event
deriving DecidableEq, Repr

namespace Script

/-- The next event of the list, or the end once the list is empty. -/
def next : Script → Event × Script
  | ⟨[]⟩ => (.ended, ⟨[]⟩)
  | ⟨e :: rest⟩ => (e, ⟨rest⟩)

instance : Source Script where
  next := next
  size s := Event.totalWeight s.pending
  size_next_le s := by
    obtain ⟨_ | ⟨e, rest⟩⟩ := s
    · exact Nat.le_refl _
    · simp [next, Nat.add_comm]

end Script

end WebVTT
