import WebVTT.Source.Basic

/-!
# Trying again after an interruption

A `Retrying` source stands for a device that is read one byte at a time: a read gives a byte, says
that there is none, or fails. A read that was merely interrupted is made again at once, so whoever
pulls from the source never sees an interruption.
-/

namespace WebVTT

/-- A device whose reads come out as listed, and then find no byte for ever. -/
structure Retrying where
  /-- What the reads not made yet will find. -/
  reads : List Event
deriving DecidableEq, Repr

namespace Retrying

/-- The outcome of the first of these reads that is not interrupted, and the reads after it. -/
def firstSettled : List Event → Event × List Event
  | [] => (.ended, [])
  | e :: rest => if e.isInterruption then firstSettled rest else (e, rest)

/-- Read until a read is not interrupted. -/
def next (s : Retrying) : Event × Retrying :=
  let (event, rest) := firstSettled s.reads
  (event, ⟨rest⟩)

/-- What a read takes away from the reads to come is at least what it delivers. -/
theorem weight_firstSettled_le (reads : List Event) :
    Event.totalWeight (firstSettled reads).2 + (firstSettled reads).1.weight ≤
      Event.totalWeight reads := by
  induction reads with
  | nil => exact Nat.le_refl _
  | cons e rest ih =>
      rw [firstSettled]
      split
      · rw [Event.totalWeight_cons]
        omega
      · simp [Nat.add_comm]

instance : Source Retrying where
  next := next
  size s := Event.totalWeight s.reads
  size_next_le s := weight_firstSettled_le s.reads

end Retrying

end WebVTT
