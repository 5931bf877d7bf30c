import WebVTT.LineStream.Line

/-!
# An account of events

`tally` goes through events one by one and counts the line terminators among them, the lines without
one where the stream ends, and the carriage returns right after which the source fails. To do so it
keeps how many bytes of a line have come, of which a line that is too long keeps none, and whether a
carriage return came last.
-/

namespace WebVTT

open LineStream (lineFeed carriageReturn)

/-- What has been counted of some events. -/
structure Tally where
  /-- The terminators: line feeds, carriage returns, and either right after the other as one. -/
  terminators : Nat := 0
  /-- The lines that are not empty and have no terminator, each where the stream ends. -/
  unended : Nat := 0
  /-- The carriage returns right after which the source failed. -/
  interrupted : Nat := 0
  /-- The bytes of the line that has begun. -/
  held : Nat := 0
  /-- Whether a carriage return came last. -/
  afterReturn : Bool := false
deriving DecidableEq, Repr

namespace Tally

/-- Count one event more, where lines may have so many bytes. -/
def count (limit : Nat) (t : Tally) : Event → Tally
  | .byte b =>
    if b = lineFeed then
      { t with terminators := t.terminators + if t.afterReturn then 0 else 1, held := 0,
               afterReturn := false }
    else if b = carriageReturn then
      { t with terminators := t.terminators + 1, held := 0, afterReturn := true }
    else
      { t with held := if t.held < limit then t.held + 1 else 0, afterReturn := false }
  | .ended =>
    { t with unended := t.unended + if t.held = 0 then 0 else 1, held := 0, afterReturn := false }
  | .failed _ =>
    { t with interrupted := t.interrupted + if t.afterReturn then 1 else 0, held := 0,
             afterReturn := false }

/-- The account comes to so many lines, and so many bytes of one more. After a carriage return, a
byte that is no line feed is at hand. -/
structure ComesTo (t : Tally) (lines held : Nat) (returned : Option UInt8) : Prop where
  lines_eq : lines + t.interrupted = t.terminators + t.unended
  held_eq : t.held = held
  next_ne : t.afterReturn → ∃ b, returned = some b ∧ b ≠ lineFeed

namespace ComesTo

variable {t : Tally} {limit lines held : Nat} {returned : Option UInt8} {b : UInt8}

theorem zero : ComesTo {} 0 0 returned := ⟨rfl, rfl, nofun⟩

/-- No carriage return came last where nothing or a line feed is at hand. -/
theorem afterReturn_eq (h : t.ComesTo lines held returned) (hnext : ∀ b ∈ returned, b = lineFeed) :
    t.afterReturn = false := by
  cases hreturn : t.afterReturn with
  | false => rfl
  | true =>
    obtain ⟨b, hb, hne⟩ := h.next_ne hreturn
    exact absurd (hnext b hb) hne

/-- The end of the stream ends the line that has begun. -/
theorem of_ended (h : t.ComesTo lines held returned) :
    (t.count limit .ended).ComesTo (lines + if held = 0 then 0 else 1) 0 none := by
  refine ⟨?_, rfl, nofun⟩
  have hlines := h.lines_eq
  simp only [count, h.held_eq]
  omega

/-- A failure makes nothing of the line that has begun. -/
theorem of_failed {failure : Failure} (h : t.ComesTo lines held none) :
    (t.count limit (.failed failure)).ComesTo lines 0 none := by
  refine ⟨?_, rfl, nofun⟩
  simpa [count, h.afterReturn_eq nofun] using h.lines_eq

/-- A line feed ends a line, as no carriage return came before it. -/
theorem of_lineFeed (h : t.ComesTo lines held returned) (hnext : ∀ b ∈ returned, b = lineFeed) :
    (t.count limit (.byte lineFeed)).ComesTo (lines + 1) 0 none := by
  refine ⟨?_, rfl, nofun⟩
  have hlines := h.lines_eq
  simp only [count, h.afterReturn_eq hnext]
  simp
  omega

/-- A byte that ends no line goes to the line that has begun, if there is room for it. -/
theorem of_content (limit : Nat) (h : t.ComesTo lines held returned)
    (hb : ¬(b = lineFeed ∨ b = carriageReturn)) :
    (t.count limit (.byte b)).ComesTo lines (if held < limit then held + 1 else 0) none := by
  obtain ⟨hlf, hcr⟩ := not_or.mp hb
  simp only [count, hlf, hcr, if_false]
  exact ⟨h.lines_eq, by rw [h.held_eq], nofun⟩

/-! ### After a carriage return -/

/-- A carriage return ends a line, and another byte that comes next is left for later. -/
theorem of_return (h : t.ComesTo lines held returned) (hb : b ≠ lineFeed) :
    (t.count limit (.byte carriageReturn)).ComesTo (lines + 1) 0 (some b) := by
  refine ⟨?_, rfl, fun _ ↦ ⟨b, rfl, hb⟩⟩
  have hlines := h.lines_eq
  show lines + 1 + t.interrupted = t.terminators + 1 + t.unended
  omega

/-- A line feed after it belongs to it. -/
theorem of_return_lineFeed (h : t.ComesTo lines held returned) :
    ((t.count limit (.byte carriageReturn)).count limit (.byte lineFeed)).ComesTo (lines + 1) 0
      none := by
  refine ⟨?_, rfl, nofun⟩
  have hlines := h.lines_eq
  show lines + 1 + t.interrupted = t.terminators + 1 + t.unended
  omega

/-- So does the end of the stream. -/
theorem of_return_ended (h : t.ComesTo lines held returned) :
    ((t.count limit (.byte carriageReturn)).count limit .ended).ComesTo (lines + 1) 0 none := by
  refine ⟨?_, rfl, nofun⟩
  have hlines := h.lines_eq
  show lines + 1 + t.interrupted = t.terminators + 1 + t.unended
  omega

/-- A failure has the line not counted. -/
theorem of_return_failed {failure : Failure} (h : t.ComesTo lines held returned) :
    ((t.count limit (.byte carriageReturn)).count limit (.failed failure)).ComesTo lines 0 none := by
  refine ⟨?_, rfl, nofun⟩
  have hlines := h.lines_eq
  show lines + (t.interrupted + 1) = t.terminators + 1 + t.unended
  omega

end ComesTo

end Tally

/-- The account of all these events. -/
def tally (limit : Nat) (events : List Event) : Tally := events.foldl (Tally.count limit) {}

@[simp] theorem tally_nil (limit : Nat) : tally limit [] = {} := rfl

theorem tally_append_singleton (limit : Nat) (events : List Event) (e : Event) :
    tally limit (events ++ [e]) = (tally limit events).count limit e := by
  rw [tally, List.foldl_append]
  rfl

end WebVTT
