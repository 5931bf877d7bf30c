import WebVTT.Limits
import WebVTT.Notice
import WebVTT.Source.Basic

/-!
# Streams of lines

A `LineStream` is a source, room for one byte that was taken from it too early, and the number of
lines read so far. A step over it is a `Reading`, and an error leaves the stream where the error
struck, so reading can go on from there.

`unread` bounds the bytes a stream has left. Every byte taken lowers it, by one at least.
-/

namespace WebVTT

/-- A source that is read line by line. -/
structure LineStream (σ : Type) where
  /-- Where the bytes come from. -/
  source : σ
  /-- A byte taken from the source and handed back. -/
  returned : Option UInt8 := none
  /-- How many lines have been read. -/
  line : Nat := 0
  /-- The bounds on lines and cues. -/
  limits : Limits := {}
  /-- The notices left so far. -/
  notices : Array Notice := #[]

/-- A step over a stream of lines. -/
abbrev Reading (σ : Type) : Type → Type := EStateM Error (LineStream σ)

/-- Two steps come off only if the first does and then the second. -/
theorem Reading.ok_of_bind {σ α β : Type} {x : Reading σ α} {f : α → Reading σ β}
    {s u : LineStream σ} {b : β} (h : (x >>= f) s = .ok b u) :
    ∃ a t, x s = .ok a t ∧ f a t = .ok b u := by
  change EStateM.run (x >>= f) s = _ at h
  rw [EStateM.run_bind] at h
  split at h
  · exact ⟨_, _, ‹_›, h⟩
  · cases h

namespace LineStream

variable {σ : Type} [Source σ]

/-- An upper bound on the bytes not taken yet. -/
def unread (s : LineStream σ) : Nat := Source.size s.source + s.returned.toList.length

/-- The next byte, end or failure: a byte handed back comes first. -/
def next (s : LineStream σ) : Event × LineStream σ :=
  match s.returned with
  | some b => (.byte b, { s with returned := none })
  | none => ((Source.next s.source).1, { s with source := (Source.next s.source).2 })

/-- Look at the next byte, end or failure, and hand back a byte that is not the one expected. -/
def nextIf (expected : UInt8) (s : LineStream σ) : Event × LineStream σ :=
  match s.next with
  | (.byte b, t) => (.byte b, if b = expected then t else { t with returned := some b })
  | (event, t) => (event, t)

/-- Leave a notice. -/
def note (notice : Notice) (s : LineStream σ) : LineStream σ :=
  { s with notices := s.notices.push notice }

/-! ## Steps -/

/-- Take a byte; there is none at the end of the stream. -/
def takeByte : Reading σ (Option UInt8) := fun s ↦
  match s.next with
  | (.byte b, t) => .ok (some b) t
  | (.ended, t) => .ok none t
  | (.failed failure, t) => .error (.source failure) t

/-- Take a byte if it is the one expected, and tell whether it was; there is no telling at the end
of the stream. -/
def takeByteIf (expected : UInt8) : Reading σ (Option Bool) := fun s ↦
  match s.nextIf expected with
  | (.byte b, t) => .ok (some (b = expected)) t
  | (.ended, t) => .ok none t
  | (.failed failure, t) => .error (.source failure) t

/-- Refuse what was read. -/
def refuse {α : Type} (violation : Violation) : Reading σ α := throw (.violation violation)

/-! ## Progress -/

/-- Whatever comes next, no more is left than before, and less after a byte. -/
theorem unread_next_le (s : LineStream σ) : s.next.2.unread + s.next.1.weight ≤ s.unread := by
  unfold next
  split
  · next b hb => simp [unread, hb]
  · next hb => simpa [unread, hb] using Source.size_next_le s.source

/-- A byte leaves less than there was. -/
theorem unread_lt_of_byte {s t : LineStream σ} {b : UInt8} (h : s.next = (.byte b, t)) :
    t.unread < s.unread := by
  have := unread_next_le s
  simp only [h, Event.weight_byte] at this
  omega

/-- Nothing is handed back right after the next byte, end or failure. -/
theorem returned_next (s : LineStream σ) : s.next.2.returned = none := by
  unfold next
  split
  · rfl
  · next hb => exact hb

/-- Looking at the next byte leaves no more than there was. -/
theorem unread_nextIf_le (expected : UInt8) (s : LineStream σ) :
    (s.nextIf expected).2.unread ≤ s.unread := by
  have hle := unread_next_le s
  have hroom := returned_next s
  unfold nextIf
  split
  · next b t hb =>
    rw [hb] at hle hroom
    have hroom : t.returned = none := hroom
    simp only [Event.weight_byte] at hle
    split
    · exact Nat.le_of_succ_le hle
    · simpa [unread, hroom] using hle
  · next event t _ hb =>
    rw [hb] at hle
    exact Nat.le_trans (Nat.le_add_right _ _) hle

/-- A step that takes the expected byte leaves no more than there was. -/
theorem unread_le_of_takeByteIf {expected : UInt8} {s t : LineStream σ} {taken : Option Bool}
    (h : takeByteIf expected s = .ok taken t) : t.unread ≤ s.unread := by
  have hle := unread_nextIf_le expected s
  unfold takeByteIf at h
  split at h
  · next hlooked =>
    cases h
    rwa [hlooked] at hle
  · next hlooked =>
    cases h
    rwa [hlooked] at hle
  · cases h

end LineStream

end WebVTT
