import WebVTT.Session.Basic

/-!
# Runs of cues

`Cues` walks over the cues of a session, and is finished by the first error or the end of the
stream. A finished walk reads nothing more; the session can be walked over again.
-/

namespace WebVTT

/-- A walk over the cues of a session. -/
structure Cues (σ : Type) where
  /-- The session, as the walk has left it. -/
  session : Session σ
  /-- Whether an error or the end was met. -/
  finished : Bool := false

namespace Cues

variable {σ : Type} [Source σ]

/-- The next cue, or the error that ends the walk, or nothing once the walk is finished. -/
def next (c : Cues σ) : Option (Except Error Cue) × Cues σ :=
  if c.finished then
    (none, c)
  else
    match c.session.nextCue with
    | .ok (some cue) s => (some (.ok cue), { session := s })
    | .ok none s => (none, { session := s, finished := true })
    | .error e s => (some (.error e), { session := s, finished := true })

/-- Take so many steps at most, and give what they yield. -/
def take : Nat → Cues σ → List (Except Error Cue) × Cues σ
  | 0, c => ([], c)
  | count + 1, c =>
    match c.next with
    | (none, d) => ([], d)
    | (some result, d) =>
      let (results, last) := take count d
      (result :: results, last)

/-- An upper bound on the steps that yield something. -/
def stepsLeft (c : Cues σ) : Nat := if c.finished then 0 else c.session.stream.unread + 1

/-- A step that yields something leaves fewer that do. -/
theorem stepsLeft_lt_of_next {c d : Cues σ} {result : Except Error Cue}
    (h : c.next = (some result, d)) : d.stepsLeft < c.stepsLeft := by
  unfold next at h
  split at h
  · cases h
  · next hfinished =>
    split at h
    · next hcue =>
      cases h
      have := Session.unread_lt_of_nextCue hcue
      simpa [stepsLeft, hfinished] using this
    · cases h
    · cases h
      simp [stepsLeft, hfinished]

/-- Walk on to the end, given what was yielded before. -/
def collectAfter (found : Array (Except Error Cue)) (c : Cues σ) :
    List (Except Error Cue) × Cues σ :=
  match _h : c.next with
  | (none, d) => (found.toList, d)
  | (some result, d) => collectAfter (found.push result) d
termination_by c.stepsLeft
decreasing_by exact stepsLeft_lt_of_next _h

/-- Walk on to the end, and give what is yielded on the way. -/
def collect (c : Cues σ) : List (Except Error Cue) × Cues σ := collectAfter #[] c

end Cues

end WebVTT
