import WebVTT.LineStream.Line
import WebVTT.Timings.Basic

/-!
# Reading cues

A cue is a run of lines that are not empty: an identifier, which may be left out, a timings line,
and lines of text. An arrow tells a timings line from an identifier. Reading a cue takes the empty
line after it too, if there is one.
-/

namespace WebVTT.LineStream

variable {σ : Type} [Source σ]

/-- Read the first line that is not empty, if there is one left. -/
def readNonempty : Reading σ (Option String) := fun s ↦
  match _h : readLine s with
  | .ok (some line) t => if line.isEmpty then readNonempty t else .ok (some line) t
  | .ok none t => .ok none t
  | .error e t => .error e t
termination_by s => s.unread
decreasing_by exact unread_lt_of_readLine _h

/-- The identifier and the timings line of a cue that begins with this line. -/
def readTimingsLine (first : String) : Reading σ (String × String) := do
  if Timings.hasArrow first then
    return ("", first)
  else
    match ← readLine with
    | none => refuse (.unexpectedEnd ((← get).line + 1))
    | some second =>
      if Timings.hasArrow second then
        return (first, second)
      else
        refuse (.missingTimings (← get).line)

/-- Read lines of text up to an empty line or the end, given those read before. -/
def readPayloadAfter (found : Array String) : Reading σ (List String) := fun s ↦
  match _h : readLine s with
  | .ok (some text) t =>
    if text.isEmpty then
      .ok found.toList t
    else if t.limits.maxPayloadLines.toNat ≤ found.size then
      .error (.violation (.tooManyPayloadLines t.line t.limits.maxPayloadLines)) t
    else
      readPayloadAfter (found.push text) t
  | .ok none t => .ok found.toList t
  | .error e t => .error e t
termination_by s => s.unread
decreasing_by exact unread_lt_of_readLine _h

/-- Read the rest of a cue that begins with this line, which was the last one read. -/
def readCueFrom (first : String) : Reading σ Cue := do
  let firstLine := (← get).line
  let (identifier, timingsLine) ← readTimingsLine first
  match Timings.parse timingsLine with
  | .error reason => refuse (.invalidTimings (← get).line reason)
  | .ok { start, stop, settings } =>
    let payload ← readPayloadAfter #[]
    if payload.isEmpty then
      refuse (.emptyPayload firstLine)
    else
      return { identifier, start, stop, settings, payload }

/-- Read the next cue, if anything but empty lines is left. -/
def readCue : Reading σ (Option Cue) := do
  match ← readNonempty with
  | none => return none
  | some first => return some (← readCueFrom first)

/-! ## Progress -/

/-- Looking for a line that is not empty takes a byte at least, if there is such a line. -/
theorem unread_lt_of_readNonempty {s t : LineStream σ} {line : String}
    (h : readNonempty s = .ok (some line) t) : t.unread < s.unread := by
  fun_induction readNonempty s with
  | case1 s line u hread _ ih =>
    have := ih h
    have := unread_lt_of_readLine hread
    omega
  | case2 s line u hread _ =>
    cases h
    exact unread_lt_of_readLine hread
  | case3 => cases h
  | case4 => cases h

/-- Looking for the timings line leaves no more than there was. -/
theorem unread_le_of_readTimingsLine {first : String} {s t : LineStream σ} {r : String × String}
    (h : readTimingsLine first s = .ok r t) : t.unread ≤ s.unread := by
  unfold readTimingsLine at h
  split at h
  · cases h
    exact Nat.le_refl _
  · obtain ⟨second?, u, hread, h⟩ := Reading.ok_of_bind h
    have hle := (unread_le_of_readLine hread).1
    cases second? with
    | none => cases h
    | some second =>
      dsimp only at h
      split at h <;> cases h
      exact hle

/-- Reading text leaves no more than there was. -/
theorem unread_le_of_readPayloadAfter {found : Array String} {s t : LineStream σ}
    {payload : List String} (h : readPayloadAfter found s = .ok payload t) :
    t.unread ≤ s.unread := by
  fun_induction readPayloadAfter found s with
  | case1 found s text u hread _ =>
    cases h
    exact (unread_le_of_readLine hread).1
  | case2 => cases h
  | case3 found s text u hread _ _ ih =>
    have := ih h
    have := unread_lt_of_readLine hread
    omega
  | case4 found s u hread =>
    cases h
    exact (unread_le_of_readLine hread).1
  | case5 => cases h

/-- Reading the rest of a cue leaves no more than there was. -/
theorem unread_le_of_readCueFrom {first : String} {s t : LineStream σ} {cue : Cue}
    (h : readCueFrom first s = .ok cue t) : t.unread ≤ s.unread := by
  unfold readCueFrom at h
  obtain ⟨_, _, hget, h⟩ := Reading.ok_of_bind h
  cases hget
  obtain ⟨⟨identifier, line⟩, u, hline, h⟩ := Reading.ok_of_bind h
  have hline := unread_le_of_readTimingsLine hline
  dsimp only at h
  cases hparse : Timings.parse line with
  | error reason =>
    rw [hparse] at h
    cases h
  | ok timings =>
    rw [hparse] at h
    obtain ⟨payload, v, hpayload, h⟩ := Reading.ok_of_bind h
    have hpayload := unread_le_of_readPayloadAfter hpayload
    split at h <;> cases h
    omega

/-- A cue that is read takes a byte at least. -/
theorem unread_lt_of_readCue {s t : LineStream σ} {cue : Cue}
    (h : readCue s = .ok (some cue) t) : t.unread < s.unread := by
  unfold readCue at h
  obtain ⟨first?, u, hfirst, h⟩ := Reading.ok_of_bind h
  cases first? with
  | none => cases h
  | some first =>
    have hfirst := unread_lt_of_readNonempty hfirst
    obtain ⟨cue', v, hcue, h⟩ := Reading.ok_of_bind h
    have hcue := unread_le_of_readCueFrom hcue
    cases h
    omega

end WebVTT.LineStream
