import WebVTT.LineStream.Basic

/-!
# Lines

A line ends at a line feed, a carriage return, or both in that order; at the end of the stream it
ends as well, unless it would be empty. Its text has to be UTF-8, and its length is bounded. A line
that is too long is given up where it exceeds the bound, and the rest of it reads as a line of its
own.
-/

namespace WebVTT.LineStream

/-- The byte that ends a line. -/
def lineFeed : UInt8 := 10

/-- The byte that ends a line, together with a line feed after it. -/
def carriageReturn : UInt8 := 13

variable {σ : Type} [Source σ]

/-- Finish a terminator that begins with this byte. -/
def finishTerminator (first : UInt8) : Reading σ Unit := do
  if first = carriageReturn then
    let _ ← takeByteIf lineFeed

/-- Take the bytes up to the end of the line and its terminator, given the bytes of the line taken
before. There is no line at the end of the stream. -/
def takeLineAfter (taken : ByteArray) : Reading σ (Option ByteArray) := fun s ↦
  match _h : s.next with
  | (.ended, t) => .ok (if taken.isEmpty then none else some taken) t
  | (.failed failure, t) => .error (.source failure) t
  | (.byte b, t) =>
    if b = lineFeed ∨ b = carriageReturn then
      match finishTerminator b t with
      | .ok _ u => .ok (some taken) u
      | .error e u => .error e u
    else if t.limits.maxLineLength.toNat ≤ taken.size then
      .error (.violation (.lineTooLong (t.line + 1) t.limits.maxLineLength)) t
    else
      takeLineAfter (taken.push b) t
termination_by s => s.unread
decreasing_by exact unread_lt_of_byte _h

/-- Count a line of these bytes and leave a notice of it. -/
def completeLine (bytes : ByteArray) (s : LineStream σ) : LineStream σ :=
  { s with line := s.line + 1 }.note (.lineRead (s.line + 1) bytes.size)

/-- Read a line, if there is one left. -/
def readLine : Reading σ (Option String) := do
  match ← takeLineAfter .empty with
  | none => return none
  | some bytes =>
    modify (completeLine bytes)
    match String.fromUTF8? bytes with
    | some text => return some text
    | none => refuse (.invalidUtf8 (← get).line)

/-! ## Progress -/

/-- Finishing a terminator leaves no more than there was. -/
theorem unread_le_of_finishTerminator {first : UInt8} {s t : LineStream σ}
    (h : finishTerminator first s = .ok () t) : t.unread ≤ s.unread := by
  unfold finishTerminator at h
  split at h
  · obtain ⟨_, _, htake, h⟩ := Reading.ok_of_bind h
    cases h
    exact unread_le_of_takeByteIf htake
  · cases h
    exact Nat.le_refl _

/-- Taking a line leaves no more than there was, and less if the line starts here. -/
theorem unread_le_of_takeLineAfter {taken : ByteArray} {s t : LineStream σ}
    {line : Option ByteArray} (h : takeLineAfter taken s = .ok line t) :
    t.unread ≤ s.unread ∧ (line.isSome → taken.isEmpty → t.unread < s.unread) := by
  fun_induction takeLineAfter taken s with
  | case1 taken s u hnext =>
    cases h
    have := unread_next_le s
    rw [hnext] at this
    exact ⟨this, fun hsome hempty ↦ by simp [hempty] at hsome⟩
  | case2 => cases h
  | case3 taken s b u hnext _ _ v hfinish =>
    cases h
    have := unread_le_of_finishTerminator hfinish
    have := unread_lt_of_byte hnext
    omega
  | case4 => cases h
  | case5 => cases h
  | case6 taken s b u hnext _ _ ih =>
    have := (ih h).1
    have := unread_lt_of_byte hnext
    omega

/-- Reading a line leaves no more than there was, and less if there was a line. -/
theorem unread_le_of_readLine {s t : LineStream σ} {line : Option String}
    (h : readLine s = .ok line t) :
    t.unread ≤ s.unread ∧ (line.isSome → t.unread < s.unread) := by
  unfold readLine at h
  obtain ⟨bytes?, u, htake, h⟩ := Reading.ok_of_bind h
  have htaken := unread_le_of_takeLineAfter htake
  cases bytes? with
  | none =>
    cases h
    exact ⟨htaken.1, fun hsome ↦ nomatch hsome⟩
  | some bytes =>
    obtain ⟨_, _, hcomplete, h⟩ := Reading.ok_of_bind h
    cases hcomplete
    cases hdecode : String.fromUTF8? bytes <;> rw [hdecode] at h <;> cases h
    exact ⟨htaken.1, fun _ ↦ htaken.2 rfl rfl⟩

/-- A line that is read takes a byte at least. -/
theorem unread_lt_of_readLine {s t : LineStream σ} {line : String}
    (h : readLine s = .ok (some line) t) : t.unread < s.unread :=
  (unread_le_of_readLine h).2 rfl

end WebVTT.LineStream
