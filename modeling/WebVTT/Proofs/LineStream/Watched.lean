import WebVTT.Proofs.LineStream.Reading
import WebVTT.Proofs.LineStream.Frame
import WebVTT.Proofs.Source.Moves
import WebVTT.Proofs.Source.Recorded

/-!
# Streams under watch

A `Watched` stream keeps all moves of bytes in it. Everything that takes bytes of a stream, from a single
byte up to a preamble and to the bytes of a line, is written here once more in terms of moves: a byte is
delivered, a byte is handed back, a terminator is finished. Without the moves these steps are the ones
that read a stream (`Watched.Tracks`), and the moves that they make are orderly and account for what has
been pulled and for what is held (`Watched.Sound`).
-/

namespace WebVTT

open LineStream (lineFeed carriageReturn)
open Reading (Leaves)

/-- A stream, and all moves of bytes in it, the oldest first. -/
structure Watched (σ : Type) where
  /-- The stream as it is now. -/
  stream : LineStream σ
  /-- What has happened to bytes. -/
  moves : List Move := []

/-- A step over a stream under watch. -/
abbrev Watching (σ : Type) : Type → Type := EStateM Error (Watched σ)

namespace Watched

variable {σ : Type} [Source σ] {α β : Type}

/-! ## Steps and their moves -/

/-- The move by which the next byte, end or failure is delivered. -/
def delivery (s : LineStream σ) : Move :=
  match s.returned with
  | some b => .redelivered b
  | none => .pulled (Source.next s.source).1

/-- Have the next byte delivered; there is none at the end of the stream. -/
def takeByte : Watching σ (Option UInt8) := fun w ↦
  match LineStream.takeByte w.stream with
  | .ok b? t => .ok b? ⟨t, w.moves ++ [delivery w.stream]⟩
  | .error e t => .error e ⟨t, w.moves ++ [delivery w.stream]⟩

omit [Source σ] in
/-- Hand a byte back, in place of any other. -/
def handBack (b : UInt8) : Watching σ PUnit :=
  modify fun w ↦ ⟨{ w.stream with returned := some b }, w.moves ++ [.handedBack b]⟩

/-- Take a byte if it is the one expected, and hand it back if it is not. -/
def takeByteIf (expected : UInt8) : Watching σ (Option Bool) := do
  match ← takeByte with
  | none => return none
  | some b =>
    if b = expected then
      return some true
    else
      handBack b
      return some false

/-- Finish a terminator that begins with this byte. -/
def finishTerminator (first : UInt8) : Watching σ PUnit := do
  modify fun w ↦ { w with moves := w.moves ++ [.terminator first] }
  if first = carriageReturn then
    let _ ← takeByteIf lineFeed

theorem next_of_takeByte {w v : Watched σ} {b? : Option UInt8} (h : takeByte w = .ok b? v) :
    w.stream.next = (b?.elim .ended .byte, v.stream) := by
  unfold takeByte LineStream.takeByte at h
  cases hnext : w.stream.next with
  | mk event t =>
    rw [hnext] at h
    cases event <;> cases h <;> rfl

theorem next_of_takeByte_error {w v : Watched σ} {e : Error} (h : takeByte w = .error e v) :
    ∃ failure, e = .source failure ∧ w.stream.next = (.failed failure, v.stream) := by
  unfold takeByte LineStream.takeByte at h
  cases hnext : w.stream.next with
  | mk event t =>
    rw [hnext] at h
    cases event <;> cases h
    exact ⟨_, rfl, rfl⟩

/-- Take the bytes up to the end of the line and its terminator. -/
def takeLineAfter (taken : ByteArray) : Watching σ (Option ByteArray) := fun w ↦
  match _h : takeByte w with
  | .ok none v => .ok (if taken.isEmpty then none else some taken) v
  | .error e v => .error e v
  | .ok (some b) v =>
    if b = lineFeed ∨ b = carriageReturn then
      match finishTerminator b v with
      | .ok _ u => .ok (some taken) u
      | .error e u => .error e u
    else if v.stream.limits.maxLineLength.toNat ≤ taken.size then
      .error (.violation (.lineTooLong (v.stream.line + 1) v.stream.limits.maxLineLength)) v
    else
      takeLineAfter (taken.push b) v
termination_by w => w.stream.unread
decreasing_by exact LineStream.unread_lt_of_byte (next_of_takeByte _h)

/-- Take exactly these bytes. -/
def expectBytes (atEnd otherwise : Violation) : List UInt8 → Watching σ PUnit
  | [] => return ()
  | expected :: rest => do
    match ← takeByte with
    | none => throw (.violation atEnd)
    | some found =>
      if found = expected then expectBytes atEnd otherwise rest else throw (.violation otherwise)

/-- Take a byte order mark if there is one. -/
def readBom : Watching σ Bool := do
  match ← takeByteIf 0xEF with
  | none => throw (.violation (.unexpectedEnd 1))
  | some false => return false
  | some true =>
    expectBytes .incompleteBom .incompleteBom [0xBB, 0xBF]
    return true

/-- Take the signature. -/
def readSignature : Watching σ PUnit :=
  expectBytes (.unexpectedEnd 1) .missingSignature "WEBVTT".toUTF8.toList

/-! ## The same steps without the moves -/

omit [Source σ] in
/-- The result of a step, its moves left out. -/
def forget : EStateM.Result Error (Watched σ) α → EStateM.Result Error (LineStream σ) α
  | .ok a w => .ok a w.stream
  | .error e w => .error e w.stream

omit [Source σ] in
/-- A step does what another does, and keeps its moves besides. -/
def Tracks (x : Watching σ α) (y : Reading σ α) : Prop := ∀ w, forget (x w) = y w.stream

namespace Tracks

omit [Source σ] in
theorem bind {x : Watching σ α} {y : Reading σ α} {f : α → Watching σ β} {g : α → Reading σ β}
    (hx : Tracks x y) (hf : ∀ a, Tracks (f a) (g a)) : Tracks (x >>= f) (y >>= g) := by
  intro w
  have hw := hx w
  cases hxw : x w with
  | ok a v =>
    rw [hxw] at hw
    rw [Reading.bind_of_ok hxw, Reading.bind_of_ok hw.symm]
    exact hf a v
  | error e v =>
    rw [hxw] at hw
    rw [Reading.bind_of_error hxw, Reading.bind_of_error hw.symm]
    rfl

omit [Source σ] in
/-- What a step leaves behind with its moves kept it leaves behind without them. -/
theorem leaves {x : Watching σ α} {y : Reading σ α} {w : Watched σ} {P : α → Watched σ → Prop}
    {Q : Watched σ → Prop} (hxy : Tracks x y) (h : Leaves P Q (x w)) :
    Leaves (fun a s ↦ ∃ moves, P a ⟨s, moves⟩) (fun s ↦ ∃ moves, Q ⟨s, moves⟩) (y w.stream) := by
  have hw := hxy w
  cases hx : x w with
  | ok a v =>
    rw [hx] at hw h
    rw [← hw]
    exact .ok a ⟨v.moves, h.of_ok⟩
  | error e v =>
    rw [hx] at hw h
    rw [← hw]
    exact .error e ⟨v.moves, h.of_error⟩

end Tracks

theorem tracks_takeByte : Tracks (σ := σ) takeByte LineStream.takeByte := by
  intro w
  unfold takeByte
  cases LineStream.takeByte w.stream <;> rfl

/-- To look at a byte and leave it where it is is to have it delivered and hand it back. -/
theorem tracks_takeByteIf (expected : UInt8) :
    Tracks (σ := σ) (takeByteIf expected) (LineStream.takeByteIf expected) := by
  intro w
  unfold takeByteIf LineStream.takeByteIf LineStream.nextIf
  cases htake : takeByte w with
  | error e v =>
    obtain ⟨failure, rfl, hnext⟩ := next_of_takeByte_error htake
    rw [Reading.bind_of_error htake, hnext]
    rfl
  | ok b? v =>
    rw [Reading.bind_of_ok htake]
    cases b? with
    | none =>
      rw [next_of_takeByte htake]
      rfl
    | some b =>
      rw [next_of_takeByte htake]
      by_cases hb : b = expected
      · simp only [Option.elim_some, hb, decide_true]
        rfl
      · simp only [Option.elim_some, hb, decide_false]
        rfl

theorem tracks_finishTerminator (first : UInt8) :
    Tracks (σ := σ) (finishTerminator first) (LineStream.finishTerminator first) := by
  intro w
  unfold finishTerminator LineStream.finishTerminator
  by_cases hfirst : first = carriageReturn
  · rw [if_pos hfirst, if_pos hfirst]
    exact (tracks_takeByteIf lineFeed).bind (fun _ _ ↦ rfl) _
  · rw [if_neg hfirst, if_neg hfirst]
    rfl

theorem tracks_takeLineAfter (taken : ByteArray) :
    Tracks (σ := σ) (takeLineAfter taken) (LineStream.takeLineAfter taken) := by
  intro w
  fun_induction takeLineAfter taken w with
  | case1 taken w v htake =>
    rw [LineStream.takeLineAfter_of_ended (next_of_takeByte htake)]
    rfl
  | case2 taken w e v htake =>
    obtain ⟨failure, rfl, hnext⟩ := next_of_takeByte_error htake
    rw [LineStream.takeLineAfter_of_failed hnext]
    rfl
  | case3 taken w b v htake hb a u hfinish =>
    have hfinish' := tracks_finishTerminator b v
    rw [hfinish] at hfinish'
    rw [LineStream.takeLineAfter_of_terminator (next_of_takeByte htake) hb hfinish'.symm]
    rfl
  | case4 taken w b v htake hb e u hfinish =>
    have hfinish' := tracks_finishTerminator b v
    rw [hfinish] at hfinish'
    rw [LineStream.takeLineAfter_of_unfinished (next_of_takeByte htake) hb hfinish'.symm]
    rfl
  | case5 taken w b v htake hb hfull =>
    rw [LineStream.takeLineAfter_of_excess (next_of_takeByte htake) hb hfull]
    rfl
  | case6 taken w b v htake hb hroom ih =>
    rw [LineStream.takeLineAfter_of_content (next_of_takeByte htake) hb (Nat.lt_of_not_le hroom)]
    exact ih

theorem tracks_expectBytes (atEnd otherwise : Violation) (expected : List UInt8) :
    Tracks (σ := σ) (expectBytes atEnd otherwise expected)
      (LineStream.expectBytes atEnd otherwise expected) := by
  induction expected with
  | nil => exact fun _ ↦ rfl
  | cons b expected ih =>
    unfold expectBytes LineStream.expectBytes
    refine tracks_takeByte.bind fun found? ↦ ?_
    cases found? with
    | none => exact fun _ ↦ rfl
    | some found =>
      dsimp only
      split
      · exact ih
      · exact fun _ ↦ rfl

theorem tracks_readBom : Tracks (σ := σ) readBom LineStream.readBom := by
  unfold readBom LineStream.readBom
  refine (tracks_takeByteIf 0xEF).bind fun taken ↦ ?_
  match taken with
  | none => exact fun _ ↦ rfl
  | some false => exact fun _ ↦ rfl
  | some true => exact (tracks_expectBytes _ _ _).bind fun _ _ ↦ rfl

theorem tracks_readSignature : Tracks (σ := σ) readSignature LineStream.readSignature :=
  tracks_expectBytes _ _ _

/-! ## Sound moves -/

/-- The moves are orderly. They account for all that has been pulled from the source, and for the byte
that is held. -/
structure Sound (w : Watched (Recorded σ)) : Prop where
  orderly : Move.Orderly w.moves
  held_eq : (Move.account w.moves).held = w.stream.returned
  pulled_eq : w.stream.source.pulled = w.moves.filterMap Move.event?

/-- Nothing is held, and what was delivered last is this byte, if it is one. -/
def Sound.Delivered (b? : Option UInt8) (w : Watched (Recorded σ)) : Prop :=
  w.Sound ∧ w.stream.returned = none ∧ ∀ b ∈ b?, Move.JustDelivered b w.moves

variable {w : Watched (Recorded σ)} {b : UInt8}

omit [Source σ] in
/-- Nothing has happened to a stream that is yet to be read. -/
theorem sound_ofSource (source : σ) (limits : Limits) :
    Sound ⟨{ source := Recorded.ofSource source, limits }, []⟩ := ⟨.nil, rfl, rfl⟩

omit [Source σ] in
/-- It does not matter to bytes what lines are counted and what notices are left. -/
theorem Sound.congr {s : LineStream (Recorded σ)} (h : w.Sound) (hsource : s.source = w.stream.source)
    (hreturned : s.returned = w.stream.returned) : Sound ⟨s, w.moves⟩ :=
  ⟨h.orderly, h.held_eq.trans hreturned.symm, hsource ▸ h.pulled_eq⟩

/-- The byte that is held is delivered first, and then what the source yields. -/
theorem Sound.deliver (h : w.Sound) {event : Event} {t : LineStream (Recorded σ)}
    (hnext : w.stream.next = (event, t)) :
    Sound ⟨t, w.moves ++ [delivery w.stream]⟩ ∧ t.returned = none ∧
      (delivery w.stream).delivered = event.byte? := by
  unfold LineStream.next at hnext
  unfold delivery
  cases hreturned : w.stream.returned with
  | some b =>
    rw [hreturned] at hnext
    cases hnext
    refine ⟨⟨h.orderly.snoc (h.held_eq.trans hreturned), ?_, ?_⟩, rfl, rfl⟩
    · rw [Move.account_append_singleton]
      rfl
    · rw [List.filterMap_append, ← h.pulled_eq]
      exact (List.append_nil _).symm
  | none =>
    rw [hreturned] at hnext
    cases hnext
    refine ⟨⟨h.orderly.snoc (h.held_eq.trans hreturned), ?_, ?_⟩, rfl, rfl⟩
    · rw [Move.account_append_singleton, Move.held_pulled]
      exact h.held_eq.trans hreturned
    · rw [List.filterMap_append, ← h.pulled_eq]
      rfl

theorem Sound.takeByte (h : w.Sound) : Leaves Sound.Delivered Sound (takeByte w) := by
  unfold Watched.takeByte LineStream.takeByte
  cases hnext : w.stream.next with
  | mk event t =>
    obtain ⟨hsound, hroom, hbyte⟩ := h.deliver hnext
    cases event with
    | byte b =>
      refine .ok _ ⟨hsound, hroom, ?_⟩
      rintro _ ⟨⟩
      simp [Move.JustDelivered, hbyte, Event.byte?]
    | ended => exact .ok _ ⟨hsound, hroom, by simp⟩
    | failed failure => exact .error _ hsound

omit [Source σ] in
/-- A byte is handed back only where there is room for it, and only right after it was delivered. -/
theorem Sound.handBack (h : Sound.Delivered (some b) w) :
    Leaves (fun _ ↦ Sound) Sound (handBack b w) := by
  obtain ⟨hsound, hroom, hlast⟩ := h
  refine .ok _ ⟨hsound.orderly.snoc ⟨hsound.held_eq.trans hroom, hlast b rfl⟩, ?_, ?_⟩
  · rw [Move.account_append_singleton]
    rfl
  · rw [List.filterMap_append, ← hsound.pulled_eq]
    exact (List.append_nil _).symm

theorem Sound.takeByteIf (expected : UInt8) (h : w.Sound) :
    Leaves (fun _ ↦ Sound) Sound (takeByteIf expected w) := by
  unfold Watched.takeByteIf
  refine h.takeByte.bind fun b? v hv ↦ ?_
  cases b? with
  | none => exact .ok _ hv.1
  | some b =>
    dsimp only
    split
    · exact .ok _ hv.1
    · exact (Sound.handBack hv).bind fun _ _ h ↦ .ok _ h

/-- Only what ends a line is finished as a terminator, and right after it was delivered. -/
theorem Sound.finishTerminator (hb : b = lineFeed ∨ b = carriageReturn)
    (h : Sound.Delivered (some b) w) : Leaves (fun _ ↦ Sound) Sound (finishTerminator b w) := by
  obtain ⟨hsound, -, hlast⟩ := h
  have hbegun : Sound { w with moves := w.moves ++ [.terminator b] } := by
    refine ⟨hsound.orderly.snoc ⟨hb, hlast b rfl⟩, ?_, ?_⟩
    · rw [Move.account_append_singleton]
      exact hsound.held_eq
    · rw [List.filterMap_append, ← hsound.pulled_eq]
      exact (List.append_nil _).symm
  unfold Watched.finishTerminator
  show Leaves _ _ ((if b = carriageReturn then _ else _ : Watching (Recorded σ) PUnit) _)
  split
  · exact (hbegun.takeByteIf lineFeed).bind fun _ _ h ↦ .ok _ h
  · exact .ok _ hbegun

theorem Sound.takeLineAfter (taken : ByteArray) (h : w.Sound) :
    Leaves (fun _ ↦ Sound) Sound (takeLineAfter taken w) := by
  fun_induction Watched.takeLineAfter taken w with
  | case1 taken w v htake => exact .ok _ (h.takeByte.of_eq_ok htake).1
  | case2 taken w e v htake => exact .error _ (h.takeByte.of_eq_error htake)
  | case3 taken w b v htake hb a u hfinish =>
    have hv := h.takeByte.of_eq_ok htake
    exact .ok _ ((Sound.finishTerminator hb hv).of_eq_ok hfinish)
  | case4 taken w b v htake hb e u hfinish =>
    have hv := h.takeByte.of_eq_ok htake
    exact .error _ ((Sound.finishTerminator hb hv).of_eq_error hfinish)
  | case5 taken w b v htake hb hfull => exact .error _ (h.takeByte.of_eq_ok htake).1
  | case6 taken w b v htake hb hroom ih => exact ih (h.takeByte.of_eq_ok htake).1

theorem Sound.expectBytes (atEnd otherwise : Violation) (expected : List UInt8) (h : w.Sound) :
    Leaves (fun _ ↦ Sound) Sound (expectBytes atEnd otherwise expected w) := by
  induction expected generalizing w with
  | nil => exact .ok _ h
  | cons b expected ih =>
    unfold Watched.expectBytes
    refine h.takeByte.bind fun found? v hv ↦ ?_
    cases found? with
    | none => exact .error _ hv.1
    | some found =>
      dsimp only
      split
      · exact ih hv.1
      · exact .error _ hv.1

theorem Sound.readBom (h : w.Sound) : Leaves (fun _ ↦ Sound) Sound (readBom w) := by
  unfold Watched.readBom
  refine (h.takeByteIf 0xEF).bind fun taken v hv ↦ ?_
  match taken with
  | none => exact .error _ hv
  | some false => exact .ok _ hv
  | some true => exact (hv.expectBytes _ _ _).bind fun _ _ h ↦ .ok _ h

theorem Sound.readSignature (h : w.Sound) : Leaves (fun _ ↦ Sound) Sound (readSignature w) :=
  h.expectBytes _ _ _

end Watched

end WebVTT
