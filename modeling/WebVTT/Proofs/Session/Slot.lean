import WebVTT.Proofs.LineStream.Watched
import WebVTT.Proofs.Session.Sources
import WebVTT.Source.Script

/-!
# The byte that was taken too early

A session that is watched from its start (`Watched.Reached`) takes a preamble and then one line after the
other, and every call may leave a notice. All moves of bytes that it makes are orderly, whatever its source
yields and however its calls come out: there is never more than one byte held, and no byte is lost,
doubled or put out of order (`Session.slot_run`).
-/

namespace WebVTT

open Reading (Alike Leaves)

namespace Watched

variable {σ : Type} [Source σ] {start : LineStream σ}

/-! ## Preambles and lines -/

/-- Take a preamble, and tell whether it begins with a byte order mark. -/
def takePreamble : Watching σ Bool := do
  let hasBom ← readBom
  readSignature
  return hasBom

/-- Read a line, if there is one left. -/
def readLine : Watching σ (Option String) := do
  match ← takeLineAfter .empty with
  | none => return none
  | some bytes =>
    modify fun w ↦ { w with stream := LineStream.completeLine bytes w.stream }
    match String.fromUTF8? bytes with
    | some text => return some text
    | none => throw (.violation (.invalidUtf8 (← get).stream.line))

theorem tracks_readLine : Tracks (σ := σ) readLine LineStream.readLine := by
  unfold readLine LineStream.readLine
  refine (tracks_takeLineAfter .empty).bind fun bytes? ↦ ?_
  cases bytes? with
  | none => exact fun _ ↦ rfl
  | some bytes =>
    intro w
    dsimp only
    cases String.fromUTF8? bytes <;> rfl

theorem Sound.takePreamble {w : Watched (Recorded σ)} (h : w.Sound) :
    Leaves (fun _ ↦ Sound) Sound (takePreamble w) :=
  h.readBom.bind fun _ _ h ↦ h.readSignature.bind fun _ _ h ↦ .ok _ h

theorem Sound.readLine {w : Watched (Recorded σ)} (h : w.Sound) :
    Leaves (fun _ ↦ Sound) Sound (readLine w) := by
  unfold Watched.readLine
  refine (h.takeLineAfter .empty).bind fun bytes? v hv ↦ ?_
  cases bytes? with
  | none => exact .ok _ hv
  | some bytes =>
    have hcomplete : Sound { v with stream := LineStream.completeLine bytes v.stream } :=
      hv.congr rfl rfl
    dsimp only
    cases String.fromUTF8? bytes with
    | some text => exact .ok _ hcomplete
    | none => exact .error _ hcomplete

/-- What is looked at after a carriage return is handed back if it is no line feed. -/
example :
    (match readLine ⟨{ source := Script.mk [.byte 13, .byte 65] }, []⟩ with
      | .ok _ w | .error _ w => w.moves) =
      [.pulled (.byte 13), .terminator 13, .pulled (.byte 65), .handedBack 65] := by decide +kernel

/-! ## Reached streams -/

/-- A preamble was taken, and nothing but lines were read since. -/
inductive Opened (start : LineStream σ) : Watched σ → Prop where
  | preamble {w : Watched σ} {hasBom : Bool} : takePreamble ⟨start, []⟩ = .ok hasBom w →
      Opened start w
  | line {w v : Watched σ} {text? : Option String} : Opened start w → readLine w = .ok text? v →
      Opened start v
  | refused {w v : Watched σ} {e : Error} : Opened start w → readLine w = .error e v →
      Opened start v
  | note {w : Watched σ} (n : Notice) : Opened start w →
      Opened start { w with stream := w.stream.note n }

/-- What may have become of a stream: nothing was taken yet, the preamble was refused, or it was taken
and lines were read. -/
inductive Reached (start : LineStream σ) : Watched σ → Prop where
  | start : Reached start ⟨start, []⟩
  | strayed {w : Watched σ} {e : Error} : takePreamble ⟨start, []⟩ = .error e w → Reached start w
  | opened {w : Watched σ} : Opened start w → Reached start w
  | note {w : Watched σ} (n : Notice) : Reached start w →
      Reached start { w with stream := w.stream.note n }

section Sound

variable {source : σ} {limits : Limits} {w : Watched (Recorded σ)}

/-- Lines that are read keep the moves sound, and so do lines that are refused. -/
theorem Opened.sound (h : Opened { source := Recorded.ofSource source, limits } w) : w.Sound := by
  induction h with
  | preamble hpreamble => exact (sound_ofSource source limits).takePreamble.of_eq_ok hpreamble
  | line _ hread ih => exact ih.readLine.of_eq_ok hread
  | refused _ hread ih => exact ih.readLine.of_eq_error hread
  | note _ _ ih => exact ih.congr rfl rfl

/-- However far reading has come, the moves are sound. -/
theorem Reached.sound (h : Reached { source := Recorded.ofSource source, limits } w) : w.Sound := by
  induction h with
  | start => exact sound_ofSource source limits
  | strayed hpreamble => exact (sound_ofSource source limits).takePreamble.of_eq_error hpreamble
  | opened hopened => exact hopened.sound
  | note _ _ ih => exact ih.congr rfl rfl

end Sound

/-! ## Reading under watch -/

theorem Opened.readLine {w : Watched σ} (h : Opened start w) :
    Leaves (fun _ ↦ Opened start) (Opened start) (readLine w) := by
  cases hread : Watched.readLine w with
  | ok text? v => exact .ok _ (h.line hread)
  | error e v => exact .error _ (h.refused hread)

theorem leaves_readBom (start : LineStream σ) :
    Leaves (fun hasBom w ↦ readBom ⟨start, []⟩ = .ok hasBom w) (Reached start)
      (readBom ⟨start, []⟩) := by
  cases hbom : readBom ⟨start, []⟩ with
  | ok hasBom w => exact .ok _ rfl
  | error e w => exact .error _ (.strayed (Reading.bind_of_error hbom))

/-- The signature completes a preamble. -/
theorem leaves_readSignature {w : Watched σ} {hasBom : Bool}
    (hbom : readBom ⟨start, []⟩ = .ok hasBom w) :
    Leaves (fun _ ↦ Opened start) (Reached start) (readSignature w) := by
  cases hsignature : readSignature w with
  | ok _ v =>
    have hpreamble : takePreamble ⟨start, []⟩ = .ok hasBom v := by
      unfold takePreamble
      rw [Reading.bind_of_ok hbom, Reading.bind_of_ok hsignature]
      rfl
    exact .ok _ (.preamble hpreamble)
  | error e v =>
    have hpreamble : takePreamble ⟨start, []⟩ = .error e v := by
      unfold takePreamble
      rw [Reading.bind_of_ok hbom, Reading.bind_of_error hsignature]
    exact .error _ (.strayed hpreamble)

end Watched

namespace Session

open Watched (Opened Reached)

variable {σ : Type} [Source σ]

/-- Calls read a stream in a way that can be watched. -/
theorem lockstep_watched (start : LineStream σ) :
    Lockstep (fun s t ↦ s = t ∧ s = start) (fun s t ↦ s = t ∧ ∃ moves, Opened start ⟨s, moves⟩)
      (fun s t ↦ s = t ∧ ∃ moves, Reached start ⟨s, moves⟩) := by
  have hlines : LineStream.Lockstep (fun s t : LineStream σ ↦ s = t ∧ ∃ moves, Opened start ⟨s, moves⟩)
      (fun s t ↦ s = t ∧ ∃ moves, Opened start ⟨s, moves⟩) := by
    refine .of_leaves (fun _ h ↦ h) fun s h ↦ ?_
    obtain ⟨moves, h⟩ := h
    exact Watched.tracks_readLine.leaves h.readLine
  constructor
  case lines => exact hlines
  case header =>
    intro s t hst
    have hheader := hlines.mono fun s t ⟨hst, moves, h⟩ ↦
      (⟨hst, moves, .opened h⟩ : s = t ∧ ∃ moves, Reached start ⟨s, moves⟩)
    refine hheader.readHeader (P := fun s t ↦ s = t ∧ s = start)
      (Q := fun s t ↦ s = t ∧ ∃ moves hasBom,
        Watched.readBom ⟨start, []⟩ = .ok hasBom ⟨s, moves⟩) ?_ ?_ hst
    · rintro s _ ⟨rfl, rfl⟩
      have hbom := Watched.tracks_readBom.leaves (Watched.leaves_readBom s)
      exact (hbom.mono (fun hasBom _ ⟨moves, h⟩ ↦ ⟨moves, hasBom, h⟩) fun _ h ↦ h).alike
    · rintro s _ ⟨rfl, moves, hasBom, hbom⟩
      exact (Watched.tracks_readSignature.leaves (Watched.leaves_readSignature hbom)).alike
  case line_eq_atHeader => exact fun h ↦ congrArg LineStream.line h.1
  case line_eq_rejected => exact fun h ↦ congrArg LineStream.line h.1
  case note =>
    rintro s _ n ⟨rfl, moves, h⟩
    exact ⟨rfl, moves, h.note n⟩
  case note_rejected =>
    rintro s _ n ⟨rfl, moves, h⟩
    exact ⟨rfl, moves, h.note n⟩

/-- Every state of a session is reached by moves of bytes, and however it is reached: each move was in
order when it was made, the bytes pulled by then were those consumed and the one held, and in the end
the one held is the one that the session holds. -/
theorem slot_run (source : σ) (limits : Limits) (calls : List Call) :
    let start := { source := Recorded.ofSource source, limits }
    let stream := (run (Recorded.ofSource source) limits calls).2.stream
    (∃ moves, Reached start ⟨stream, moves⟩) ∧
      ∀ moves, Reached start ⟨stream, moves⟩ →
        (∀ before move after, moves = before ++ move :: after →
          Move.Allowed before move ∧ (Move.account before).Balanced) ∧
        moves.filterMap Move.event? = pulled source limits calls ∧
        (pulled source limits calls).filterMap Event.byte? =
          (Move.account moves).consumed ++ (run source limits calls).2.stream.returned.toList := by
  intro start stream
  refine ⟨?_, fun moves hreached ↦ ?_⟩
  · have hlast := ((lockstep_watched start).run ⟨rfl, rfl⟩ calls).2
    have hstream : stream = stream ∧ ∃ moves, Reached start ⟨stream, moves⟩ := by
      refine hlast.stream ?_ ?_ id
      · rintro _ _ ⟨rfl, rfl⟩
        exact ⟨rfl, [], .start⟩
      · rintro s _ ⟨rfl, moves, h⟩
        exact ⟨rfl, moves, .opened h⟩
    exact hstream.2
  · obtain ⟨-, -, hover⟩ := run_recorded source limits calls
    obtain ⟨horderly, hheld, hpulled⟩ := hreached.sound
    have hevents : moves.filterMap Move.event? = pulled source limits calls := hpulled.symm
    refine ⟨?_, hevents, ?_⟩
    · rintro before move after rfl
      exact ⟨horderly.allowed, horderly.of_append.balanced⟩
    · rw [← hevents, ← Move.pulled_account, horderly.balanced, hheld, ← hover.returned_eq]

/-- A byte is held twice and delivered again, the source fails after a carriage return, and a byte is held
in the end. -/
theorem slot_run_sample :
    let source := Script.mk ((Text.encode "WEBVTT\r\n\rA\r").map .byte ++
      .failed ⟨.other, "broken"⟩ :: (Text.encode "B\n\rC").map .byte)
    let calls := [.readHeader, .nextCue, .nextCue]
    ∃ moves, Reached { source := Recorded.ofSource source }
        ⟨(run (Recorded.ofSource source) {} calls).2.stream, moves⟩ ∧
      (∀ before b after, moves = before ++ .handedBack b :: after →
        (Move.account before).held = none ∧ Move.JustDelivered b before) ∧
      (Move.account moves).consumed = Text.encode "WEBVTT\r\n\rA\rB\n\r" := by
  intro source calls
  obtain ⟨⟨moves, hreached⟩, hall⟩ := slot_run source {} calls
  obtain ⟨hmoves, -, hbytes⟩ := hall moves hreached
  refine ⟨moves, hreached, fun before b after h ↦ (hmoves before _ after h).1, ?_⟩
  have hpulled : (pulled source {} calls).filterMap Event.byte? =
      Text.encode "WEBVTT\r\n\rA\rB\n\r" ++ [67] := by decide +kernel
  have hreturned : (run source {} calls).2.stream.returned = some 67 := by decide +kernel
  rw [hpulled, hreturned] at hbytes
  exact (List.append_inj_left' hbytes rfl).symm

end Session

end WebVTT
