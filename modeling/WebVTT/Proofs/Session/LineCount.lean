import WebVTT.Proofs.LineStream.Tally
import WebVTT.Proofs.Session.Sources
import WebVTT.Source.Script

/-!
# How many lines a session counts

The line count of a session follows from the events it has pulled, whatever they are and however its
calls came out (`Session.line_run`): a session counts every line terminator it has taken and every
line that the end of the stream ended, except that a carriage return is not counted if the source
fails right after it. There the terminator is taken and the failure is handed on before the line is
counted (`Session.line_run_ne`).
-/

namespace WebVTT

open Reading (Leaves)

namespace LineStream

variable {σ : Type} [Source σ]

omit [Source σ] in
/-- Nothing has been taken yet. -/
def Fresh (limits : Limits) (s : LineStream (Recorded σ)) : Prop :=
  s.limits = limits ∧ s.line = 0 ∧ s.HasTaken []

omit [Source σ] in
/-- A preamble has been taken, and the events after it come to the lines counted. -/
def Counted (limits : Limits) (s : LineStream (Recorded σ)) : Prop :=
  ∃ hasBom, s.Accounted limits ((preamble hasBom).map .byte) 0 0

/-- Whatever is read line by line keeps the account. -/
theorem lockstep_counted (limits : Limits) :
    Lockstep (fun s t : LineStream (Recorded σ) ↦ s = t ∧ s.Counted limits)
      (fun s t ↦ s = t ∧ s.Counted limits) := by
  refine .of_leaves (fun _ h ↦ h) fun s h ↦ ?_
  obtain ⟨hasBom, h⟩ := h
  exact h.readLine.mono (fun _ _ h ↦ ⟨hasBom, h⟩) (fun _ h ↦ ⟨hasBom, h⟩)

end LineStream

namespace Session

open LineStream (Fresh Counted)

variable {σ : Type} [Source σ]

/-- Calls keep the account from the header on. -/
theorem lockstep_counted (limits : Limits) :
    Lockstep (fun s t : LineStream (Recorded σ) ↦ s = t ∧ s.Fresh limits)
      (fun s t ↦ s = t ∧ s.Counted limits) (fun s t ↦ s = t ∧ True) where
  lines := LineStream.lockstep_counted limits
  header := by
    intro s t hst
    have hlines := (LineStream.lockstep_counted (σ := σ) limits).mono
      (fun s t h ↦ (⟨h.1, trivial⟩ : s = t ∧ True))
    refine hlines.readHeader (P := fun s t ↦ s = t ∧ s.Fresh limits)
      (Q := fun s t ↦ s = t ∧ s.limits = limits ∧ s.line = 0 ∧
        ∃ hasBom : Bool, s.HasTaken ((if hasBom then [0xEF, 0xBB, 0xBF] else []).map .byte))
      ?_ ?_ hst
    · rintro s _ ⟨rfl, hlimits, hline, htaken⟩
      have hbom := htaken.readBom.and (LineStream.kept_readBom (.refl s))
      refine (hbom.mono ?_ fun _ _ ↦ trivial).alike
      rintro hasBom t ⟨ht, hkept⟩
      exact ⟨hkept.limits_eq.trans hlimits, hkept.line_eq.trans hline, hasBom, ht⟩
    · rintro s _ ⟨rfl, hlimits, hline, hasBom, htaken⟩
      rw [LineStream.readSignature_eq]
      have hsignature := (htaken.expectBytes (.unexpectedEnd 1) .missingSignature).and
        (LineStream.kept_expectBytes (.unexpectedEnd 1) .missingSignature (Text.encode "WEBVTT")
          (.refl s))
      refine (hsignature.mono ?_ fun _ _ ↦ trivial).alike
      rintro _ t ⟨ht, hkept⟩
      rw [← List.map_append] at ht
      exact ⟨hasBom, ht.accounted (hkept.limits_eq.trans hlimits) (hkept.line_eq.trans hline)⟩
  line_eq_atHeader h := congrArg LineStream.line h.1
  line_eq_rejected h := congrArg LineStream.line h.1
  note := by
    rintro s _ n ⟨rfl, hasBom, h⟩
    exact ⟨rfl, hasBom, h.note n⟩
  note_rejected := by
    rintro s _ n ⟨rfl, -⟩
    exact ⟨rfl, trivial⟩

/-- Once the header has been read, the events pulled are a preamble, events that were taken, and a
byte that was handed back, if there is one. The lines counted are the terminators among the events
taken and the lines that the end of the stream ended, but for the carriage returns right after which
the source failed. -/
theorem line_run {source : σ} {limits : Limits} {calls : List Call} {answers : List (Answer × Nat)}
    {s : Session σ} (hrun : run source limits calls = (answers, s)) (hphase : s.phase = .atCues) :
    ∃ hasBom events,
      pulled source limits calls =
        (preamble hasBom).map .byte ++ events ++ s.stream.returned.toList.map .byte ∧
      s.line + (tally limits.maxLineLength.toNat events).interrupted =
        (tally limits.maxLineLength.toNat events).terminators +
          (tally limits.maxLineLength.toNat events).unended := by
  obtain rfl : s = (run source limits calls).2 := by rw [hrun]
  have hstart : LineStream.Fresh limits { source := Recorded.ofSource source, limits } :=
    ⟨rfl, rfl, rfl⟩
  obtain ⟨-, hrecorded, hover⟩ := run_recorded source limits calls
  have hlast := ((lockstep_counted limits).run ⟨rfl, hstart⟩ calls).2
  unfold pulled Session.line Session.source
  rw [← hrecorded] at hphase
  rw [← hover.returned_eq, ← hover.line_eq]
  generalize (run (Recorded.ofSource source) limits calls).2 = s at hlast hphase
  cases hlast with
  | atHeader => cases hphase
  | rejected => cases hphase
  | atCues h =>
    obtain ⟨-, hasBom, -, events, htaken, hcomes⟩ := h
    exact ⟨hasBom, events, htaken, hcomes.lines_eq⟩

/-- A source that fails right after a carriage return, and then goes on to its end. -/
theorem line_run_sample :
    ∃ hasBom events,
      pulled (Script.mk ((Text.encode "WEBVTT\n\nA\r").map .byte ++
          .failed ⟨.other, "broken"⟩ :: (Text.encode "0:1 --> 0:2\nB").map .byte)) {}
        [.readHeader, .nextCue, .nextCue] = (preamble hasBom).map .byte ++ events ∧
      4 + (tally 65536 events).interrupted =
        (tally 65536 events).terminators + (tally 65536 events).unended := by
  have hrun := Prod.eta (run (Script.mk ((Text.encode "WEBVTT\n\nA\r").map .byte ++
    .failed ⟨.other, "broken"⟩ :: (Text.encode "0:1 --> 0:2\nB").map .byte)) {}
    [.readHeader, .nextCue, .nextCue])
  obtain ⟨hasBom, events, hpulled, hline⟩ := line_run hrun.symm (by decide +kernel)
  rw [show Session.line _ = 4 by decide +kernel] at hline
  rw [show LineStream.returned _ = none by decide +kernel] at hpulled
  exact ⟨hasBom, events, by simpa using hpulled, hline⟩

/-- The lines counted are not always the terminators taken and the lines that the stream ended. -/
theorem line_run_ne :
    ∃ answers s events,
      run (Script.mk ((Text.encode "WEBVTT\n\nA\r").map .byte ++ [.failed ⟨.other, "broken"⟩])) {}
        [.readHeader, .nextCue] = (answers, s) ∧ s.phase = .atCues ∧ s.stream.returned = none ∧
      pulled (Script.mk ((Text.encode "WEBVTT\n\nA\r").map .byte ++ [.failed ⟨.other, "broken"⟩])) {}
        [.readHeader, .nextCue] = (preamble false).map .byte ++ events ∧
      s.line ≠ (tally 65536 events).terminators + (tally 65536 events).unended :=
  ⟨_, _, (Text.encode "\n\nA\r").map .byte ++ [.failed ⟨.other, "broken"⟩], (Prod.eta _).symm,
    by decide +kernel, by decide +kernel, by decide +kernel, by decide +kernel⟩

end Session

end WebVTT
