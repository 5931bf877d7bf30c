import WebVTT.Proofs.LineStream.Lockstep
import WebVTT.Session.Calls

/-!
# Sessions called in step

Sessions over streams that are read in step give the same answers to the same calls, in any order
and through all errors (`Lockstep.run`). Three relations say how the streams are related: `H` before
the header is read, `R` while cues are, and `D` once the header was refused and nothing more is read.
-/

namespace WebVTT

open Reading (Alike)

namespace Session

variable {σ τ : Type} [Source σ] [Source τ] {H R D : LineStream σ → LineStream τ → Prop}

/-- Two sessions have come equally far, and their streams are related accordingly. -/
inductive InStep (H R D : LineStream σ → LineStream τ → Prop) : Session σ → Session τ → Prop where
  | atHeader {s : LineStream σ} {t : LineStream τ} : H s t →
      InStep H R D ⟨s, .atHeader⟩ ⟨t, .atHeader⟩
  | atCues {s : LineStream σ} {t : LineStream τ} : R s t → InStep H R D ⟨s, .atCues⟩ ⟨t, .atCues⟩
  | rejected {s : LineStream σ} {t : LineStream τ} : D s t →
      InStep H R D ⟨s, .rejected⟩ ⟨t, .rejected⟩

omit [Source σ] [Source τ] in
/-- What holds of related streams holds however far the sessions have come. -/
theorem InStep.stream {s : Session σ} {t : Session τ} {P : LineStream σ → LineStream τ → Prop}
    (hst : InStep H R D s t) (hH : ∀ {s t}, H s t → P s t) (hR : ∀ {s t}, R s t → P s t)
    (hD : ∀ {s t}, D s t → P s t) : P s.stream t.stream := by
  cases hst with
  | atHeader h => exact hH h
  | atCues h => exact hR h
  | rejected h => exact hD h

omit [Source σ] [Source τ] in
theorem InStep.phase_eq {s : Session σ} {t : Session τ} (hst : InStep H R D s t) :
    s.phase = t.phase := by
  cases hst <;> rfl

/-- The header and the lines of related streams are read in step, and so often as a notice is left
the streams stay related. -/
structure Lockstep (H R D : LineStream σ → LineStream τ → Prop) : Prop where
  lines : LineStream.Lockstep R R
  header {s : LineStream σ} {t : LineStream τ} : H s t →
    Alike R D (LineStream.readHeader s) (LineStream.readHeader t)
  line_eq_atHeader {s : LineStream σ} {t : LineStream τ} : H s t → s.line = t.line
  line_eq_rejected {s : LineStream σ} {t : LineStream τ} : D s t → s.line = t.line
  note {s : LineStream σ} {t : LineStream τ} (n : Notice) : R s t → R (s.note n) (t.note n)
  note_rejected {s : LineStream σ} {t : LineStream τ} (n : Notice) : D s t →
    D (s.note n) (t.note n)

namespace Lockstep

variable {s : Session σ} {t : Session τ}

theorem line_eq (h : Lockstep H R D) (hst : InStep H R D s t) : s.line = t.line :=
  hst.stream h.line_eq_atHeader h.lines.line_eq h.line_eq_rejected

theorem readHeader (h : Lockstep H R D) (hst : InStep H R D s t) :
    Alike (InStep H R D) (InStep H R D) (Session.readHeader s) (Session.readHeader t) := by
  cases hst with
  | atCues hst => exact .error _ (.atCues hst)
  | rejected hst => exact .error _ (.rejected hst)
  | @atHeader s t hst =>
    unfold Session.readHeader
    dsimp only
    cases hread : LineStream.readHeader s with
    | ok header u =>
      obtain ⟨v, hread', huv⟩ := (h.header hst).of_ok hread
      rw [hread']
      exact .ok _ (.atCues (h.note _ huv))
    | error e u =>
      obtain ⟨v, hread', huv⟩ := (h.header hst).of_error hread
      rw [hread']
      dsimp only
      rw [h.line_eq_rejected huv]
      exact .error _ (.rejected (h.note_rejected _ huv))

theorem nextCue (h : Lockstep H R D) (hst : InStep H R D s t) :
    Alike (InStep H R D) (InStep H R D) (Session.nextCue s) (Session.nextCue t) := by
  cases hst with
  | atHeader hst => exact .error _ (.atHeader hst)
  | rejected hst => exact .error _ (.rejected hst)
  | @atCues s t hst =>
    unfold Session.nextCue
    dsimp only
    cases hread : LineStream.readCue s with
    | ok cue? u =>
      obtain ⟨v, hread', huv⟩ := (h.lines.readCue hst).of_ok hread
      rw [hread']
      cases cue? with
      | none =>
        dsimp only
        rw [h.lines.line_eq huv]
        exact .ok _ (.atCues (h.note _ huv))
      | some cue =>
        dsimp only
        rw [h.lines.line_eq huv]
        exact .ok _ (.atCues (h.note _ huv))
    | error e u =>
      obtain ⟨v, hread', huv⟩ := (h.lines.readCue hst).of_error hread
      rw [hread']
      dsimp only
      rw [h.lines.line_eq huv]
      exact .error _ (.atCues (h.note _ huv))

end Lockstep

end Session

namespace Cues

open Session (InStep Lockstep)

variable {σ τ : Type} [Source σ] [Source τ] {H R D : LineStream σ → LineStream τ → Prop}
variable {c : Cues σ} {d : Cues τ}

/-- Two walks over sessions in step are both finished or both not. -/
structure WalkInStep (H R D : LineStream σ → LineStream τ → Prop) (c : Cues σ) (d : Cues τ) :
    Prop where
  session : InStep H R D c.session d.session
  finished_eq : c.finished = d.finished

/-- Walks in step yield the same and stay in step. -/
theorem next_eq (h : Lockstep H R D) (hcd : WalkInStep H R D c d) :
    c.next.1 = d.next.1 ∧ WalkInStep H R D c.next.2 d.next.2 := by
  obtain ⟨hst, hfinished⟩ := hcd
  unfold Cues.next
  rw [hfinished]
  split
  · exact ⟨rfl, hst, hfinished⟩
  · cases hnext : c.session.nextCue with
    | ok cue? u =>
      obtain ⟨v, hnext', huv⟩ := (h.nextCue hst).of_ok hnext
      rw [hnext']
      cases cue? with
      | none => exact ⟨rfl, huv, rfl⟩
      | some cue => exact ⟨rfl, huv, rfl⟩
    | error e u =>
      obtain ⟨v, hnext', huv⟩ := (h.nextCue hst).of_error hnext
      rw [hnext']
      exact ⟨rfl, huv, rfl⟩

/-- A call is answered the same, and leaves walks in step. -/
theorem answer_eq (h : Lockstep H R D) (hcd : WalkInStep H R D c d) (call : Call) :
    (c.answer call).1 = (d.answer call).1 ∧
      WalkInStep H R D (c.answer call).2 (d.answer call).2 := by
  obtain ⟨hst, hfinished⟩ := hcd
  cases call with
  | cues => exact ⟨rfl, hst, rfl⟩
  | step =>
    obtain ⟨hyield, hwalk⟩ := next_eq h ⟨hst, hfinished⟩
    exact ⟨congrArg Answer.yielded hyield, hwalk⟩
  | readHeader =>
    unfold answer
    cases hread : c.session.readHeader with
    | ok header u =>
      obtain ⟨v, hread', huv⟩ := (h.readHeader hst).of_ok hread
      rw [hread']
      exact ⟨rfl, huv, hfinished⟩
    | error e u =>
      obtain ⟨v, hread', huv⟩ := (h.readHeader hst).of_error hread
      rw [hread']
      exact ⟨rfl, huv, hfinished⟩
  | nextCue =>
    unfold answer
    cases hnext : c.session.nextCue with
    | ok cue? u =>
      obtain ⟨v, hnext', huv⟩ := (h.nextCue hst).of_ok hnext
      rw [hnext']
      exact ⟨rfl, huv, hfinished⟩
    | error e u =>
      obtain ⟨v, hnext', huv⟩ := (h.nextCue hst).of_error hnext
      rw [hnext']
      exact ⟨rfl, huv, hfinished⟩
  | fillRecord record =>
    unfold answer Session.fillRecord
    dsimp only
    cases hnext : c.session.nextCue with
    | ok cue? u =>
      obtain ⟨v, hnext', huv⟩ := (h.nextCue hst).of_ok hnext
      rw [hnext']
      cases cue? with
      | none => exact ⟨rfl, huv, hfinished⟩
      | some cue => exact ⟨rfl, huv, hfinished⟩
    | error e u =>
      obtain ⟨v, hnext', huv⟩ := (h.nextCue hst).of_error hnext
      rw [hnext']
      exact ⟨rfl, huv, hfinished⟩

/-- Calls are answered the same, one after the other, with the same numbers of lines. -/
theorem run_eq (h : Lockstep H R D) (hcd : WalkInStep H R D c d) (calls : List Call) :
    (c.run calls).1 = (d.run calls).1 ∧ WalkInStep H R D (c.run calls).2 (d.run calls).2 := by
  induction calls generalizing c d with
  | nil => exact ⟨rfl, hcd⟩
  | cons call calls ih =>
    obtain ⟨hanswer, hwalk⟩ := answer_eq h hcd call
    obtain ⟨hrest, hlast⟩ := ih hwalk
    refine ⟨?_, hlast⟩
    unfold run
    dsimp only
    rw [hanswer, h.line_eq hwalk.session, hrest]

end Cues

/-- Sessions that start in step are answered the same throughout, and end in step. -/
theorem Session.Lockstep.run {σ τ : Type} [Source σ] [Source τ]
    {H R D : LineStream σ → LineStream τ → Prop} {source : σ} {source' : τ} {limits : Limits}
    (h : Lockstep H R D) (hstart : H { source, limits } { source := source', limits })
    (calls : List Call) :
    (Session.run source limits calls).1 = (Session.run source' limits calls).1 ∧
      InStep H R D (Session.run source limits calls).2 (Session.run source' limits calls).2 := by
  have hwalk : Cues.WalkInStep H R D { session := ofSource source limits }
      { session := ofSource source' limits } := ⟨.atHeader hstart, rfl⟩
  obtain ⟨hanswers, hlast⟩ := Cues.run_eq h hwalk calls
  exact ⟨hanswers, hlast.session⟩

end WebVTT
