import Mathlib.Data.List.Induction
import WebVTT.Proofs.LineStream.Failures
import WebVTT.Proofs.Session.Calls
import WebVTT.Proofs.Session.Cases
import WebVTT.Proofs.Session.Sources

/-!
# Failures are handed on

Every failure of a source is the error of the call during which it was pulled, and that call pulls
nothing after it. So over any calls the failures handed on are the failures pulled, as they came and in
the same order (`Session.failures_run`).
-/

namespace WebVTT

/-- The failure of the source that is handed on, if there is one. -/
def Answer.failure? (answer : Answer) : Option Failure := answer.error?.bind Error.failure?

/-! ## A single call -/

namespace Session

variable {σ : Type} [Source σ] {s : Session (Recorded σ)} {before : List Event}

theorem pulledAfter_readHeader (h : s.stream.PulledAfter before none) :
    match readHeader s with
    | .ok _ t => t.stream.PulledAfter before none
    | .error e t => t.stream.PulledAfter before e.failure? := by
  have hheader := h.readHeader
  have hcase := headerCase_readHeader s
  generalize readHeader s = result at hcase ⊢
  cases hcase with
  | again => exact h
  | useless => exact h
  | accepted _ hread =>
    rw [hread] at hheader
    exact hheader.of_ok
  | refused _ hread =>
    rw [hread] at hheader
    exact hheader.of_error

theorem pulledAfter_nextCue (h : s.stream.PulledAfter before none) :
    match nextCue s with
    | .ok _ t => t.stream.PulledAfter before none
    | .error e t => t.stream.PulledAfter before e.failure? := by
  have hcue := h.readCue
  have hcase := cueCase_nextCue s
  generalize nextCue s = result at hcase ⊢
  cases hcase with
  | early => exact h
  | useless => exact h
  | read _ hread =>
    rw [hread] at hcue
    exact hcue.of_ok
  | refused _ hread =>
    rw [hread] at hcue
    exact hcue.of_error

end Session

namespace Cues

variable {σ : Type} [Source σ]

/-- A call pulls up to the first failure, and hands it on. -/
theorem pulledAfter_answer {c : Cues (Recorded σ)} {before : List Event}
    (h : c.session.stream.PulledAfter before none) (call : Call) :
    (c.answer call).2.session.stream.PulledAfter before (c.answer call).1.failure? := by
  have hheader := Session.pulledAfter_readHeader h
  have hcue := Session.pulledAfter_nextCue h
  have hcase := c.callCase call
  generalize c.answer call = result at hcase ⊢
  cases hcase with
  | accepted hread =>
    rw [hread] at hheader
    exact hheader
  | rejected hread =>
    rw [hread] at hheader
    exact hheader
  | begun => exact h
  | idle => exact h
  | cue call finished _ hnext =>
    rw [hnext] at hcue
    rw [Answer.failure?, Call.error?_report]
    exact hcue
  | refused call finished _ hnext =>
    rw [hnext] at hcue
    rw [Answer.failure?, Call.error?_report]
    exact hcue

/-- The last call is made where the calls before it have led. -/
theorem run_append_singleton (calls : List Call) (call : Call) (c : Cues σ) :
    c.run (calls ++ [call]) =
      ((c.run calls).1 ++
          [(((c.run calls).2.answer call).1, ((c.run calls).2.answer call).2.session.line)],
        ((c.run calls).2.answer call).2) := by
  induction calls generalizing c with
  | nil => rfl
  | cons first calls ih =>
    rw [List.cons_append, run_cons, run_cons, ih]
    rfl

end Cues

/-! ## Runs -/

namespace Session

variable {σ : Type} [Source σ]

/-- One call more gives one answer more and pulls some more events, which end in the failure that the
answer hands on, if it does. -/
theorem exists_answer (source : σ) (limits : Limits) (calls : List Call) (call : Call) :
    ∃ answer events,
      (run source limits (calls ++ [call])).1 = (run source limits calls).1 ++ [answer] ∧
      pulled source limits (calls ++ [call]) = pulled source limits calls ++ events ∧
      EndIn answer.1.failure? events := by
  -- the record tells what is pulled, and the answers are those of the source itself
  let start : Cues (Recorded σ) := { session := ofSource (Recorded.ofSource source) limits }
  have hstart : (start.run calls).2.session.stream.PulledAfter (pulled source limits calls) none :=
    ⟨[], (List.append_nil _).symm, .nil⟩
  obtain ⟨events, hpulled, hend⟩ := Cues.pulledAfter_answer hstart call
  have hrun := Cues.run_append_singleton calls call start
  refine ⟨(((start.run calls).2.answer call).1, ((start.run calls).2.answer call).2.session.line),
    events, ?_, ?_, hend⟩
  · rw [← (run_recorded source limits (calls ++ [call])).1, ← (run_recorded source limits calls).1]
    exact congrArg Prod.fst hrun
  · rw [← hpulled]
    exact congrArg (fun result ↦ result.2.session.stream.source.pulled) hrun

/-- Over any calls to any source, the failures handed on are the failures pulled, each once, as it
came, and in the same order. A failure is handed on by the call during which it was pulled; that call
pulls nothing after it, and a call that pulls none hands on none. -/
theorem failures_run (source : σ) (limits : Limits) (calls : List Call) :
    ((run source limits calls).1.filterMap fun answer ↦ answer.1.failure?) =
        (pulled source limits calls).filterMap Event.failure? ∧
      ∀ call, ∃ answer events,
        (run source limits (calls ++ [call])).1 = (run source limits calls).1 ++ [answer] ∧
        pulled source limits (calls ++ [call]) = pulled source limits calls ++ events ∧
        EndIn answer.1.failure? events := by
  refine ⟨?_, exists_answer source limits calls⟩
  induction calls using List.reverseRecOn with
  | nil => rfl
  | append_singleton calls call ih =>
    obtain ⟨answer, events, hanswer, hpulled, hend⟩ := exists_answer source limits calls call
    rw [hanswer, hpulled, List.filterMap_append, List.filterMap_append, ih, hend.filterMap_eq]
    cases hfailure : answer.1.failure? <;> simp [hfailure]

end Session

end WebVTT
