import WebVTT.Proofs.LineStream.ErrorLines
import WebVTT.Proofs.Session.Failures
import WebVTT.Source.Slice

/-!
# The lines that errors point to never go back

Whenever a call is answered with an error that points to a line, that line comes after all that had been
counted before the call, and at most one after those counted when the call returns
(`Cues.errorLine_answer`). So an error may point to the line that an earlier one pointed to, and never to
one before it, whatever the source does and however often the session is called after errors
(`Session.errorLines_run`).
-/

namespace WebVTT

open Reading (Leaves PointsAfter)

/-- The line that the error of an answer points to, if there is one. -/
def Answer.errorLine? (answer : Answer) : Option Nat := answer.error?.bind Error.line?

/-- The lines that the errors among these answers point to. -/
def errorLines (answers : List (Answer × Nat)) : List Nat :=
  answers.filterMap fun answer ↦ answer.1.errorLine?

/-! ## A single call -/

namespace Session

variable {σ : Type} [Source σ] {s : Session σ}

/-- Nothing has been counted where the header has not been asked for. -/
def Uncounted (s : Session σ) : Prop := s.phase = .atHeader → s.line = 0

omit [Source σ] in
/-- A call out of order points nowhere. -/
theorem pointsAfter_of_usage {α : Type} {violation : Violation} (h : violation.line? = none) :
    PointsAfter (α := α) line s.line (.error (.violation violation) s) := by
  refine .error _ (Nat.le_refl _) ?_
  intro n hn
  rw [Error.line?, h] at hn
  cases hn

theorem pointsAfter_readHeader (h : s.Uncounted) : PointsAfter line s.line (readHeader s) := by
  have hpoints := LineStream.pointsAfter_readHeader s.stream
  have hcase := headerCase_readHeader s
  generalize readHeader s = result at hcase ⊢
  cases hcase with
  | again => exact pointsAfter_of_usage rfl
  | useless => exact pointsAfter_of_usage rfl
  | accepted hphase hread =>
    rw [h hphase]
    exact .ok _ (Nat.zero_le _)
  | refused hphase hread =>
    rw [hread] at hpoints
    rw [h hphase]
    obtain ⟨hle, hline⟩ := hpoints.of_error
    exact .error _ hle hline

theorem pointsAfter_nextCue (s : Session σ) : PointsAfter line s.line (nextCue s) := by
  have hpoints := LineStream.pointsAfter_readCue s.stream
  have hcase := cueCase_nextCue s
  generalize nextCue s = result at hcase ⊢
  cases hcase with
  | early => exact pointsAfter_of_usage rfl
  | useless => exact pointsAfter_of_usage rfl
  | read _ hread =>
    rw [hread] at hpoints
    exact .ok _ hpoints.le_of_ok
  | refused _ hread =>
    rw [hread] at hpoints
    obtain ⟨hle, hline⟩ := hpoints.of_error
    exact .error _ hle hline

/-- The header is asked for once. -/
theorem uncounted_readHeader (h : s.Uncounted) :
    Leaves (fun _ ↦ Uncounted) Uncounted (readHeader s) := by
  have hcase := headerCase_readHeader s
  generalize readHeader s = result at hcase ⊢
  cases hcase with
  | again => exact .error _ h
  | useless => exact .error _ h
  | accepted => exact .ok _ nofun
  | refused => exact .error _ nofun

theorem uncounted_nextCue (h : s.Uncounted) :
    Leaves (fun _ ↦ Uncounted) Uncounted (nextCue s) := by
  have hcase := cueCase_nextCue s
  generalize nextCue s = result at hcase ⊢
  cases hcase with
  | early => exact .error _ h
  | useless => exact .error _ h
  | read => exact .ok _ nofun
  | refused => exact .error _ nofun

end Session

namespace Cues

variable {σ : Type} [Source σ] {c : Cues σ}

/-- A call counts no line off, and its error points past the lines counted before the call and to the
line after those counted by then at most. -/
theorem errorLine_answer (h : c.session.Uncounted) (call : Call) :
    (c.answer call).2.session.Uncounted ∧ c.session.line ≤ (c.answer call).2.session.line ∧
      ∀ n ∈ (c.answer call).1.errorLine?,
        c.session.line < n ∧ n ≤ (c.answer call).2.session.line + 1 := by
  have hheader := Session.pointsAfter_readHeader h
  have hcue := Session.pointsAfter_nextCue c.session
  have hheader' := Session.uncounted_readHeader h
  have hcue' := Session.uncounted_nextCue h
  have hcase := c.callCase call
  generalize c.answer call = result at hcase ⊢
  cases hcase with
  | accepted hread =>
    rw [hread] at hheader hheader'
    exact ⟨hheader'.of_ok, hheader.le_of_ok, nofun⟩
  | rejected hread =>
    rw [hread] at hheader hheader'
    exact ⟨hheader'.of_error, hheader.of_error⟩
  | begun => exact ⟨h, Nat.le_refl _, nofun⟩
  | idle => exact ⟨h, Nat.le_refl _, nofun⟩
  | cue call finished _ hnext =>
    rw [hnext] at hcue hcue'
    rw [Answer.errorLine?, Call.error?_report]
    exact ⟨hcue'.of_ok, hcue.le_of_ok, nofun⟩
  | refused call finished _ hnext =>
    rw [hnext] at hcue hcue'
    rw [Answer.errorLine?, Call.error?_report]
    exact ⟨hcue'.of_error, hcue.of_error⟩

end Cues

/-! ## Runs -/

namespace Session

variable {σ : Type} [Source σ]

/-- One call more gives one answer more, from where the calls before it have led. -/
theorem run_append_singleton (source : σ) (limits : Limits) (calls : List Call) (call : Call) :
    let c := (Cues.run calls { session := ofSource source limits }).2
    run source limits (calls ++ [call]) =
      ((run source limits calls).1 ++ [((c.answer call).1, (c.answer call).2.session.line)],
        (c.answer call).2.session) := by
  intro c
  unfold run
  rw [Cues.run_append_singleton]

/-- Nothing is counted before the header is asked for, whatever is called. -/
theorem uncounted_run (source : σ) (limits : Limits) (calls : List Call) :
    (run source limits calls).2.Uncounted := by
  have hstep : ∀ (c : Cues σ) (call : Call), c.session.Uncounted →
      True ∧ (c.answer call).2.session.Uncounted :=
    fun c call h ↦ ⟨trivial, (Cues.errorLine_answer h call).1⟩
  have hstart : (ofSource source limits).Uncounted := fun _ ↦ rfl
  exact (Cues.forall_run (c := { session := ofSource source limits }) (P := fun _ ↦ True)
    hstep hstart calls).2

/-- One call more points past the lines counted before it. -/
theorem exists_errorLine (source : σ) (limits : Limits) (calls : List Call) (call : Call) :
    ∃ answer,
      (run source limits (calls ++ [call])).1 =
        (run source limits calls).1 ++ [(answer, (run source limits (calls ++ [call])).2.line)] ∧
      (run source limits calls).2.line ≤ (run source limits (calls ++ [call])).2.line ∧
      ∀ n ∈ answer.errorLine?, (run source limits calls).2.line < n ∧
        n ≤ (run source limits (calls ++ [call])).2.line + 1 := by
  rw [run_append_singleton]
  exact ⟨_, rfl, (Cues.errorLine_answer (uncounted_run source limits calls) call).2⟩

theorem errorLines_append_singleton (answers : List (Answer × Nat)) (answer : Answer × Nat) :
    errorLines (answers ++ [answer]) = errorLines answers ++ answer.1.errorLine?.toList := by
  unfold errorLines
  rw [List.filterMap_append]
  cases hline : answer.1.errorLine? <;> simp [hline]

/-- Over any calls to any source, an error that points to a line points past the lines that were counted
before its call, and to the line after those counted by then at most. So the lines that errors point to
never go back. -/
theorem errorLines_run (source : σ) (limits : Limits) (calls : List Call) :
    (∀ call, ∃ answer,
      (run source limits (calls ++ [call])).1 =
        (run source limits calls).1 ++ [(answer, (run source limits (calls ++ [call])).2.line)] ∧
      ∀ n ∈ answer.errorLine?, (run source limits calls).2.line < n ∧
        n ≤ (run source limits (calls ++ [call])).2.line + 1) ∧
      (errorLines (run source limits calls).1).Pairwise (· ≤ ·) := by
  constructor
  · intro call
    obtain ⟨answer, hanswers, -, hline⟩ := exists_errorLine source limits calls call
    exact ⟨answer, hanswers, hline⟩
  · -- what carries the induction is that the next line to be counted is not before any of them
    suffices h : (errorLines (run source limits calls).1).Pairwise (· ≤ ·) ∧
        ∀ n ∈ errorLines (run source limits calls).1, n ≤ (run source limits calls).2.line + 1 from
      h.1
    induction calls using List.reverseRecOn with
    | nil => exact ⟨.nil, nofun⟩
    | append_singleton calls call ih =>
      obtain ⟨hpairwise, hle⟩ := ih
      obtain ⟨answer, hanswers, hmono, hline⟩ := exists_errorLine source limits calls call
      rw [hanswers, errorLines_append_singleton]
      constructor
      · refine List.pairwise_append.mpr ⟨hpairwise, ?_, ?_⟩
        · cases answer.errorLine? with
          | none => exact .nil
          | some n => exact List.pairwise_singleton _ n
        · intro m hm n hn
          have hlt := (hline n (Option.mem_toList.mp hn)).1
          exact Nat.le_trans (hle m hm) hlt
      · intro n hn
        rcases List.mem_append.mp hn with hn | hn
        · exact Nat.le_trans (hle n hn) (Nat.succ_le_succ hmono)
        · exact (hline n (Option.mem_toList.mp hn)).2

/-- What is left of a line that is too long begins a cue without text, so two errors point to it. -/
example : errorLines (run (Slice.ofString "WEBVTT\n\nABCDEFGHIJKLMNO\n0 --> 1\n\nA\n\n0\n") ⟨7, 1⟩
    [.nextCue, .readHeader, .nextCue, .cues, .step, .fillRecord {}, .nextCue]).1 = [3, 3, 7, 9] := by
  decide +kernel

end Session

end WebVTT
