import WebVTT.Session.Calls

/-!
# The ways in which a call is answered

However a session is asked for a cue, it is the same attempt, and only the form of the answer differs
(`Call.report`). So there are few ways in which a call goes (`CallCase`), and what is true of each way
is true of every answer in a run (`Cues.forall_run`).
-/

namespace WebVTT

/-! ## What answers say -/

namespace Answer

/-- The header, or why there is none, if that is what was asked for. -/
def header? : Answer → Option (Except Error Header)
  | header result => some result
  | _ => none

/-- The cue that is handed on, if there is one. -/
def cue? : Answer → Option Cue
  | cue (.ok cue?) => cue?
  | record (.ok .cue) held => some held
  | yielded (some (.ok found)) => some found
  | _ => none

/-- The error that is handed on, if there is one. -/
def error? : Answer → Option Error
  | header (.error e) | cue (.error e) | record (.error e) _ | yielded (some (.error e)) => some e
  | _ => none

/-- Whether a cue or the end of the stream is reported. -/
def reportsCue : Answer → Bool
  | cue result => result.toBool
  | record result _ => result.toBool
  | yielded none => true
  | yielded (some result) => result.toBool
  | header _ | begun => false

end Answer

namespace Call

/-- Whether a cue is asked for. -/
def asksCue : Call → Bool
  | nextCue | fillRecord _ | step => true
  | readHeader | cues => false

/-- How the outcome of an attempt at a cue is handed on. -/
def report (result : Except Error (Option Cue)) : Call → Answer
  | fillRecord record =>
    match result with
    | .ok (some cue) => .record (.ok .cue) cue
    | .ok none => .record (.ok .endOfStream) record
    | .error e => .record (.error e) record
  | step =>
    match result with
    | .ok cue? => .yielded (cue?.map .ok)
    | .error e => .yielded (some (.error e))
  | readHeader | nextCue | cues => .cue result

variable {call : Call} {result : Except Error (Option Cue)}

theorem header?_report : (call.report result).header? = none := by
  rcases result with e | _ | cue <;> cases call <;> rfl

theorem cue?_report : (call.report result).cue? = result.toOption.join := by
  rcases result with e | _ | cue <;> cases call <;> rfl

theorem error?_report : (call.report result).error? = match result with
    | .ok _ => none
    | .error e => some e := by
  rcases result with e | _ | cue <;> cases call <;> rfl

theorem reportsCue_report : (call.report result).reportsCue = result.toBool := by
  rcases result with e | _ | cue <;> cases call <;> rfl

end Call

/-! ## The ways of a call -/

variable {σ : Type} [Source σ]

/-- The ways in which a walk answers a call. -/
inductive CallCase (c : Cues σ) : Call → Answer × Cues σ → Prop where
  /-- The header is read. -/
  | accepted {header : Header} {s : Session σ} : c.session.readHeader = .ok header s →
      CallCase c .readHeader (.header (.ok header), { c with session := s })
  /-- The header is refused. -/
  | rejected {e : Error} {s : Session σ} : c.session.readHeader = .error e s →
      CallCase c .readHeader (.header (.error e), { c with session := s })
  /-- A walk begins, and nothing is read. -/
  | begun : CallCase c .cues (.begun, { c with finished := false })
  /-- The walk is finished, and nothing is read. -/
  | idle : c.finished → CallCase c .step (.yielded none, c)
  /-- A cue is read, or the end of the stream. -/
  | cue (call : Call) (finished : Bool) {cue? : Option Cue} {s : Session σ} : call.asksCue →
      c.session.nextCue = .ok cue? s → CallCase c call (call.report (.ok cue?), ⟨s, finished⟩)
  /-- A cue is refused. -/
  | refused (call : Call) (finished : Bool) {e : Error} {s : Session σ} : call.asksCue →
      c.session.nextCue = .error e s → CallCase c call (call.report (.error e), ⟨s, finished⟩)

namespace Cues

/-- There is no other way. -/
theorem callCase (c : Cues σ) (call : Call) : CallCase c call (c.answer call) := by
  cases call with
  | cues => exact .begun
  | readHeader =>
    unfold answer
    cases hread : c.session.readHeader with
    | ok header s => exact .accepted hread
    | error e s => exact .rejected hread
  | nextCue =>
    unfold answer
    cases hread : c.session.nextCue with
    | ok cue? s => exact .cue .nextCue c.finished rfl hread
    | error e s => exact .refused .nextCue c.finished rfl hread
  | fillRecord record =>
    unfold answer Session.fillRecord
    dsimp only
    cases hread : c.session.nextCue with
    | ok cue? s =>
      cases cue? with
      | none => exact .cue (.fillRecord record) c.finished rfl hread
      | some cue => exact .cue (.fillRecord record) c.finished rfl hread
    | error e s => exact .refused (.fillRecord record) c.finished rfl hread
  | step =>
    unfold answer next
    by_cases hfinished : c.finished
    · rw [if_pos hfinished]
      exact .idle hfinished
    · rw [if_neg hfinished]
      cases hread : c.session.nextCue with
      | ok cue? s =>
        cases cue? with
        | none => exact .cue .step true rfl hread
        | some cue => exact .cue .step false rfl hread
      | error e s => exact .refused .step true rfl hread

theorem run_cons (c : Cues σ) (call : Call) (calls : List Call) :
    c.run (call :: calls) = (((c.answer call).1, (c.answer call).2.session.line) ::
      ((c.answer call).2.run calls).1, ((c.answer call).2.run calls).2) := rfl

/-- What every answer keeps and says, a run keeps and all its answers say. -/
theorem forall_run {I : Cues σ → Prop} {P : Answer → Prop}
    (hstep : ∀ c call, I c → P (c.answer call).1 ∧ I (c.answer call).2) {c : Cues σ} (h : I c)
    (calls : List Call) :
    (∀ answer ∈ (c.run calls).1, P answer.1) ∧ I (c.run calls).2 := by
  induction calls generalizing c with
  | nil => exact ⟨fun _ hanswer ↦ (nomatch hanswer), h⟩
  | cons call calls ih =>
    obtain ⟨hanswer, hnext⟩ := hstep c call h
    obtain ⟨hanswers, hlast⟩ := ih hnext
    rw [run_cons]
    exact ⟨List.forall_mem_cons.mpr ⟨hanswer, hanswers⟩, hlast⟩

end Cues

end WebVTT
