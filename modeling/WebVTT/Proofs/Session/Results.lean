import Mathlib.Logic.Function.Iterate
import WebVTT.Proofs.Session.CallOrder

/-!
# The results of a session

Whoever asks a session for cues for ever gets a stream of *results*, one after the other: cues,
errors, and the end of the stream over and over. However else the session is called, it hands on just
these, in this order: all that calls change is how many have been handed on and whether the walk begun
last is finished, which is what a `Cursor` keeps (`Cursor.run_walk`).
-/

namespace WebVTT

/-! ## Asking for cues -/

namespace Session

variable {σ : Type} [Source σ] {s t : Session σ} {cue? : Option Cue} {e : Error}

/-- What asking for a cue comes to: a cue, the end of the stream, or an error. -/
def result (s : Session σ) : Except Error (Option Cue) :=
  match nextCue s with
  | .ok cue? _ => .ok cue?
  | .error e _ => .error e

/-- The session once it has been asked for a cue. -/
def asked (s : Session σ) : Session σ :=
  match nextCue s with
  | .ok _ t => t
  | .error _ t => t

/-- What asking for cues for ever comes to. -/
def results (s : Session σ) (k : Nat) : Except Error (Option Cue) := (asked^[k] s).result

theorem results_zero (s : Session σ) : s.results 0 = s.result := rfl

theorem results_succ (s : Session σ) (k : Nat) : s.results (k + 1) = s.asked.results k := rfl

theorem result_of_ok (h : nextCue s = .ok cue? t) : s.result = .ok cue? := by
  rw [result, h]

theorem asked_of_ok (h : nextCue s = .ok cue? t) : s.asked = t := by
  rw [asked, h]

theorem result_of_error (h : nextCue s = .error e t) : s.result = .error e := by
  rw [result, h]

theorem asked_of_error (h : nextCue s = .error e t) : s.asked = t := by
  rw [asked, h]

/-- Once the header has been read, asking for cues changes nothing about that. -/
theorem phase_asked (h : s.phase = .atCues) : s.asked.phase = .atCues := by
  cases hnext : nextCue s with
  | ok cue? t =>
    rw [asked_of_ok hnext]
    exact (phase_of_nextCue hnext).2
  | error e t =>
    rw [asked_of_error hnext]
    exact (category_of_nextCue h hnext).2

theorem phase_iterate_asked (h : s.phase = .atCues) (k : Nat) :
    (asked^[k] s).phase = .atCues := by
  induction k generalizing s with
  | zero => exact h
  | succ k ih => exact ih (phase_asked h)

end Session

/-! ## A single call -/

namespace Cues

variable {σ : Type} [Source σ] (c : Cues σ)

theorem answer_nextCue : c.answer .nextCue =
    (Call.nextCue.report c.session.result, { c with session := c.session.asked }) := by
  unfold answer Session.result Session.asked
  cases c.session.nextCue with
  | ok cue? s => rfl
  | error e s => rfl

theorem answer_fillRecord (record : Cue) : c.answer (.fillRecord record) =
    ((Call.fillRecord record).report c.session.result, { c with session := c.session.asked }) := by
  unfold answer Session.fillRecord Session.result Session.asked
  dsimp only
  cases c.session.nextCue with
  | ok cue? s => cases cue? <;> rfl
  | error e s => rfl

/-- A walk goes on with a cue, and is finished by anything else. -/
theorem answer_step (h : c.finished = false) : c.answer .step =
    (Call.step.report c.session.result,
      ⟨c.session.asked, c.session.result.toOption.join.isNone⟩) := by
  unfold answer Cues.next Session.result Session.asked
  rw [if_neg (by simp [h])]
  cases c.session.nextCue with
  | ok cue? s => cases cue? <;> rfl
  | error e s => rfl

/-- A walk that is finished reads nothing. -/
theorem answer_step_of_finished (h : c.finished) : c.answer .step = (.yielded none, c) := by
  unfold answer Cues.next
  rw [if_pos h]

end Cues

/-! ## Cursors -/

/-- A place in a stream of results, and the state of the walk begun last. -/
structure Cursor where
  /-- How many results have been handed on. -/
  handed : Nat := 0
  /-- Whether the walk was handed an error or the end. -/
  finished : Bool := false
deriving DecidableEq, Repr

namespace Cursor

/-- Answer a call with the next of these results if it asks for a cue. A step of a walk that is
finished does not. -/
def answer (results : Nat → Except Error (Option Cue)) (k : Cursor) : Call → Answer × Cursor
  | .readHeader => (.header (.error (.violation .headerAlreadyRead)), k)
  | .cues => (.begun, { k with finished := false })
  | .step =>
    if k.finished then
      (.yielded none, k)
    else
      (Call.step.report (results k.handed),
        ⟨k.handed + 1, (results k.handed).toOption.join.isNone⟩)
  | call => (call.report (results k.handed), { k with handed := k.handed + 1 })

/-- Answer calls one after the other, and give with each answer how many results have been handed on
by then. -/
def run (results : Nat → Except Error (Option Cue)) :
    List Call → Cursor → List (Answer × Nat) × Cursor
  | [], k => ([], k)
  | call :: calls, k =>
    let (answer, l) := k.answer results call
    let (answers, last) := run results calls l
    ((answer, l.handed) :: answers, last)

variable {σ : Type} [Source σ] {s : Session σ}

/-- The walk over a session of which this is the place. -/
def walk (s : Session σ) (k : Cursor) : Cues σ := ⟨Session.asked^[k.handed] s, k.finished⟩

/-- Handing on a result is asking for a cue once more. -/
theorem walk_succ (s : Session σ) (handed : Nat) (finished : Bool) :
    walk s ⟨handed + 1, finished⟩ = ⟨(Session.asked^[handed] s).asked, finished⟩ := by
  rw [walk, Function.iterate_succ_apply']

/-- A session answers a call as the cursor does, and moves to the same place. -/
theorem answer_walk (h : s.phase = .atCues) (k : Cursor) (call : Call) :
    (walk s k).answer call =
      ((k.answer s.results call).1, walk s (k.answer s.results call).2) := by
  obtain ⟨handed, finished⟩ := k
  cases call with
  | readHeader =>
    have hrefused := Session.readHeader_of_atCues (Session.phase_iterate_asked h handed)
    simp only [Cues.answer, walk, hrefused, answer]
  | cues => rfl
  | nextCue =>
    rw [Cues.answer_nextCue]
    show _ = (_, walk s ⟨handed + 1, finished⟩)
    rw [walk_succ]
    rfl
  | fillRecord record =>
    rw [Cues.answer_fillRecord]
    show _ = (_, walk s ⟨handed + 1, finished⟩)
    rw [walk_succ]
    rfl
  | step =>
    cases finished with
    | true => exact Cues.answer_step_of_finished _ rfl
    | false =>
      rw [Cues.answer_step _ rfl]
      show _ = (_, walk s ⟨handed + 1, _⟩)
      rw [walk_succ]
      rfl

/-- So does a session that is called over and over. -/
theorem run_walk (h : s.phase = .atCues) (calls : List Call) (k : Cursor) :
    (walk s k).run calls =
      ((k.run s.results calls).1.map fun answer ↦ (answer.1, (Session.asked^[answer.2] s).line),
        walk s (k.run s.results calls).2) := by
  induction calls generalizing k with
  | nil => rfl
  | cons call calls ih =>
    rw [Cues.run_cons, answer_walk h, ih]
    rfl

end Cursor

/-! ## The results up to the first that is no cue -/

namespace Session

variable {σ : Type} [Source σ] {s : Session σ} {cues : List Cue} {e? : Option Error}

/-- A session yields these cues, one after the other, and then this error, or its end. -/
inductive YieldsFirst : Session σ → List Cue → Option Error → Prop where
  | ended {s t : Session σ} : nextCue s = .ok none t → YieldsFirst s [] none
  | refused {s t : Session σ} {e : Error} : nextCue s = .error e t → YieldsFirst s [] (some e)
  | cue {s t : Session σ} {cue : Cue} {cues : List Cue} {e? : Option Error} :
      nextCue s = .ok (some cue) t → YieldsFirst t cues e? → YieldsFirst s (cue :: cues) e?

namespace YieldsFirst

/-- The results are the cues and then the error or the end. -/
theorem results_eq (h : YieldsFirst s cues e?) :
    (∀ k < cues.length, s.results k = .ok cues[k]?) ∧
      s.results cues.length = e?.elim (.ok none) .error := by
  induction h with
  | ended hnext => exact ⟨fun k hk ↦ absurd hk (Nat.not_lt_zero k), result_of_ok hnext⟩
  | refused hnext => exact ⟨fun k hk ↦ absurd hk (Nat.not_lt_zero k), result_of_error hnext⟩
  | cue hnext _ ih =>
    obtain ⟨hcues, hlast⟩ := ih
    rw [← asked_of_ok hnext] at hcues hlast
    refine ⟨fun k hk ↦ ?_, hlast⟩
    cases k with
    | zero => exact result_of_ok hnext
    | succ k => exact hcues k (Nat.lt_of_succ_lt_succ hk)

/-- Nothing else has such results. -/
theorem of_results (hcues : ∀ k < cues.length, s.results k = .ok cues[k]?)
    (hlast : s.results cues.length = e?.elim (.ok none) .error) : YieldsFirst s cues e? := by
  induction cues generalizing s with
  | nil =>
    cases hnext : nextCue s with
    | ok cue? t =>
      rw [List.length_nil, results_zero, result_of_ok hnext] at hlast
      cases e? with
      | none =>
        cases hlast
        exact .ended hnext
      | some e => cases hlast
    | error e t =>
      rw [List.length_nil, results_zero, result_of_error hnext] at hlast
      cases e? with
      | none => cases hlast
      | some e =>
        cases hlast
        exact .refused hnext
  | cons cue cues ih =>
    have hfirst : s.result = .ok (some cue) := hcues 0 (Nat.succ_pos _)
    cases hnext : nextCue s with
    | ok cue? t =>
      rw [result_of_ok hnext] at hfirst
      cases hfirst
      refine .cue hnext (ih (fun k hk ↦ ?_) ?_)
      · rw [← asked_of_ok hnext, ← results_succ, hcues (k + 1) (Nat.succ_lt_succ hk)]
        rfl
      · rw [← asked_of_ok hnext, ← results_succ]
        exact hlast
    | error e t =>
      rw [result_of_error hnext] at hfirst
      cases hfirst

/-- A session yields cues up to its end exactly if the results are these cues and then the end. -/
theorem none_iff : YieldsFirst s cues none ↔ ∀ k ≤ cues.length, s.results k = .ok cues[k]? := by
  constructor
  · intro h k hk
    obtain ⟨hcues, hlast⟩ := h.results_eq
    rcases Nat.lt_or_eq_of_le hk with hlt | rfl
    · exact hcues k hlt
    · rw [hlast, List.getElem?_length]
      rfl
  · intro h
    refine of_results (fun k hk ↦ h k (Nat.le_of_lt hk)) ?_
    rw [h _ (Nat.le_refl _), List.getElem?_length]
    rfl

/-- A session yields cues up to an error exactly if the results are these cues and then the error. -/
theorem some_iff {e : Error} : YieldsFirst s cues (some e) ↔
    (∀ k < cues.length, s.results k = .ok cues[k]?) ∧ s.results cues.length = .error e :=
  ⟨results_eq, fun ⟨hcues, hlast⟩ ↦ of_results hcues hlast⟩

/-- An error or the end comes up sooner or later. -/
theorem total (s : Session σ) : ∃ cues e?, YieldsFirst s cues e? := by
  cases hnext : nextCue s with
  | ok cue? t =>
    cases cue? with
    | none => exact ⟨[], none, .ended hnext⟩
    | some cue =>
      obtain ⟨cues, e?, hmore⟩ := total t
      exact ⟨cue :: cues, e?, .cue hnext hmore⟩
  | error e t => exact ⟨[], some e, .refused hnext⟩
termination_by s.stream.unread
decreasing_by exact unread_lt_of_nextCue hnext

end YieldsFirst

end Session

end WebVTT
