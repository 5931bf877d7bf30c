import WebVTT.Proofs.LineStream.Progress
import WebVTT.Proofs.Session.CallOrder
import WebVTT.Proofs.Session.Drain
import WebVTT.Proofs.Session.Lockstep

/-!
# Draining a finite stream comes to an end

Once the header of a finite stream has been read, every cue and every error takes a byte at least, so
asking for cues comes to the end of the stream sooner or later, however many errors there are on the
way. The end is final: from then on nothing is read any more and nothing changes
(`Session.takes_of_run`).
-/

namespace WebVTT

open Reading (Leaves)
open LineStream (Left Takes)

/-! ## Before the end -/

namespace LineStream

variable {σ : Type} [Source σ]

/-- Whatever is read line by line leaves no more than there was. -/
theorem lockstep_left (n : Nat) :
    Lockstep (fun s t : LineStream σ ↦ s = t ∧ ∃ m ≤ n, s.Left m)
      (fun s t ↦ s = t ∧ ∃ m ≤ n, s.Left m) := by
  refine .of_leaves (fun _ h ↦ h) fun s ⟨k, hk, h⟩ ↦ ?_
  have htakes := h.readLine
  generalize readLine s = result at htakes ⊢
  cases htakes with
  | ended ht => exact .ok _ ⟨0, Nat.zero_le n, ht⟩
  | some text hm ht => exact .ok _ ⟨_, Nat.le_of_lt (Nat.lt_of_lt_of_le hm hk), ht⟩
  | refused e hm ht => exact .error _ ⟨_, Nat.le_of_lt (Nat.lt_of_lt_of_le hm hk), ht⟩

end LineStream

namespace Session

variable {σ : Type} [Source σ] {s : Session σ} {n : Nat}

/-- Calls leave no more than there was, from the header on. -/
theorem lockstep_left (limits : Limits) (bytes : List UInt8) :
    Lockstep (fun s t : LineStream σ ↦ s = t ∧ s.At limits 0 bytes)
      (fun s t ↦ s = t ∧ ∃ n ≤ bytes.length, s.Left n) (fun s t ↦ s = t ∧ True) where
  lines := LineStream.lockstep_left bytes.length
  header := by
    rintro s _ ⟨rfl, h⟩
    refine Leaves.alike (P := fun s : LineStream σ ↦ ∃ n ≤ bytes.length, s.Left n)
      (Q := fun _ ↦ True) ?_
    cases hread : LineStream.readHeader s with
    | error e t => exact .error _ trivial
    | ok header t =>
      have ht := (h.standsBefore_of_readHeader hread).left
      exact .ok _ ⟨_, Line.length_after_le 2 bytes, ht⟩
  line_eq_atHeader h := congrArg LineStream.line h.1
  line_eq_rejected h := congrArg LineStream.line h.1
  note := by
    rintro s _ notice ⟨rfl, n, hn, h⟩
    exact ⟨rfl, n, hn, h.note notice⟩
  note_rejected := by
    rintro s _ notice ⟨rfl, -⟩
    exact ⟨rfl, trivial⟩

/-- An attempt at a cue takes a byte at least, or comes to the end. -/
theorem takes_nextCue (hphase : s.phase = .atCues) (h : s.stream.Left n) :
    Takes (fun t m ↦ t.phase = .atCues ∧ t.stream.Left m) n (nextCue s) := by
  have htakes := h.readCue
  have hcase := cueCase_nextCue s
  generalize nextCue s = result at hcase ⊢
  cases hcase with
  | early hearly => cases hphase.symm.trans hearly
  | useless huseless => cases hphase.symm.trans huseless
  | read _ hread =>
    rw [hread] at htakes
    cases htakes with
    | ended ht => exact .ended ⟨rfl, ht.note _⟩
    | some cue hm ht => exact .some cue hm ⟨rfl, ht.note _⟩
  | refused _ hread =>
    rw [hread] at htakes
    cases htakes with
    | refused _ hm ht => exact .refused _ hm ⟨rfl, ht.note _⟩

/-- There are no more results than bytes. -/
theorem exists_drains (hphase : s.phase = .atCues) (h : s.stream.Left n) :
    ∃ results, s.Drains results ∧ results.length ≤ n := by
  induction n using Nat.strongRecOn generalizing s with
  | ind n ih =>
    have htakes := takes_nextCue hphase h
    cases hnext : nextCue s with
    | ok cue? t =>
      rw [hnext] at htakes
      cases htakes with
      | ended => exact ⟨[], .ended hnext, Nat.zero_le n⟩
      | some cue hm ht =>
        obtain ⟨results, hresults, hlength⟩ := ih _ hm ht.1 ht.2
        exact ⟨.ok cue :: results, .cue hnext hresults, Nat.lt_of_le_of_lt hlength hm⟩
    | error e t =>
      rw [hnext] at htakes
      cases htakes with
      | refused _ hm ht =>
        obtain ⟨results, hresults, hlength⟩ := ih _ hm ht.1 ht.2
        exact ⟨.error e :: results, .refused hnext hresults, Nat.lt_of_le_of_lt hlength hm⟩

end Session

/-! ## At the end -/

/-- The answer to a call where nothing is left: the end once more, and a record as it was. -/
def Call.atEnd : Call → Answer
  | readHeader => .header (.error (.violation .headerAlreadyRead))
  | cues => .begun
  | call => call.report (.ok none)

namespace Session

variable {σ : Type} [Source σ] {s t : Session σ}

/-- The end is met again, and no line is counted. -/
theorem nextCue_of_left_zero (hphase : s.phase = .atCues) (h : s.stream.Left 0) :
    ∃ t, nextCue s = .ok none t ∧ t.phase = .atCues ∧ t.stream.Left 0 ∧ t.line = s.line := by
  obtain ⟨t, hend, ht, hline⟩ := LineStream.readCue_of_left_zero h
  have hcase := cueCase_nextCue s
  generalize nextCue s = result at hcase ⊢
  cases hcase with
  | early hearly => cases hphase.symm.trans hearly
  | useless huseless => cases hphase.symm.trans huseless
  | read _ hread =>
    cases hend.symm.trans hread
    exact ⟨_, rfl, rfl, ht.note _, hline⟩
  | refused _ hread => cases hend.symm.trans hread

end Session

namespace Cues

variable {σ : Type} [Source σ] {c : Cues σ}

/-- A call at the end is answered by the end, and stays there. -/
theorem answer_of_left_zero (hphase : c.session.phase = .atCues) (h : c.session.stream.Left 0)
    (call : Call) :
    (c.answer call).1 = call.atEnd ∧ (c.answer call).2.session.phase = .atCues ∧
      (c.answer call).2.session.stream.Left 0 ∧
      (c.answer call).2.session.line = c.session.line := by
  obtain ⟨t, hend, ht⟩ := Session.nextCue_of_left_zero hphase h
  have hcase := c.callCase call
  generalize c.answer call = result at hcase ⊢
  cases hcase with
  | accepted hread =>
    rw [Session.readHeader_of_atCues hphase] at hread
    cases hread
  | rejected hread =>
    rw [Session.readHeader_of_atCues hphase] at hread
    cases hread
    exact ⟨rfl, hphase, h, rfl⟩
  | begun => exact ⟨rfl, hphase, h, rfl⟩
  | idle => exact ⟨rfl, hphase, h, rfl⟩
  | cue call finished hask hnext =>
    cases hend.symm.trans hnext
    refine ⟨?_, ht⟩
    cases call with
    | readHeader | cues => cases hask
    | nextCue | fillRecord | step => rfl
  | refused call finished _ hnext =>
    cases hend.symm.trans hnext

/-- So are calls over and over. -/
theorem run_of_left_zero (hphase : c.session.phase = .atCues) (h : c.session.stream.Left 0)
    (calls : List Call) :
    (c.run calls).1 = calls.map fun call ↦ (call.atEnd, c.session.line) := by
  induction calls generalizing c with
  | nil => rfl
  | cons call calls ih =>
    obtain ⟨hanswer, hphase, hleft, hline⟩ := answer_of_left_zero hphase h call
    rw [run_cons, ih hphase hleft, hanswer, hline]
    rfl

end Cues

/-! ## Any calls -/

namespace Session

variable {σ : Type} [Source σ] {source : σ} {limits : Limits} {bytes : List UInt8}
  {calls : List Call} {answers : List (Answer × Nat)} {s : Session σ}

/-- After any calls to a finite stream of which the header has been read, no more bytes are left than
there were. Asking for a cue takes one of them at least if a cue or an error comes of it, and none is
left if the end does. Whoever asks over and over therefore comes to the end after no more results than
bytes are left; and from the end on every call meets the end again, counts no line and leaves a record
alone. -/
theorem takes_of_run (hsource : Source.Delivers source bytes)
    (hrun : run source limits calls = (answers, s)) (hphase : s.phase = .atCues) :
    (∃ n ≤ bytes.length, s.stream.Left n) ∧
      ∀ n, s.stream.Left n →
        Takes (fun t m ↦ t.stream.Left m) n (nextCue s) ∧
        (∃ results, s.Drains results ∧ results.length ≤ n) ∧
        ∀ t, nextCue s = .ok none t → ∀ finished later,
          (Cues.run later ⟨t, finished⟩).1 = later.map fun call ↦ (call.atEnd, t.line) := by
  obtain rfl : s = (run source limits calls).2 := by rw [hrun]
  refine ⟨?_, fun n hleft ↦ ⟨(takes_nextCue hphase hleft).mono fun _ _ ht ↦ ht.2,
    exists_drains hphase hleft, fun t hnext finished later ↦ ?_⟩⟩
  · have hlast := ((lockstep_left limits bytes).run ⟨rfl, LineStream.at_ofSource hsource⟩ calls).2
    generalize (run source limits calls).2 = s at hlast hphase
    cases hlast with
    | atHeader => cases hphase
    | rejected => cases hphase
    | atCues h => exact h.2
  · have htakes := takes_nextCue hphase hleft
    rw [hnext] at htakes
    cases htakes with
    | ended ht => exact Cues.run_of_left_zero (c := ⟨t, finished⟩) ht.1 ht.2 later

/-- After a block that is refused, a cue is left that takes all bytes. -/
theorem takes_of_run_sample :
    ∃ answers s,
      run (Slice.ofString "WEBVTT\n\nA\nB\n0:1 --> 0:2\nC") {} [.readHeader, .nextCue] =
        (answers, s) ∧ (∃ n ≤ 25, s.stream.Left n) ∧
      ∀ n, s.stream.Left n →
        Takes (fun t m ↦ t.stream.Left m) n (nextCue s) ∧
          ∃ results, s.Drains results ∧ results.length ≤ n := by
  have hrun := Prod.eta (run (Slice.ofString "WEBVTT\n\nA\nB\n0:1 --> 0:2\nC") {}
    [.readHeader, .nextCue])
  obtain ⟨hleft, hall⟩ := takes_of_run (Slice.delivers_ofString _) hrun.symm (by decide +kernel)
  rw [show List.length _ = 25 by decide +kernel] at hleft
  refine ⟨_, _, hrun.symm, hleft, fun n hn ↦ ?_⟩
  obtain ⟨htakes, hdrains, -⟩ := hall n hn
  exact ⟨htakes, hdrains⟩

end Session

end WebVTT
