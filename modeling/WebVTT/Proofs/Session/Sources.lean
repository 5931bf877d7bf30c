import WebVTT.Proofs.LineStream.Reading
import WebVTT.Proofs.Session.Lockstep
import WebVTT.Proofs.Source.Recorded

/-!
# Sources that cannot be told apart

Sessions over sources that yield the same events are answered the same, leave the same notices, and
leave their sources related as they were (`Session.run_of_bisimulation`). So to know what a session
has pulled from its source, the source may be recorded (`Session.run_recorded`).
-/

namespace WebVTT

open Reading (Alike)
open Source (Bisimulation)

namespace LineStream

variable {σ τ : Type} [Source σ] [Source τ] {B : σ → τ → Prop}
  {s : LineStream σ} {t : LineStream τ}

omit [Source σ] [Source τ] in
/-- The sources are related, and nothing else differs. -/
structure Over (B : σ → τ → Prop) (s : LineStream σ) (t : LineStream τ) : Prop where
  source : B s.source t.source
  returned_eq : s.returned = t.returned
  limits_eq : s.limits = t.limits
  line_eq : s.line = t.line
  notices_eq : s.notices = t.notices

omit [Source σ] [Source τ] in
theorem Over.note (h : Over B s t) (n : Notice) : Over B (s.note n) (t.note n) :=
  ⟨h.source, h.returned_eq, h.limits_eq, h.line_eq, congrArg (·.push n) h.notices_eq⟩

omit [Source σ] [Source τ] in
theorem Over.completeLine (bytes : ByteArray) (h : Over B s t) :
    Over B (completeLine bytes s) (completeLine bytes t) := by
  refine ⟨h.source, h.returned_eq, h.limits_eq, congrArg (· + 1) h.line_eq, ?_⟩
  show s.notices.push _ = t.notices.push _
  rw [h.notices_eq, h.line_eq]

theorem Over.next (hB : Bisimulation B) (h : Over B s t) {event : Event} {u : LineStream σ}
    (hnext : s.next = (event, u)) : ∃ v, t.next = (event, v) ∧ Over B u v := by
  obtain ⟨hevent, hsource⟩ := hB _ _ h.source
  unfold LineStream.next at hnext ⊢
  rw [← h.returned_eq]
  split at hnext
  · cases hnext
    exact ⟨_, rfl, h.source, rfl, h.limits_eq, h.line_eq, h.notices_eq⟩
  · cases hnext
    rw [hevent]
    exact ⟨_, rfl, hsource, rfl, h.limits_eq, h.line_eq, h.notices_eq⟩

theorem Over.nextIf (hB : Bisimulation B) (h : Over B s t) {expected : UInt8} {event : Event}
    {u : LineStream σ} (hnext : s.nextIf expected = (event, u)) :
    ∃ v, t.nextIf expected = (event, v) ∧ Over B u v := by
  unfold LineStream.nextIf at hnext ⊢
  cases hfirst : s.next with
  | mk first u' =>
    obtain ⟨v', hfirst', huv⟩ := h.next hB hfirst
    rw [hfirst] at hnext
    rw [hfirst']
    cases first with
    | byte b =>
      cases hnext
      refine ⟨_, rfl, ?_⟩
      split
      · exact huv
      · exact ⟨huv.source, rfl, huv.limits_eq, huv.line_eq, huv.notices_eq⟩
    | ended | failed =>
      cases hnext
      exact ⟨_, rfl, huv⟩

theorem Over.takeByte (hB : Bisimulation B) (h : Over B s t) :
    Alike (Over B) (Over B) (takeByte s) (takeByte t) := by
  unfold LineStream.takeByte
  cases hnext : s.next with
  | mk event u =>
    obtain ⟨v, hnext', huv⟩ := h.next hB hnext
    rw [hnext']
    cases event with
    | byte b => exact .ok _ huv
    | ended => exact .ok _ huv
    | failed failure => exact .error _ huv

theorem Over.takeByteIf (hB : Bisimulation B) (expected : UInt8) (h : Over B s t) :
    Alike (Over B) (Over B) (takeByteIf expected s) (takeByteIf expected t) := by
  unfold LineStream.takeByteIf
  cases hnext : s.nextIf expected with
  | mk event u =>
    obtain ⟨v, hnext', huv⟩ := h.nextIf hB hnext
    rw [hnext']
    cases event with
    | byte b => exact .ok _ huv
    | ended => exact .ok _ huv
    | failed failure => exact .error _ huv

theorem Over.finishTerminator (hB : Bisimulation B) (first : UInt8) (h : Over B s t) :
    Alike (Over B) (Over B) (finishTerminator first s) (finishTerminator first t) := by
  unfold LineStream.finishTerminator
  split
  · exact (h.takeByteIf hB lineFeed).bind fun _ _ _ h ↦ .ok _ h
  · exact .ok _ h

theorem Over.takeLineAfter (hB : Bisimulation B) (taken : ByteArray) (h : Over B s t) :
    Alike (Over B) (Over B) (takeLineAfter taken s) (takeLineAfter taken t) := by
  fun_induction LineStream.takeLineAfter taken s generalizing t with
  | case1 taken s u hnext =>
    obtain ⟨v, hnext', huv⟩ := h.next hB hnext
    rw [takeLineAfter_of_ended hnext']
    exact .ok _ huv
  | case2 taken s failure u hnext =>
    obtain ⟨v, hnext', huv⟩ := h.next hB hnext
    rw [takeLineAfter_of_failed hnext']
    exact .error _ huv
  | case3 taken s b u hnext hb _ w hfinish =>
    obtain ⟨v, hnext', huv⟩ := h.next hB hnext
    obtain ⟨x, hfinish', hwx⟩ := (huv.finishTerminator hB b).of_ok hfinish
    rw [takeLineAfter_of_terminator hnext' hb hfinish']
    exact .ok _ hwx
  | case4 taken s b u hnext hb e w hfinish =>
    obtain ⟨v, hnext', huv⟩ := h.next hB hnext
    obtain ⟨x, hfinish', hwx⟩ := (huv.finishTerminator hB b).of_error hfinish
    rw [takeLineAfter_of_unfinished hnext' hb hfinish']
    exact .error _ hwx
  | case5 taken s b u hnext hb hfull =>
    obtain ⟨v, hnext', huv⟩ := h.next hB hnext
    rw [huv.limits_eq] at hfull
    rw [takeLineAfter_of_excess hnext' hb hfull, huv.limits_eq, huv.line_eq]
    exact .error _ huv
  | case6 taken s b u hnext hb hroom ih =>
    obtain ⟨v, hnext', huv⟩ := h.next hB hnext
    rw [huv.limits_eq] at hroom
    rw [takeLineAfter_of_content hnext' hb (Nat.lt_of_not_le hroom)]
    exact ih huv

theorem lockstep_over (hB : Bisimulation B) : Lockstep (Over (σ := σ) (τ := τ) B) (Over B) where
  limits_eq := Over.limits_eq
  line_eq := Over.line_eq
  refused := id
  readLine h :=
    alike_readLine Over.line_eq id (fun bytes _ _ h ↦ h.completeLine bytes) (h.takeLineAfter hB _)

theorem Over.expectBytes (hB : Bisimulation B) (atEnd otherwise : Violation)
    (expected : List UInt8) (h : Over B s t) :
    Alike (Over B) (Over B) (expectBytes atEnd otherwise expected s)
      (expectBytes atEnd otherwise expected t) := by
  induction expected generalizing s t with
  | nil => exact .ok _ h
  | cons b expected ih =>
    unfold LineStream.expectBytes
    refine (h.takeByte hB).bind fun found? u v huv ↦ ?_
    cases found? with
    | none => exact .error _ huv
    | some found =>
      dsimp only
      split
      · exact ih huv
      · exact .error _ huv

theorem Over.readBom (hB : Bisimulation B) (h : Over B s t) :
    Alike (Over B) (Over B) (readBom s) (readBom t) := by
  unfold LineStream.readBom
  refine (h.takeByteIf hB 0xEF).bind fun taken u v huv ↦ ?_
  match taken with
  | none => exact .error _ huv
  | some false => exact .ok _ huv
  | some true => exact (huv.expectBytes hB _ _ _).bind fun _ _ _ h ↦ .ok _ h

end LineStream

namespace Session

open LineStream (Over)

variable {σ τ : Type} [Source σ] [Source τ] {B : σ → τ → Prop}

theorem lockstep_over (hB : Bisimulation B) :
    Lockstep (Over (σ := σ) (τ := τ) B) (Over B) (Over B) where
  lines := LineStream.lockstep_over hB
  header h := (LineStream.lockstep_over hB).readHeader (Over.readBom hB)
    (fun h ↦ h.expectBytes hB _ _ _) h
  line_eq_atHeader := Over.line_eq
  line_eq_rejected := Over.line_eq
  note n h := h.note n
  note_rejected n h := h.note n

/-- Sources that yield the same events are read the same by any calls, and are left related. -/
theorem run_of_bisimulation (hB : Bisimulation B) {source : σ} {source' : τ}
    (hsource : B source source') (limits : Limits) (calls : List Call) :
    (run source limits calls).1 = (run source' limits calls).1 ∧
      (run source limits calls).2.phase = (run source' limits calls).2.phase ∧
      Over B (run source limits calls).2.stream (run source' limits calls).2.stream := by
  have hstart : Over B { source, limits : LineStream σ } { source := source', limits } :=
    ⟨hsource, rfl, rfl, rfl, rfl⟩
  obtain ⟨hanswers, hlast⟩ := (lockstep_over hB).run hstart calls
  exact ⟨hanswers, hlast.phase_eq, hlast.stream id id id⟩

/-- All events that calls to a session pull from a source, the first one first. -/
def pulled (source : σ) (limits : Limits) (calls : List Call) : List Event :=
  (run (Recorded.ofSource source) limits calls).2.source.pulled

/-- A record of the events is all that a recorded source adds. -/
theorem run_recorded (source : σ) (limits : Limits) (calls : List Call) :
    (run (Recorded.ofSource source) limits calls).1 = (run source limits calls).1 ∧
      (run (Recorded.ofSource source) limits calls).2.phase = (run source limits calls).2.phase ∧
      Over (fun (s : Recorded σ) t ↦ s.source = t) (run (Recorded.ofSource source) limits calls).2.stream
        (run source limits calls).2.stream :=
  run_of_bisimulation Recorded.bisimulation rfl limits calls

end Session

end WebVTT
