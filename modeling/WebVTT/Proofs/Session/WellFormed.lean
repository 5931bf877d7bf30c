import WebVTT.Proofs.Cue.Cases
import WebVTT.Proofs.Document.Writing
import WebVTT.Proofs.LineStream.Content
import WebVTT.Proofs.Session.Calls
import WebVTT.Proofs.Session.Cases
import WebVTT.Proofs.Session.Lockstep
import WebVTT.Proofs.Timings.Reading
import WebVTT.Source.Script

/-!
# Every cue is well formed

Whatever a source delivers, and whatever failed before, a cue that is handed on could be written as it
is, and keeps to the limits (`Session.wellFormed_run`). Its lines were read as such one after the
other, so the limits bound them, and its times and settings come from a timings line that is in order.
-/

namespace WebVTT

/-- A cue that keeps to these limits: its lines of text are not too many, and neither they nor the
identifier nor a setting are too long. -/
structure Cue.Within (limits : Limits) (c : Cue) : Prop where
  identifier_le : (Text.encode c.identifier).length ≤ limits.maxLineLength.toNat
  settings_le : ∀ s ∈ c.settings, (Text.encode s.text).length ≤ limits.maxLineLength.toNat
  payload_le : ∀ text ∈ c.payload, (Text.encode text).length ≤ limits.maxLineLength.toNat
  length_payload_le : c.payload.length ≤ limits.maxPayloadLines.toNat

/-- A setting that stands in a line does not break it, and neither does a part of it. -/
theorem Setting.oneLine_of_infix {s : Setting} {line : String} (hline : OneLine line)
    (h : s.text.toList <:+: line.toList) : OneLine s.name ∧ OneLine s.value := by
  have htext : ∀ c ∈ s.text.toList, c ≠ '\n' ∧ c ≠ '\r' := fun c hc ↦ hline c (h.subset hc)
  rw [s.toList_text, List.forall_mem_append, List.forall_mem_cons] at htext
  exact ⟨htext.1, htext.2.2⟩

/-- An identifier has no arrow. -/
theorem Opening.not_hasArrow {ls : List String} {identifier line : String}
    (h : Opening ls identifier line) : ¬Timings.hasArrow identifier := by
  cases h with
  | plain => decide
  | identified _ hnone => exact hnone

/-- An identifier is empty or a line that opens the block. -/
theorem Opening.identifier_eq_or_mem {ls : List String} {identifier line : String}
    (h : Opening ls identifier line) : identifier = "" ∨ identifier ∈ ls := by
  cases h with
  | plain => exact .inl rfl
  | identified => exact .inr List.mem_cons_self

/-- The timings line is one of the lines that open the block. -/
theorem Opening.line_mem {ls : List String} {identifier line : String}
    (h : Opening ls identifier line) : line ∈ ls := by
  cases h <;> simp

namespace LineStream

variable {σ : Type} [Source σ] {s t : LineStream σ}

/-- A cue is well formed if its lines fit on lines, and are not too many. -/
theorem wellFormed_of_fitsLine {limits : Limits} {ls payload : List String} {identifier : String}
    {timings : Timings} (hopens : Opens ls identifier timings) (hpayload : Payload payload)
    (hne : payload ≠ []) (hlength : payload.length ≤ limits.maxPayloadLines.toNat)
    (hfits : ∀ text ∈ ls ++ payload, FitsLine limits text) :
    Cue.Writable ⟨identifier, timings.start, timings.stop, timings.settings, payload⟩ ∧
      Cue.Within limits ⟨identifier, timings.start, timings.stop, timings.settings, payload⟩ := by
  obtain ⟨line, hopening, hparse⟩ := hopens
  obtain ⟨hls, htexts⟩ := List.forall_mem_append.mp hfits
  have hidentifier : FitsLine limits identifier := by
    rcases hopening.identifier_eq_or_mem with rfl | hmem
    · exact fitsLine_empty limits
    · exact hls identifier hmem
  have hline : FitsLine limits line := hls line hopening.line_mem
  obtain ⟨hstart, hstop, hsettings⟩ := Timings.readable_of_parse hparse
  constructor
  · exact {
      identifier_oneLine := hidentifier.oneLine
      identifier_noArrow := fun h ↦ hopening.not_hasArrow ((Timings.hasArrow_iff identifier).mpr h)
      start := hstart
      stop := hstop
      settings := fun s hs ↦ (hsettings s hs).1
      settings_oneLine := fun s hs ↦ Setting.oneLine_of_infix hline.oneLine (hsettings s hs).2
      payload_ne_nil := hne
      payload := hpayload
      payload_oneLine := fun text htext ↦ (htexts text htext).oneLine }
  · exact {
      identifier_le := hidentifier.length_le
      settings_le := fun s hs ↦ (hline.of_infix (hsettings s hs).2).length_le
      payload_le := fun text htext ↦ (htexts text htext).length_le
      length_payload_le := hlength }

/-- A cue that is read is well formed. -/
theorem wellFormed_of_readCue {cue : Cue} (h : readCue s = .ok (some cue) t) :
    cue.Writable ∧ cue.Within s.limits := by
  obtain ⟨count, u, hblanks, hcase⟩ := exists_blockCase s
  rw [h] at hcase
  rw [← hblanks.limits_eq]
  cases hcase with
  | cue hopens hpayload hne hlength hlines =>
    exact wellFormed_of_fitsLine hopens hpayload hne hlength hlines.fitsLine

/-- Whatever is read line by line keeps the limits. -/
theorem lockstep_limits (limits : Limits) :
    Lockstep (fun s t : LineStream σ ↦ s = t ∧ s.limits = limits)
      (fun s t ↦ s = t ∧ s.limits = limits) :=
  .of_leaves (fun _ h ↦ h) fun s h ↦
    (limits_readLine s).mono (fun _ _ ht ↦ ht.trans h) fun _ ht ↦ ht.trans h

end LineStream

namespace Session

variable {σ : Type} [Source σ]

/-- Calls keep the limits. -/
theorem lockstep_limits (limits : Limits) :
    Lockstep (fun s t : LineStream σ ↦ s = t ∧ s.limits = limits)
      (fun s t ↦ s = t ∧ s.limits = limits) (fun s t ↦ s = t ∧ s.limits = limits) where
  lines := LineStream.lockstep_limits limits
  header := by
    intro s t hst
    refine (LineStream.lockstep_limits limits).readHeader
      (P := fun s t ↦ s = t ∧ s.limits = limits) (Q := fun s t ↦ s = t ∧ s.limits = limits)
      ?_ ?_ hst
    · rintro s _ ⟨rfl, hs⟩
      refine ((LineStream.kept_readBom (.refl s)).mono ?_ ?_).alike
      · exact fun _ _ ht ↦ ht.limits_eq.trans hs
      · exact fun _ ht ↦ ht.limits_eq.trans hs
    · rintro s _ ⟨rfl, hs⟩
      refine ((LineStream.kept_expectBytes _ _ _ (.refl s)).mono ?_ ?_).alike
      · exact fun _ _ ht ↦ ht.limits_eq.trans hs
      · exact fun _ ht ↦ ht.limits_eq.trans hs
  line_eq_atHeader h := congrArg LineStream.line h.1
  line_eq_rejected h := congrArg LineStream.line h.1
  note := by
    rintro s _ n ⟨rfl, hs⟩
    exact ⟨rfl, hs⟩
  note_rejected := by
    rintro s _ n ⟨rfl, hs⟩
    exact ⟨rfl, hs⟩

/-- No call changes the limits. -/
theorem limits_answer {c : Cues σ} {limits : Limits} (hlimits : c.session.stream.limits = limits)
    (call : Call) : (c.answer call).2.session.stream.limits = limits := by
  obtain ⟨⟨stream, phase⟩, finished⟩ := c
  let R (s t : LineStream σ) : Prop := s = t ∧ s.limits = limits
  have hself : Cues.WalkInStep R R R ⟨⟨stream, phase⟩, finished⟩ ⟨⟨stream, phase⟩, finished⟩ := by
    refine ⟨?_, rfl⟩
    cases phase with
    | atHeader => exact .atHeader ⟨rfl, hlimits⟩
    | atCues => exact .atCues ⟨rfl, hlimits⟩
    | rejected => exact .rejected ⟨rfl, hlimits⟩
  obtain ⟨-, hwalk⟩ := Cues.answer_eq (lockstep_limits limits) hself call
  exact hwalk.session.stream And.right And.right And.right

/-- A cue that is handed on has been read. -/
theorem exists_readCue_of_nextCue {s t : Session σ} {cue : Cue}
    (h : nextCue s = .ok (some cue) t) : ∃ u, LineStream.readCue s.stream = .ok (some cue) u := by
  have hcase := cueCase_nextCue s
  rw [h] at hcase
  cases hcase with
  | read _ hread => exact ⟨_, hread⟩

/-- Every cue that an answer hands on is well formed. -/
theorem wellFormed_answer {c : Cues σ} {limits : Limits}
    (hlimits : c.session.stream.limits = limits) (call : Call) :
    ∀ cue ∈ (c.answer call).1.cue?, cue.Writable ∧ cue.Within limits := by
  have hcase := c.callCase call
  generalize c.answer call = result at hcase
  intro cue hcue
  cases hcase with
  | accepted => cases hcue
  | rejected => cases hcue
  | begun => cases hcue
  | idle => cases hcue
  | refused =>
    rw [Call.cue?_report] at hcue
    cases hcue
  | cue call finished _ hnext =>
    rw [Call.cue?_report] at hcue
    cases hcue
    obtain ⟨u, hread⟩ := exists_readCue_of_nextCue hnext
    exact hlimits ▸ LineStream.wellFormed_of_readCue hread

/-- Whatever the source does and whatever calls came before, a cue that is handed on is well formed:
it could be written as it is, and it keeps to the limits. -/
theorem wellFormed_run {source : σ} {limits : Limits} {calls : List Call}
    {answers : List (Answer × Nat)} {s : Session σ} (hrun : run source limits calls = (answers, s))
    {answer : Answer × Nat} (hanswer : answer ∈ answers) {cue : Cue} (hcue : cue ∈ answer.1.cue?) :
    cue.Writable ∧ cue.Within limits := by
  obtain ⟨rfl, -⟩ := Prod.mk.inj hrun
  have hstep : ∀ (c : Cues σ) (call : Call), c.session.stream.limits = limits →
      (∀ cue ∈ (c.answer call).1.cue?, cue.Writable ∧ cue.Within limits) ∧
        (c.answer call).2.session.stream.limits = limits :=
    fun c call hlimits ↦ ⟨wellFormed_answer hlimits call, limits_answer hlimits call⟩
  obtain ⟨hanswers, -⟩ := Cues.forall_run (c := { session := ofSource source limits })
    (P := fun answer ↦ ∀ cue ∈ answer.cue?, cue.Writable ∧ cue.Within limits) hstep rfl calls
  exact hanswers answer hanswer cue hcue

/-- A cue that is read after a source failed and ended. -/
theorem wellFormed_run_sample :
    ∃ answers s answer,
      run (Script.mk ((Text.encode "WEBVTT\n\nA\n0:").map .byte ++
          .failed ⟨.other, "broken"⟩ :: .ended :: (Text.encode "\n0:1 --> 0:2 a:b\nB").map .byte)) {}
        [.readHeader, .nextCue, .nextCue, .nextCue, .nextCue] = (answers, s) ∧ answer ∈ answers ∧
      ∃ cue ∈ answer.1.cue?, cue.settings = [⟨"a", "b"⟩] ∧ cue.Writable ∧ cue.Within {} := by
  have hcue : ∃ answer ∈ (run (Script.mk ((Text.encode "WEBVTT\n\nA\n0:").map .byte ++
      .failed ⟨.other, "broken"⟩ :: .ended :: (Text.encode "\n0:1 --> 0:2 a:b\nB").map .byte)) {}
      [.readHeader, .nextCue, .nextCue, .nextCue, .nextCue]).1,
      ∃ cue ∈ answer.1.cue?, cue.settings = [⟨"a", "b"⟩] := by
    decide +kernel
  obtain ⟨answer, hanswer, cue, hcue, hsettings⟩ := hcue
  exact ⟨_, _, answer, (Prod.eta _).symm, hanswer, cue, hcue, hsettings,
    wellFormed_run (Prod.eta _).symm hanswer hcue⟩

end Session

end WebVTT
