import WebVTT.Proofs.Document.Results
import WebVTT.Proofs.LineStream.Content
import WebVTT.Proofs.Session.Notices
import WebVTT.Proofs.Timings.Bytewise
import WebVTT.Proofs.Timings.Faults

/-!
# Faults of timings are faults of lines

Whenever a session hands on a fault of timings, the last line of those that the events pulled complete
is one with an arrow, and this line is refused for just that fault (`Session.RefusedLine`). So a missing
arrow is never reported by a session, though it is the fault of a line without one. What else a fault
says is then a matter of the line, whether its bytes are scanned or its characters
(`Session.timingFaults_run`).
-/

namespace WebVTT

open Timestamp (EndsBefore OutOfRange)

/-- The last line that these events complete has this number and this text, and is a line with an arrow
that is refused for this reason. -/
structure RefusedLine (limits : Limits) (events : List Event) (line : Nat) (text : String)
    (reason : TimingFault) : Prop where
  last : (linesAmong limits.maxLineLength.toNat none [] (afterPreamble events)).getLast? =
    some (Text.encode text)
  length_eq : (linesAmong limits.maxLineLength.toNat none [] (afterPreamble events)).length = line
  hasArrow : Timings.hasArrow text
  parse_eq : Timings.parse text = .error reason

/-! ## A single call -/

/-- The timings line is the last one of the lines that open a block. -/
theorem Opening.exists_concat {ls : List String} {identifier text : String}
    (h : Opening ls identifier text) : Timings.hasArrow text ∧ ∃ before, ls = before ++ [text] := by
  cases h with
  | plain harrow => exact ⟨harrow, [], rfl⟩
  | identified _ _ harrow => exact ⟨harrow, [identifier], rfl⟩

namespace LineStream

/-- The last of some lines is read after the others. -/
theorem ReadsLines.exists_of_concat {σ : Type} [Source σ] {s u : LineStream σ} {texts : List String}
    {text : String} (h : ReadsLines s (texts ++ [text]) u) :
    ∃ t, ReadsLines s texts t ∧ LineStream.readLine t = .ok (some text) u := by
  induction texts generalizing s with
  | nil =>
    obtain ⟨t, hread, hrest⟩ := h.exists_of_cons
    obtain rfl := hrest.eq_of_nil
    exact ⟨s, .nil s, hread⟩
  | cons first texts ih =>
    obtain ⟨t, hread, hrest⟩ := h.exists_of_cons
    obtain ⟨v, hlines, hlast⟩ := ih hrest
    exact ⟨v, .cons hread hlines, hlast⟩

variable {σ : Type} [Source σ] {s t : LineStream (Recorded σ)} {limits : Limits} {hasBom : Bool}
  {before : List Event} {line : Nat} {reason : TimingFault}

theorem Tells.of_readsLines {texts : List String} (h : s.Tells limits before)
    (hlines : ReadsLines s texts t) : t.Tells limits before := by
  induction hlines with
  | nil => exact h
  | cons hread _ ih =>
    have hnext := Tells.readLine h
    rw [hread] at hnext
    exact ih hnext.of_ok

/-- A line that has just been read is the last one that the events pulled complete. -/
theorem Tells.getLast?_of_readLine {text : String} (h : s.Tells limits ((preamble hasBom).map .byte))
    (hread : LineStream.readLine s = .ok (some text) t) :
    (linesAmong limits.maxLineLength.toNat none [] (afterPreamble t.source.pulled)).getLast? =
      some (Text.encode text) := by
  have hcase := lineCase_readLine s
  rw [hread] at hcase
  cases hcase with
  | @text u bytes _ htake hdecode =>
    have htakes : ∀ taken, s.HasTaken taken →
        TakesLines limits.maxLineLength.toNat taken [] s [bytes.data.toList] u := by
      intro taken htaken
      have hline := htaken.takeLineAfter .empty (congrArg (·.maxLineLength.toNat) h.limits_eq)
      rw [htake] at hline
      exact hline.of_ok
    obtain ⟨earlier, ⟨events, htaken, hcompletes⟩, hne, -⟩ := h.take htakes (kept_of_takeLine htake)
    show (linesAmong _ none [] (afterPreamble u.source.pulled)).getLast? = _
    rw [htaken.linesAmong_eq hcompletes hne, List.getLast?_concat, Text.encode_of_fromUTF8? hdecode]

/-- A fault of timings is that of the line read last. -/
theorem Tells.exists_refusedLine (h : s.Tells limits ((preamble hasBom).map .byte))
    (hread : readCue s = .error (.violation (.invalidTimings line reason)) t) :
    ∃ text, RefusedLine limits t.source.pulled line text reason := by
  obtain ⟨count, u, hblanks, hcase⟩ := exists_blockCase s
  have hu := h.of_readsLines hblanks
  rw [hread] at hcase
  cases hcase with
  | unreadable _ _ hline => exact absurd rfl (category_of_readLine hline).2
  | @mistimed _ ls identifier text _ hopening hparse hlines =>
    obtain ⟨harrow, earlier, rfl⟩ := hopening.exists_concat
    obtain ⟨v, hbefore, hlast⟩ := hlines.exists_of_concat
    exact ⟨text, (hu.of_readsLines hbefore).getLast?_of_readLine hlast,
      (hu.of_readsLines hlines).mirrors.1.symm, harrow, hparse⟩

end LineStream

namespace Session

variable {σ : Type} [Source σ] {s t : Session (Recorded σ)} {limits : Limits} {line : Nat}
  {reason : TimingFault}

theorem Tells.exists_refusedLine (h : s.Tells limits)
    (hnext : nextCue s = .error (.violation (.invalidTimings line reason)) t) :
    ∃ text, RefusedLine limits t.source.pulled line text reason := by
  have hcase := cueCase_nextCue s
  rw [hnext] at hcase
  cases hcase with
  | refused hphase hread =>
    cases h with
    | atHeader | rejected => cases hphase
    | atCues h =>
      obtain ⟨text, htext⟩ := h.exists_refusedLine hread
      exact ⟨text, htext⟩

/-- The header has no timings. -/
theorem ne_invalidTimings_of_readHeader {σ : Type} [Source σ] {s t : Session σ} :
    readHeader s ≠ .error (.violation (.invalidTimings line reason)) t := by
  intro hread
  have hcase := headerCase_readHeader s
  rw [hread] at hcase
  cases hcase with
  | refused _ hrefused => exact (LineStream.category_of_readHeader hrefused).2 rfl

end Session

namespace Cues

variable {σ : Type} [Source σ] {c : Cues (Recorded σ)} {limits : Limits} {line : Nat}
  {reason : TimingFault}

/-- A call that hands on a fault of timings has just read the line that has it. -/
theorem exists_refusedLine_answer (h : c.session.Tells limits) (call : Call)
    (herror : (c.answer call).1.error? = some (.violation (.invalidTimings line reason))) :
    ∃ text, RefusedLine limits (c.answer call).2.session.source.pulled line text reason := by
  have hcase := c.callCase call
  generalize c.answer call = result at hcase herror ⊢
  cases hcase with
  | accepted => cases herror
  | rejected hread =>
    obtain rfl := Option.some.inj herror
    exact absurd hread Session.ne_invalidTimings_of_readHeader
  | begun => cases herror
  | idle => cases herror
  | cue =>
    rw [Call.error?_report] at herror
    cases herror
  | refused _ _ _ hnext =>
    rw [Call.error?_report] at herror
    obtain rfl := Option.some.inj herror
    exact h.exists_refusedLine hnext

end Cues

/-! ## Runs -/

namespace Session

variable {σ : Type} [Source σ]

/-- A call that hands on a fault of timings has just read the line that has it, whatever the calls
before it have come to. -/
theorem exists_refusedLine_run (source : σ) (limits : Limits) (calls : List Call) (call : Call) :
    ∃ answer, (run source limits (calls ++ [call])).1 = (run source limits calls).1 ++ [answer] ∧
      ∀ line reason, answer.1.error? = some (.violation (.invalidTimings line reason)) →
        ∃ text, RefusedLine limits (pulled source limits (calls ++ [call])) line text reason := by
  let start : Cues (Recorded σ) := { session := ofSource (Recorded.ofSource source) limits }
  have htells : (start.run calls).2.session.Tells limits := tells_run source limits calls
  have hrun := Cues.run_append_singleton calls call start
  refine ⟨(((start.run calls).2.answer call).1, ((start.run calls).2.answer call).2.session.line),
    ?_, fun line reason herror ↦ ?_⟩
  · rw [← (run_recorded source limits (calls ++ [call])).1, ← (run_recorded source limits calls).1]
    exact congrArg Prod.fst hrun
  · have hpulled : pulled source limits (calls ++ [call]) =
        ((start.run calls).2.answer call).2.session.source.pulled :=
      congrArg (fun result ↦ result.2.session.stream.source.pulled) hrun
    rw [hpulled]
    exact Cues.exists_refusedLine_answer htells call herror

/-- Asking for cues one after the other leads through the states of the session. -/
theorem run_replicate_nextCue (s : Session σ) (k : Nat) :
    (Cues.run (List.replicate k .nextCue) { session := s }).2 = { session := asked^[k] s } := by
  induction k generalizing s with
  | zero => rfl
  | succ k ih =>
    rw [List.replicate_succ, Cues.run_cons, Cues.answer_nextCue]
    exact ih s.asked

end Session

/-- What refuses a document is the answer to a call. -/
theorem Document.exists_answer_of_read {σ : Type} [Source σ] {source : σ} {limits : Limits}
    {e : Error} (h : read source limits = .error e) : ∃ calls call answer,
      (Session.run source limits (calls ++ [call])).1 =
        (Session.run source limits calls).1 ++ [answer] ∧ answer.1.error? = some e := by
  cases hheader : (Session.ofSource source limits).readHeader with
  | error e' s =>
    unfold read at h
    rw [hheader] at h
    cases h
    refine ⟨[], .readHeader, _, congrArg Prod.fst (Session.run_append_singleton ..), ?_⟩
    show (Cues.answer { session := Session.ofSource source limits } .readHeader).1.error? = _
    unfold Cues.answer
    rw [hheader]
    rfl
  | ok header s =>
    obtain ⟨cues, hcues⟩ := (read_eq_error_iff_yieldsFirst hheader).mp h
    refine ⟨.readHeader :: List.replicate cues.length .nextCue, .nextCue, _,
      congrArg Prod.fst (Session.run_append_singleton ..), ?_⟩
    have hfirst : (Cues.answer { session := Session.ofSource source limits } .readHeader).2 =
        { session := s } := by
      unfold Cues.answer
      rw [hheader]
    rw [Cues.run_cons, hfirst, Session.run_replicate_nextCue, Cues.answer_nextCue]
    show (Call.report (s.results cues.length) .nextCue).error? = _
    rw [(Session.YieldsFirst.some_iff.mp hcues).2]
    rfl

namespace Session

variable {σ : Type} [Source σ]

/-- What a session, or a document, reports of timings is so. A line is read the same byte by byte,
whatever is made of a place where there is nothing to decode, and so is a time. The character that is
reported of a line or a time is no blank and stands right after the longest time at the front of the
text, which in a line does not end with a blank; a number that is reported is 60 or more and that of a
group out of range. Any fault is that of the last line that the events pulled complete, which has an
arrow, so a missing arrow is never reported. -/
theorem timingFaults_run (source : σ) (limits : Limits) :
    (∀ spare line, Bytewise.parse spare line = Timings.parse line) ∧
      (∀ spare text, Bytewise.parseTime spare text = Time.parse text) ∧
      (∀ line c, Timings.parse line = .error (.trailingCharacter c) →
        ¬isBlank c ∧ ∃ part taken, Timings.Stretch line part ∧ EndsBefore part.toList taken c ∧
          ∀ b ∈ taken.getLast?, ¬isBlank b) ∧
      (∀ text c, Time.parse text = .error (.trailingCharacter c) →
        ¬isBlank c ∧ ∃ taken, EndsBefore text.toList taken c) ∧
      (∀ line component value, Timings.parse line = .error (.outOfRange component value) ↔
        60 ≤ value ∧ ∃ part, Timings.Stretch line part ∧
          OutOfRange (part.toList.dropWhile isBlank) component value.toNat) ∧
      (∀ text component value, Time.parse text = .error (.outOfRange component value) ↔
        60 ≤ value ∧ OutOfRange (text.toList.dropWhile isBlank) component value.toNat) ∧
      (∀ calls call, ∃ answer,
        (run source limits (calls ++ [call])).1 = (run source limits calls).1 ++ [answer] ∧
        ∀ line reason, answer.1.error? = some (.violation (.invalidTimings line reason)) →
          reason ≠ .missingArrow ∧
          ∃ text, RefusedLine limits (pulled source limits (calls ++ [call])) line text reason) ∧
      ∀ line reason,
        Document.read source limits = .error (.violation (.invalidTimings line reason)) →
          reason ≠ .missingArrow ∧
          ∃ calls text, RefusedLine limits (pulled source limits calls) line text reason := by
  refine ⟨fun _ ↦ Bytewise.parse_eq, fun _ ↦ Bytewise.parseTime_eq,
    fun _ _ ↦ Timings.exists_endsBefore_of_parse, fun _ _ ↦ Time.exists_endsBefore_of_parse,
    fun line component value ↦ ?_, fun text component value ↦ ?_, fun calls call ↦ ?_,
    fun line reason hread ↦ ?_⟩
  · rw [Timings.parse_outOfRange_iff, iff_and_self]
    rintro ⟨part, -, hrange⟩
    exact Scan.sixty_le_iff.mpr hrange.sixty_le
  · rw [Time.parse_outOfRange_iff, iff_and_self]
    exact fun hrange ↦ Scan.sixty_le_iff.mpr hrange.sixty_le
  · obtain ⟨answer, hanswer, hfault⟩ := exists_refusedLine_run source limits calls call
    refine ⟨answer, hanswer, fun line reason herror ↦ ?_⟩
    obtain ⟨text, htext⟩ := hfault line reason herror
    exact ⟨Timings.ne_missingArrow_of_parse htext.hasArrow htext.parse_eq, text, htext⟩
  · obtain ⟨calls, call, answer, hanswer, herror⟩ := Document.exists_answer_of_read hread
    obtain ⟨answer', hanswer', hfault⟩ := exists_refusedLine_run source limits calls call
    obtain rfl : answer = answer' := by simpa [hanswer] using hanswer'
    obtain ⟨text, htext⟩ := hfault line reason herror
    exact ⟨Timings.ne_missingArrow_of_parse htext.hasArrow htext.parse_eq, _, text, htext⟩

/-- Characters of more than one byte after a start time and after blanks, minutes without hours, and a
stream with such a line. -/
theorem timingFaults_run_sample :
    (∃ part taken, Timings.Stretch "1é --> 2" part ∧ EndsBefore part.toList taken 'é') ∧
      (∃ taken, EndsBefore "1.5 \t😀x".toList taken '😀') ∧
      (∃ part, Timings.Stretch "0:1 --> 0:1:60" part ∧
        OutOfRange (part.toList.dropWhile isBlank) .seconds 60) ∧
      OutOfRange "60:00".toList .minutes 60 ∧
      (∃ text, RefusedLine {} (pulled (Slice.ofString "WEBVTT\n\n1é --> 2\n") {}
        [.readHeader, .nextCue]) 3 text (.trailingCharacter 'é')) ∧
      ∃ calls text, RefusedLine {} (pulled (Slice.ofString "WEBVTT\n\n1é --> 2\n") {} calls) 3 text
        (.trailingCharacter 'é') := by
  obtain ⟨-, -, hline, htime, hlineRange, htimeRange, hcall, hread⟩ :=
    timingFaults_run (Slice.ofString "WEBVTT\n\n1é --> 2\n") {}
  obtain ⟨-, part, taken, hpart, hends, -⟩ := hline "1é --> 2" 'é' (by decide +kernel)
  obtain ⟨-, hends'⟩ := htime "1.5 \t😀x" '😀' (by decide +kernel)
  obtain ⟨-, hgroup⟩ := (hlineRange "0:1 --> 0:1:60" .seconds 60).mp (by decide +kernel)
  obtain ⟨-, hgroup'⟩ := (htimeRange "60:00" .minutes 60).mp (by decide +kernel)
  obtain ⟨answer, hanswer, hfault⟩ := hcall [.readHeader] .nextCue
  have herror : (run (Slice.ofString "WEBVTT\n\n1é --> 2\n") {}
      ([.readHeader] ++ [.nextCue])).1.getLast?.bind (·.1.error?) =
        some (.violation (.invalidTimings 3 (.trailingCharacter 'é'))) := by decide +kernel
  rw [hanswer, List.getLast?_concat] at herror
  obtain ⟨-, htext⟩ := hfault 3 (.trailingCharacter 'é') herror
  obtain ⟨-, htext'⟩ := hread 3 (.trailingCharacter 'é') (by decide +kernel)
  exact ⟨⟨part, taken, hpart, hends⟩, hends', hgroup, hgroup', htext, htext'⟩

end Session

end WebVTT
