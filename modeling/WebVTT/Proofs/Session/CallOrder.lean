import WebVTT.Proofs.Cue.Cases
import WebVTT.Proofs.Header.Reading
import WebVTT.Proofs.Session.Calls
import WebVTT.Proofs.Session.Cases
import WebVTT.Source.Script

/-!
# The order of calls

Reading itself never finds a call out of order: whatever goes wrong with a stream is put down to the
source or to the stream. Whether a call is out of order depends on how the first call for the header
was answered, if there was one (`Call.usage?`), and on nothing else; a call that is out of order is
refused and changes nothing (`Session.answer_of_run`).
-/

namespace WebVTT

/-! ## Reading finds no call out of order -/

namespace LineStream

variable {σ : Type} [Source σ] {s t : LineStream σ} {e : Error}

/-- A line is refused neither for a call out of order nor for timings. -/
theorem category_of_readLine (h : readLine s = .error e t) :
    e.category ≠ .usage ∧ e.category ≠ .format := by
  have hcase := lineCase_readLine s
  rw [h] at hcase
  cases hcase with
  | undecodable => exact ⟨nofun, nofun⟩
  | refused htake =>
    rcases error_of_takeLine htake with ⟨failure, rfl⟩ | rfl
    · exact ⟨nofun, nofun⟩
    · exact ⟨nofun, nofun⟩

theorem category_of_readCue (h : readCue s = .error e t) : e.category ≠ .usage := by
  obtain ⟨count, u, -, hcase⟩ := exists_blockCase s
  rw [h] at hcase
  cases hcase with
  | unreadable _ _ hread => exact (category_of_readLine hread).1
  | unfinished => exact nofun
  | untimed => exact nofun
  | mistimed => exact nofun
  | overfull => exact nofun
  | textless => exact nofun

/-- Bytes are not matched where the source fails, where the stream ends and where it goes on
otherwise. -/
theorem error_of_expectBytes {atEnd otherwise : Violation} {expected : List UInt8}
    (h : expectBytes atEnd otherwise expected s = .error e t) :
    (∃ failure, e = .source failure) ∨ e = .violation atEnd ∨ e = .violation otherwise := by
  induction expected generalizing s with
  | nil => cases h
  | cons b expected ih =>
    rcases Reading.error_of_bind h with htake | ⟨found?, u, -, h⟩
    · unfold takeByte at htake
      split at htake <;> cases htake
      exact .inl ⟨_, rfl⟩
    · cases found? with
      | none =>
        cases h
        exact .inr (.inl rfl)
      | some found =>
        dsimp only at h
        split at h
        · exact ih h
        · cases h
          exact .inr (.inr rfl)

theorem category_of_readBom (h : readBom s = .error e t) :
    e.category ≠ .usage ∧ e.category ≠ .format := by
  rcases Reading.error_of_bind h with htake | ⟨taken, u, -, h⟩
  · unfold takeByteIf at htake
    split at htake <;> cases htake
    exact ⟨nofun, nofun⟩
  · match taken with
    | none =>
      cases h
      exact ⟨nofun, nofun⟩
    | some false => cases h
    | some true =>
      rcases Reading.error_of_bind h with h | ⟨_, v, -, h⟩
      · rcases error_of_expectBytes h with ⟨failure, rfl⟩ | rfl | rfl
        · exact ⟨nofun, nofun⟩
        · exact ⟨nofun, nofun⟩
        · exact ⟨nofun, nofun⟩
      · cases h

theorem category_of_readSignature (h : readSignature s = .error e t) :
    e.category ≠ .usage ∧ e.category ≠ .format := by
  rcases error_of_expectBytes h with ⟨failure, rfl⟩ | rfl | rfl
  · exact ⟨nofun, nofun⟩
  · exact ⟨nofun, nofun⟩
  · exact ⟨nofun, nofun⟩

omit [Source σ] in
theorem category_of_readDescription {text : String} (h : readDescription text s = .error e t) :
    e.category ≠ .usage ∧ e.category ≠ .format := by
  by_cases hblank : ∀ c ∈ text.toList.head?, isBlank c
  · rw [readDescription_of_describes ⟨hblank, rfl⟩] at h
    cases h
  · rw [readDescription_of_not hblank] at h
    cases h
    exact ⟨nofun, nofun⟩

/-- A header is refused neither for a call out of order nor for timings. -/
theorem category_of_readHeader (h : readHeader s = .error e t) :
    e.category ≠ .usage ∧ e.category ≠ .format := by
  rcases Reading.error_of_bind h with hbom | ⟨hasBom, u, -, h⟩
  · exact category_of_readBom hbom
  rcases Reading.error_of_bind h with hsignature | ⟨_, v, -, h⟩
  · exact category_of_readSignature hsignature
  rcases Reading.error_of_bind h with hfirst | ⟨text?, w, -, h⟩
  · exact category_of_readLine hfirst
  cases text? with
  | none => cases h
  | some text =>
    rcases Reading.error_of_bind h with hdescription | ⟨description, x, -, h⟩
    · exact category_of_readDescription hdescription
    rcases Reading.error_of_bind h with hsecond | ⟨separator?, y, -, h⟩
    · exact category_of_readLine hsecond
    cases separator? with
    | none => cases h
    | some separator =>
      dsimp only at h
      split at h
      · cases h
      · cases h
        exact ⟨nofun, nofun⟩

end LineStream

/-! ## The order in which calls are due -/

/-- How the first call for the header was answered, if there was one. -/
def header? (answers : List (Answer × Nat)) : Option (Except Error Header) :=
  answers.findSome? fun answer ↦ answer.1.header?

theorem header?_cons (answer : Answer × Nat) (answers : List (Answer × Nat)) :
    header? (answer :: answers) = answer.1.header?.or (header? answers) := by
  unfold header?
  rw [List.findSome?_cons]
  cases answer.1.header? <;> rfl

namespace Call

/-- Why a call is out of order, if it is, given how the first call for the header was answered, if
there was one. -/
def usage? : Option (Except Error Header) → Call → Option Violation
  | none, call => if call.asksCue then some .headerUnread else none
  | some (.ok _), call => if call = .readHeader then some .headerAlreadyRead else none
  | some (.error _), call => if call = .cues then none else some .headerRejected

/-- The answer to a call that is refused. A record is handed back as it was. -/
def refusal (e : Error) : Call → Answer
  | readHeader => .header (.error e)
  | call => call.report (.error e)

variable {call : Call}

/-- Once the header has been read, cues may be asked for. -/
theorem usage?_ok {header : Header} (hask : call.asksCue) :
    call.usage? (some (.ok header)) = none := by
  refine if_neg ?_
  rintro rfl
  cases hask

theorem refusal_of_asksCue {e : Error} (hask : call.asksCue) :
    call.refusal e = call.report (.error e) := by
  cases call with
  | readHeader => cases hask
  | nextCue | fillRecord | cues | step => rfl

end Call

variable {σ : Type} [Source σ] {source : σ} {limits : Limits}

namespace Session

variable {s t : Session σ} {e : Error}

/-- How far a session has come follows from how the first call for the header was answered. Before
that call nothing has been read. -/
def Agrees (source : σ) (limits : Limits) : Option (Except Error Header) → Session σ → Prop
  | none, s => s = ofSource source limits
  | some (.ok _), s => s.phase = .atCues
  | some (.error _), s => s.phase = .rejected

theorem nextCue_of_rejected (h : s.phase = .rejected) :
    nextCue s = .error (.violation .headerRejected) s := by
  unfold nextCue
  rw [h]

theorem readHeader_of_rejected (h : s.phase = .rejected) :
    readHeader s = .error (.violation .headerRejected) s := by
  unfold readHeader
  rw [h]

theorem readHeader_of_atCues (h : s.phase = .atCues) :
    readHeader s = .error (.violation .headerAlreadyRead) s := by
  unfold readHeader
  rw [h]

/-- A session that has a cue, or comes to the end of the stream, has read its header. -/
theorem phase_of_nextCue {cue? : Option Cue} (h : nextCue s = .ok cue? t) :
    s.phase = .atCues ∧ t.phase = .atCues := by
  have hcase := cueCase_nextCue s
  rw [h] at hcase
  cases hcase with
  | read hphase => exact ⟨hphase, rfl⟩

/-- Once the header has been read, no cue is refused for being asked for. -/
theorem category_of_nextCue (hphase : s.phase = .atCues) (h : nextCue s = .error e t) :
    e.category ≠ .usage ∧ t.phase = .atCues := by
  have hcase := cueCase_nextCue s
  rw [h] at hcase
  cases hcase with
  | early hearly => cases hphase.symm.trans hearly
  | useless huseless => cases hphase.symm.trans huseless
  | refused _ hread => exact ⟨LineStream.category_of_readCue hread, rfl⟩

/-- The first call for the header is not refused for being made. -/
theorem category_of_readHeader (h : readHeader (ofSource source limits) = .error e t) :
    e.category ≠ .usage ∧ t.phase = .rejected := by
  have hcase := headerCase_readHeader (ofSource source limits)
  rw [h] at hcase
  cases hcase with
  | again hagain => cases hagain
  | useless huseless => cases huseless
  | refused _ hread => exact ⟨(LineStream.category_of_readHeader hread).1, rfl⟩

namespace Agrees

variable {first? : Option (Except Error Header)} {call : Call} {v : Violation}

/-- Only the first call for the header reads it. -/
theorem readHeader_ok {header : Header} (h : Agrees source limits first? s)
    (hread : readHeader s = .ok header t) : first? = none ∧ t.phase = .atCues := by
  rcases first? with _ | _ | _
  · refine ⟨rfl, ?_⟩
    obtain rfl : s = ofSource source limits := h
    obtain ⟨u, -, rfl⟩ := exists_of_readHeader_ofSource hread
    rfl
  · rw [readHeader_of_rejected h] at hread
    cases hread
  · rw [readHeader_of_atCues h] at hread
    cases hread

/-- The header is refused once, and from then on the call for it. -/
theorem readHeader_error (h : Agrees source limits first? s) (hread : readHeader s = .error e t) :
    first? = none ∧ e.category ≠ .usage ∧ t.phase = .rejected ∨
      t = s ∧ ∃ v, Call.readHeader.usage? first? = some v ∧ e = .violation v := by
  rcases first? with _ | _ | _
  · obtain rfl : s = ofSource source limits := h
    exact .inl ⟨rfl, category_of_readHeader hread⟩
  · rw [readHeader_of_rejected h] at hread
    cases hread
    exact .inr ⟨rfl, _, rfl, rfl⟩
  · rw [readHeader_of_atCues h] at hread
    cases hread
    exact .inr ⟨rfl, _, rfl, rfl⟩

/-- A cue is read, or the end of the stream, only after the header. -/
theorem nextCue_ok {cue? : Option Cue} (h : Agrees source limits first? s)
    (hnext : nextCue s = .ok cue? t) :
    (∃ header, first? = some (.ok header)) ∧ t.phase = .atCues := by
  rcases first? with _ | _ | header
  · obtain rfl : s = ofSource source limits := h
    cases hnext
  · rw [nextCue_of_rejected h] at hnext
    cases hnext
  · exact ⟨⟨header, rfl⟩, (phase_of_nextCue hnext).2⟩

/-- A cue is refused for what the stream is after a header that was read, and for being asked for
otherwise. -/
theorem nextCue_error (hask : call.asksCue) (h : Agrees source limits first? s)
    (hnext : nextCue s = .error e t) :
    (∃ header, first? = some (.ok header)) ∧ e.category ≠ .usage ∧ t.phase = .atCues ∨
      t = s ∧ ∃ v, call.usage? first? = some v ∧ e = .violation v := by
  rcases first? with _ | _ | header
  · obtain rfl : s = ofSource source limits := h
    cases hnext
    exact .inr ⟨rfl, _, if_pos hask, rfl⟩
  · rw [nextCue_of_rejected h] at hnext
    cases hnext
    refine .inr ⟨rfl, _, if_neg ?_, rfl⟩
    rintro rfl
    cases hask
  · exact .inl ⟨⟨header, rfl⟩, category_of_nextCue h hnext⟩

end Agrees

end Session

namespace Cues

open Session (Agrees ofSource)

variable {c : Cues σ} {first? : Option (Except Error Header)} {call : Call}

/-! ## A single call -/

/-- A call goes on as far as its answer tells. -/
theorem agrees_answer (h : Agrees source limits first? c.session) (call : Call) :
    Agrees source limits (first?.or (c.answer call).1.header?) (c.answer call).2.session := by
  have hcase := c.callCase call
  generalize c.answer call = result at hcase ⊢
  cases hcase with
  | accepted hread =>
    obtain ⟨rfl, hphase⟩ := h.readHeader_ok hread
    exact hphase
  | rejected hread =>
    rcases h.readHeader_error hread with ⟨rfl, -, hphase⟩ | ⟨rfl, v, hv, -⟩
    · exact hphase
    · -- A call for the header is out of order only if there was one before.
      obtain _ | first := first?
      · cases hv
      · exact h
  | begun =>
    show Agrees source limits (first?.or none) c.session
    rwa [Option.or_none]
  | idle =>
    show Agrees source limits (first?.or none) c.session
    rwa [Option.or_none]
  | cue call finished _ hnext =>
    rw [Call.header?_report, Option.or_none]
    obtain ⟨⟨header, rfl⟩, hphase⟩ := h.nextCue_ok hnext
    exact hphase
  | refused call finished hask hnext =>
    rw [Call.header?_report, Option.or_none]
    rcases h.nextCue_error hask hnext with ⟨⟨header, rfl⟩, -, hphase⟩ | ⟨rfl, -⟩
    · exact hphase
    · exact h

/-- A call is refused for being out of order exactly if it is, and then changes nothing. -/
theorem answer_of_agrees (h : Agrees source limits first? c.session)
    (hpull : call = .step → ¬c.finished) :
    match call.usage? first? with
    | some v => (c.answer call).1 = call.refusal (.violation v) ∧
        (c.answer call).2.session = c.session
    | none => ∀ e ∈ (c.answer call).1.error?, e.category ≠ .usage := by
  have hcase := c.callCase call
  generalize c.answer call = result at hcase ⊢
  cases hcase with
  | accepted hread =>
    obtain ⟨rfl, -⟩ := h.readHeader_ok hread
    exact nofun
  | rejected hread =>
    rcases h.readHeader_error hread with ⟨rfl, hcategory, -⟩ | ⟨rfl, v, hv, rfl⟩
    · rintro _ ⟨⟩
      exact hcategory
    · rw [hv]
      exact ⟨rfl, rfl⟩
  | begun =>
    rcases first? with _ | _ | _
    · exact nofun
    · exact nofun
    · exact nofun
  | idle hfinished => exact absurd hfinished (hpull rfl)
  | cue call finished hask hnext =>
    obtain ⟨⟨header, rfl⟩, -⟩ := h.nextCue_ok hnext
    rw [Call.usage?_ok hask, Call.error?_report]
    exact nofun
  | refused call finished hask hnext =>
    rcases h.nextCue_error hask hnext with ⟨⟨header, rfl⟩, hcategory, -⟩ | ⟨rfl, v, hv, rfl⟩
    · rw [Call.usage?_ok hask, Call.error?_report]
      rintro _ ⟨⟩
      exact hcategory
    · rw [hv]
      exact ⟨(Call.refusal_of_asksCue hask).symm, rfl⟩

/-- A cue, or the end of the stream, is reported only after a header that was read. -/
theorem accepted_of_reportsCue (h : Agrees source limits first? c.session)
    (hpull : call = .step → ¬c.finished) (hreports : (c.answer call).1.reportsCue) :
    ∃ header, first? = some (.ok header) := by
  have hcase := c.callCase call
  generalize c.answer call = result at hcase hreports
  cases hcase with
  | accepted => cases hreports
  | rejected => cases hreports
  | begun => cases hreports
  | idle hfinished => exact absurd hfinished (hpull rfl)
  | cue call finished _ hnext => exact (h.nextCue_ok hnext).1
  | refused =>
    rw [Call.reportsCue_report] at hreports
    cases hreports

/-! ## Runs -/

/-- Calls go on as far as their answers tell. -/
theorem agrees_run (h : Agrees source limits first? c.session) (calls : List Call) :
    Agrees source limits (first?.or (header? (c.run calls).1)) (c.run calls).2.session := by
  induction calls generalizing c first? with
  | nil =>
    show Agrees source limits (first?.or none) c.session
    rwa [Option.or_none]
  | cons call calls ih =>
    have hrest := ih (agrees_answer h call)
    rw [run_cons, header?_cons]
    rwa [Option.or_assoc] at hrest

end Cues

/-- After any calls, the answer to the first call for the header, if there was one, tells whether the
next call is out of order. If it is, it is refused for that and changes nothing, and otherwise it is
not refused for that. Nothing is read before the first call for the header, and no cue and no end of
the stream is reported before a header that was read. Steps of a finished walk are no calls. -/
theorem Session.answer_of_run {calls : List Call} {call : Call} {answers : List (Answer × Nat)}
    {c : Cues σ} (hrun : Cues.run calls { session := ofSource source limits } = (answers, c))
    (hpull : call = .step → ¬c.finished) :
    (header? answers = none → c.session = ofSource source limits) ∧
      (match call.usage? (header? answers) with
        | some v => (c.answer call).1 = call.refusal (.violation v) ∧
            (c.answer call).2.session = c.session
        | none => ∀ e ∈ (c.answer call).1.error?, e.category ≠ .usage) ∧
      ((c.answer call).1.reportsCue → ∃ header, header? answers = some (.ok header)) := by
  have hstart : Session.Agrees source limits none
      ({ session := ofSource source limits } : Cues σ).session := rfl
  have hagrees := Cues.agrees_run hstart calls
  rw [hrun, Option.none_or] at hagrees
  refine ⟨fun hnone ↦ ?_, Cues.answer_of_agrees hagrees hpull,
    Cues.accepted_of_reportsCue hagrees hpull⟩
  rwa [hnone] at hagrees

/-- After a header for which the source failed, a record is handed back as it was. -/
theorem Session.answer_of_run_sample :
    ∃ answers c,
      Cues.run [.nextCue, .readHeader, .nextCue] { session := ofSource (Script.mk
        (.failed ⟨.other, "broken"⟩ :: (Text.encode "WEBVTT").map .byte)) } = (answers, c) ∧
      (c.answer (.fillRecord { identifier := "A" })).1 =
        .record (.error (.violation .headerRejected)) { identifier := "A" } ∧
      (c.answer (.fillRecord { identifier := "A" })).2.session = c.session := by
  have hrun := Prod.eta (Cues.run [.nextCue, .readHeader, .nextCue] { session := ofSource (Script.mk
    (.failed ⟨.other, "broken"⟩ :: (Text.encode "WEBVTT").map .byte)) })
  have hheader : header? (Cues.run [.nextCue, .readHeader, .nextCue] { session := ofSource (Script.mk
      (.failed ⟨.other, "broken"⟩ :: (Text.encode "WEBVTT").map .byte)) }).1 =
      some (.error (.source ⟨.other, "broken"⟩)) := by
    rfl
  obtain ⟨-, hanswer, -⟩ := answer_of_run hrun.symm
    fun h : Call.fillRecord { identifier := "A" } = .step ↦ nomatch h
  rw [hheader] at hanswer
  exact ⟨_, _, hrun.symm, hanswer⟩

end WebVTT
