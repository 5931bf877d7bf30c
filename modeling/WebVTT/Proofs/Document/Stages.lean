import Mathlib
import WebVTT.Proofs.Document.Reading

/-!
# Reading a document line by line

Between two lines, what has been read of a document leaves one of a few `Stage`s. Each line leads
from one to another, and perhaps completes a cue, or is refused; `scan` goes through all lines of a
stream in this way and counts them. That is what reading a document comes to, with the same cues or
the same violation and after the same number of lines (`Document.read_eq_scan`). So what is to be
known of reading under limits can be seen line by line.
-/

namespace WebVTT

/-! ## Stages -/

/-- Where reading stands between two lines. -/
inductive Stage where
  /-- The rest of the signature line comes next. -/
  | signature
  /-- The line after the signature line comes next. -/
  | separator
  /-- No cue has begun. -/
  | between
  /-- An identifier was read. -/
  | identified (identifier : String)
  /-- Timings were read, of a cue that began on line `first`, and so much of its text. -/
  | collecting (first : Nat) (cue : Cue)

namespace Stage

/-- What the timings line of a cue leads to that began on line `first`. -/
def timed (identifier : String) (first line : Nat) (text : String) :
    Except Violation (Option Cue × Stage) :=
  match Timings.parse text with
  | .error reason => .error (.invalidTimings line reason)
  | .ok { start, stop, settings } =>
    .ok (none, .collecting first { identifier, start, stop, settings })

/-- What a line of this text leads to: a cue, if it completes one, and the stage after it. -/
def next (line : Nat) : Stage → String → Except Violation (Option Cue × Stage)
  | signature, text =>
    if ∀ c ∈ text.toList.head?, isBlank c then .ok (none, separator)
    else .error (.invalidSignatureLine line)
  | separator, text =>
    if text = "" then .ok (none, between) else .error (.missingHeaderSeparator line)
  | between, text =>
    if text = "" then .ok (none, between)
    else if Timings.hasArrow text then timed "" line line text
    else .ok (none, identified text)
  | identified identifier, text =>
    if Timings.hasArrow text then timed identifier (line - 1) line text
    else .error (.missingTimings line)
  | collecting first cue, text =>
    if text = "" then
      if cue.payload = [] then .error (.emptyPayload first) else .ok (some cue, between)
    else .ok (none, collecting first { cue with payload := cue.payload ++ [text] })

/-- What the end of the stream leads to after so many lines: a cue, if it completes one. -/
def finish (line : Nat) : Stage → Except Violation (Option Cue)
  | signature | separator | between => .ok none
  | identified _ => .error (.unexpectedEnd (line + 1))
  | collecting first cue =>
    if cue.payload = [] then .error (.emptyPayload first) else .ok (some cue)

/-- Which line of text of its cue a line is; any other line is the zeroth. -/
def ordinal : Stage → String → Nat
  | collecting _ cue, text => if text = "" then 0 else cue.payload.length + 1
  | _, _ => 0

end Stage

/-! ## Going through the lines -/

/-- The cues or the violation found in some lines, and the number of lines read by then. -/
abbrev Scanned := Except Violation (List Cue) × Nat

/-- With a cue found before, if there is one. -/
def Scanned.after (cue? : Option Cue) (found : Scanned) : Scanned :=
  (found.1.map (cue?.toList ++ ·), found.2)

@[simp] theorem Scanned.after_none (found : Scanned) : found.after none = found := by
  obtain ⟨_ | _, _⟩ := found <;> rfl

/-- What is found with an attempt at a cue that comes out like this after so many lines, given what
is found after a cue. -/
def Scanned.ofAttempt (line : Nat) (found : Scanned) : Except Violation (Option Cue) → Scanned
  | .ok none => (.ok [], line)
  | .ok (some cue) => found.after (some cue)
  | .error v => (.error v, line)

/-- What is found from a stage on, after so many lines. -/
def scan (limits : Limits) : Stage → Nat → List LineRead → Scanned
  | stage, line, [] => ((stage.finish line).map Option.toList, line)
  | _, line, .error f :: _ => (.error (f.violation limits (line + 1)), line + f.counted)
  | stage, line, .ok text :: rs =>
    if limits.maxPayloadLines.toNat < stage.ordinal text then
      (.error (.tooManyPayloadLines (line + 1) limits.maxPayloadLines), line + 1)
    else
      match stage.next (line + 1) text with
      | .error v => (.error v, line + 1)
      | .ok (cue?, stage) => (scan limits stage (line + 1) rs).after cue?

section Scan

variable {limits : Limits} {stage stage' : Stage} {line : Nat} {text : String} {rs : List LineRead}

/-- A line that is not one too many leads where its text does. -/
theorem scan_cons (line : Nat) (rs : List LineRead)
    (hroom : stage.ordinal text ≤ limits.maxPayloadLines.toNat) :
    scan limits stage line (.ok text :: rs) =
      match stage.next (line + 1) text with
      | .error v => (.error v, line + 1)
      | .ok (cue?, stage) => (scan limits stage (line + 1) rs).after cue? := by
  rw [scan, if_neg (Nat.not_lt.mpr hroom)]

theorem scan_of_lt (hfull : limits.maxPayloadLines.toNat < stage.ordinal text) :
    scan limits stage line (.ok text :: rs) =
      (.error (.tooManyPayloadLines (line + 1) limits.maxPayloadLines), line + 1) := by
  rw [scan, if_pos hfull]

/-- Going through lines never goes back. -/
theorem le_scan (limits : Limits) (stage : Stage) (line : Nat) (rs : List LineRead) :
    line ≤ (scan limits stage line rs).2 := by
  induction rs generalizing stage line with
  | nil => exact Nat.le_refl _
  | cons r rs ih =>
    cases r with
    | error f => exact Nat.le_add_right _ _
    | ok text =>
      rw [scan]
      split
      · exact Nat.le_succ _
      · split
        · exact Nat.le_succ _
        · exact Nat.le_of_succ_le (ih _ _)

/-! ## Cues -/

variable {identifier : String} {ls : List String}

/-- A line that is neither empty nor a timings line is an identifier, where no cue has begun. -/
theorem scan_identifier (hne : identifier ≠ "") (harrow : ¬Timings.hasArrow identifier) (line : Nat)
    (rs : List LineRead) :
    scan limits .between line (.ok identifier :: rs) =
      scan limits (.identified identifier) (line + 1) rs := by
  rw [scan_cons line rs (Nat.zero_le _), Stage.next, if_neg hne, if_neg harrow]
  exact Scanned.after_none _

/-- A block opens with lines that lead to its timings. -/
theorem scan_opening (h : Opening ls identifier text) (line : Nat) (rs : List LineRead) :
    scan limits .between line (ls.map .ok ++ rs) =
      match Stage.timed identifier (line + 1) (line + ls.length) text with
      | .error v => (.error v, line + ls.length)
      | .ok (cue?, stage) => (scan limits stage (line + ls.length) rs).after cue? := by
  cases h with
  | plain harrow =>
    rw [List.map_cons, List.cons_append, scan_cons line _ (Nat.zero_le _), Stage.next,
      if_neg (ne_empty_of_hasArrow harrow), if_pos harrow]
    rfl
  | identified hne hfirst harrow =>
    rw [List.map_cons, List.cons_append, scan_identifier hne hfirst, List.map_cons,
      List.cons_append, scan_cons _ _ (Nat.zero_le _), Stage.next, if_pos harrow]
    rfl

/-- After an opening that is in order, text is collected. -/
theorem scan_opens {timings : Timings} (h : Opens ls identifier timings) (line : Nat)
    (rs : List LineRead) :
    scan limits .between line (ls.map .ok ++ rs) =
      scan limits (.collecting (line + 1)
        ⟨identifier, timings.start, timings.stop, timings.settings, []⟩) (line + ls.length) rs := by
  obtain ⟨text, hopening, hparse⟩ := h
  rw [scan_opening hopening, Stage.timed, hparse]
  exact Scanned.after_none _

/-- Text within the limit is collected line by line. -/
theorem scan_payload {payload : List String} {first : Nat} {cue : Cue} (hpayload : Payload payload)
    (hlength : cue.payload.length + payload.length ≤ limits.maxPayloadLines.toNat)
    (rs : List LineRead) :
    scan limits (.collecting first cue) line (payload.map .ok ++ rs) =
      scan limits (.collecting first { cue with payload := cue.payload ++ payload })
        (line + payload.length) rs := by
  induction payload generalizing cue line with
  | nil => simp
  | cons text payload ih =>
    obtain ⟨htext, hpayload⟩ := List.forall_mem_cons.mp hpayload
    rw [List.length_cons] at hlength
    have hroom : (Stage.collecting first cue).ordinal text ≤ limits.maxPayloadLines.toNat := by
      rw [Stage.ordinal, if_neg htext]
      omega
    rw [List.map_cons, List.cons_append, scan_cons line _ hroom, Stage.next, if_neg htext]
    dsimp only
    rw [Scanned.after_none,
      ih hpayload (by simp only [List.length_append, List.length_singleton]; omega)]
    simp [Nat.add_comm, Nat.add_left_comm]

/-- The line of text that is one too many is refused. -/
theorem scan_overfull {payload : List String} {first : Nat} {cue : Cue} (hpayload : Payload payload)
    (hcue : cue.payload = []) (hlength : payload.length = limits.maxPayloadLines.toNat + 1)
    (rs : List LineRead) :
    scan limits (.collecting first cue) line (payload.map .ok ++ rs) =
      (.error (.tooManyPayloadLines (line + payload.length) limits.maxPayloadLines),
        line + payload.length) := by
  obtain rfl | ⟨payload, last, rfl⟩ := List.eq_nil_or_concat payload
  · simp at hlength
  rw [List.concat_eq_append] at *
  obtain ⟨hpayload, hlast⟩ := List.forall_mem_append.mp hpayload
  simp only [List.length_append, List.length_singleton, Nat.add_right_cancel_iff] at hlength
  rw [List.map_append, List.append_assoc, scan_payload hpayload (by simp [hcue, hlength]),
    List.map_singleton, List.singleton_append, scan_of_lt]
  · simp [Nat.add_assoc]
  · rw [Stage.ordinal, if_neg (hlast last List.mem_cons_self)]
    simp [hcue, hlength]

/-- Where a block is over, so is its cue, if there is any text. -/
theorem scan_closing {first closing : Nat} {cue : Cue} {rs' : List LineRead}
    (h : Closing rs closing rs') :
    scan limits (.collecting first cue) line rs =
      if cue.payload = [] then (.error (.emptyPayload first), line + closing)
      else (scan limits .between (line + closing) rs').after (some cue) := by
  cases h with
  | ended =>
    rw [scan, Stage.finish]
    split <;> rfl
  | blank =>
    rw [scan_cons line _ (Nat.zero_le _), Stage.next, if_pos rfl]
    by_cases hempty : cue.payload = []
    · rw [if_pos hempty, if_pos hempty]
    · rw [if_neg hempty, if_neg hempty]

/-- Going through the lines of an attempt at a cue comes out as the grammar has it. -/
theorem CueRead.scan_eq {out : Except Violation (Option Cue)} {line' : Nat} {rs' : List LineRead}
    (h : CueRead limits line rs out line' rs') :
    scan limits .between line rs = .ofAttempt line' (scan limits .between line' rs') out := by
  induction h with
  | ended line => rfl
  | @blank line _ rs _ _ _ ih =>
    rw [← ih, scan_cons line rs (Nat.zero_le _)]
    exact Scanned.after_none _
  | unreadable hbegun =>
    cases hbegun with
    | nothing => rfl
    | identifier hne harrow =>
      rw [List.map_cons, List.cons_append, scan_identifier hne harrow]
      rfl
    | payload hopens hpayload hlength =>
      rw [List.map_append, List.append_assoc, scan_opens hopens,
        scan_payload hpayload (by simpa using hlength), scan, List.length_append, ← Nat.add_assoc]
      rfl
  | unfinished hne harrow =>
    rw [scan_identifier hne harrow]
    rfl
  | untimed hne harrow hsecond =>
    rw [scan_identifier hne harrow, scan_cons _ _ (Nat.zero_le _), Stage.next, if_neg hsecond]
    rfl
  | mistimed hopening hparse =>
    rw [scan_opening hopening, Stage.timed, hparse]
    rfl
  | overfull hopens hpayload hlength =>
    rw [List.map_append, List.append_assoc, scan_opens hopens, scan_overfull hpayload rfl hlength]
    rfl
  | textless hopens hclosing =>
    rw [scan_opens hopens, scan_closing hclosing, if_pos rfl]
    rfl
  | cue hopens hpayload hne hlength hclosing =>
    rw [List.map_append, List.append_assoc, scan_opens hopens,
      scan_payload hpayload (by simpa using hlength), scan_closing hclosing,
      if_neg (by simpa using hne)]
    rfl

/-! ## Headers -/

/-- A header that is accepted leads to the cues. -/
theorem HeaderRead.scan_of_ok {description : String} {rs' : List LineRead}
    (h : HeaderRead limits rs (.ok description) line rs') :
    scan limits .signature 0 rs = scan limits .between line rs' := by
  cases h with
  | bare => rfl
  | unended htext =>
    rw [scan_cons _ _ (Nat.zero_le _), Stage.next, if_pos htext.1]
    rfl
  | complete htext =>
    rw [scan_cons _ _ (Nat.zero_le _), Stage.next, if_pos htext.1]
    dsimp only
    rw [Scanned.after_none, scan_cons _ _ (Nat.zero_le _), Stage.next, if_pos rfl]
    exact Scanned.after_none _

/-- A header that is refused is refused line by line. -/
theorem HeaderRead.scan_of_error {v : Violation} {rs' : List LineRead}
    (h : HeaderRead limits rs (.error v) line rs') :
    scan limits .signature 0 rs = (.error v, line) := by
  cases h with
  | unreadable => rw [scan, Nat.zero_add, Nat.zero_add]
  | glued htext => rw [scan_cons _ _ (Nat.zero_le _), Stage.next, if_neg htext]
  | unreadableSeparator htext =>
    rw [scan_cons _ _ (Nat.zero_le _), Stage.next, if_pos htext.1]
    rfl
  | unseparated htext hseparator =>
    rw [scan_cons _ _ (Nat.zero_le _), Stage.next, if_pos htext.1]
    dsimp only
    rw [Scanned.after_none, scan_cons _ _ (Nat.zero_le _), Stage.next, if_neg hseparator]

end Scan

/-! ## Documents -/

/-- Walking over the cues of a session yields what is found line by line, up to the first error, and
reads as many lines. -/
theorem Cues.collectAfter_eq_scan {σ : Type} [Source σ] {limits : Limits} {line : Nat}
    {rs : List LineRead} {s : Session σ} (hphase : s.phase = .atCues)
    (hs : s.stream.Awaits limits line rs) (found : Array (Except Error Cue)) :
    ∃ results, (Cues.collectAfter found { session := s }).1 = found.toList ++ results ∧
      results.mapM id = (scan limits .between line rs).1.mapError .violation ∧
      (Cues.collectAfter found { session := s }).2.session.line =
        (scan limits .between line rs).2 := by
  obtain ⟨out, line', rs', hcue⟩ := CueRead.total limits line rs
  obtain ⟨t, hphase', ht, hnext⟩ := Session.nextCue_of_cueRead hphase hs hcue
  rw [hcue.scan_eq]
  match out with
  | .ok none =>
    have hover : Cues.next { session := s } = (none, { session := t, finished := true }) := by
      simp [Cues.next, hnext]
    rw [collectAfter_of_none hover]
    exact ⟨[], (List.append_nil _).symm, rfl, ht.line_eq⟩
  | .ok (some c) =>
    have hshorter := hcue.length_lt (by simp)
    have hmore : Cues.next { session := s } = (some (.ok c), { session := t }) := by
      simp [Cues.next, hnext]
    obtain ⟨results, hcollect, hresults, hlast⟩ :=
      collectAfter_eq_scan hphase' ht (found.push (.ok c))
    rw [collectAfter_of_some hmore, hcollect]
    refine ⟨.ok c :: results, by simp, ?_, hlast⟩
    rw [List.mapM_cons, hresults, Scanned.ofAttempt, Scanned.after]
    cases (scan limits .between line' rs').1 <;> rfl
  | .error v =>
    have hlast : Cues.next { session := s } =
        (some (.error (.violation v)), { session := t, finished := true }) := by
      simp [Cues.next, hnext]
    have hover : Cues.next { session := t, finished := true } =
        (none, { session := t, finished := true }) := rfl
    rw [collectAfter_of_some hlast, collectAfter_of_none hover]
    exact ⟨[.error (.violation v)], by simp, rfl, ht.line_eq⟩
termination_by rs.length

namespace Document

variable {σ : Type} [Source σ] {source : σ}

/-- How many lines are read of a document, be it read or refused. -/
def linesRead (source : σ) (limits : Limits) : Nat :=
  match (Session.ofSource source limits).readHeader with
  | .error _ s => s.line
  | .ok _ s => ({ session := s : Cues σ }.collect).2.session.line

/-- A document whose header is refused is refused with it, and no more of it is read. -/
theorem read_of_refused {limits : Limits} {e : Error} {t : LineStream σ}
    (h : LineStream.readHeader (Session.ofSource source limits).stream = .error e t) :
    read source limits = .error e ∧ linesRead source limits = t.line := by
  have hrefused : (Session.ofSource source limits).readHeader =
      .error e ⟨t.note (.headerRejected t.line e), .rejected⟩ := by
    unfold Session.readHeader
    rw [h]
    rfl
  rw [read, linesRead, hrefused]
  exact ⟨rfl, rfl⟩

/-- After a preamble, a document comes out as its lines do, and as many of them are read. -/
theorem read_eq_scan {hasBom : Bool} {rest : List UInt8}
    (hsource : Source.Delivers source (preamble hasBom ++ rest)) (limits : Limits) :
    ∃ header, read source limits =
        ((scan limits .signature 0 (reads limits.maxLineLength.toNat rest)).1.mapError
          .violation).map (Document.mk header) ∧
      linesRead source limits =
        (scan limits .signature 0 (reads limits.maxLineLength.toNat rest)).2 := by
  obtain ⟨out, line, rs, hheader⟩ := HeaderRead.total limits (reads limits.maxLineLength.toNat rest)
  cases out with
  | error v =>
    obtain ⟨t, hread, ht⟩ := (LineStream.at_ofSource hsource).readHeader hheader
    obtain ⟨hrefused, hlast⟩ := read_of_refused hread
    rw [hheader.scan_of_error, hrefused, hlast]
    exact ⟨{}, rfl, ht.line_eq⟩
  | ok description =>
    obtain ⟨s, hread, hphase, hs⟩ := Session.readHeader_of_headerRead hsource hheader
    obtain ⟨results, hcollect, hresults, hlast⟩ := Cues.collectAfter_eq_scan hphase hs #[]
    rw [hheader.scan_of_ok, read, linesRead, hread]
    refine ⟨⟨hasBom, description⟩, ?_, hlast⟩
    show (do
      let cues ← (Cues.collectAfter #[] { session := s }).1.mapM id
      return (⟨⟨hasBom, description⟩, cues⟩ : Document)) = _
    rw [hcollect, List.nil_append, hresults]
    cases (scan limits .between line rs).1 <;> rfl

end Document

end WebVTT
