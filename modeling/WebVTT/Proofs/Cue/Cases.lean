import WebVTT.Proofs.Cue.Reading
import WebVTT.Proofs.LineStream.Cases
import WebVTT.Proofs.LineStream.Lockstep

/-!
# The ways in which a cue is read

The rules of `CueRead` are about finite streams, of which it is known beforehand what is to come. Here
they are said of any source: an attempt at a cue skips empty lines and then goes one of the ways of
`BlockCase`, which names the states of the stream that it goes through and the reads between them
(`exists_blockCase`).
-/

namespace WebVTT.LineStream

variable {σ : Type} [Source σ] {s t u : LineStream σ}

/-- A block is over where no line is left and after an empty one. -/
inductive Closes (s t : LineStream σ) : Prop where
  | ended : readLine s = .ok none t → Closes s t
  | blank : readLine s = .ok (some "") t → Closes s t

/-- The ways in which the next block is read, from its first line on. -/
inductive BlockCase (s : LineStream σ) : EStateM.Result Error (LineStream σ) (Option Cue) → Prop where
  /-- There is none. -/
  | ended {t : LineStream σ} : readLine s = .ok none t → BlockCase s (.ok none t)
  /-- A line of it cannot be read. -/
  | unreadable {t u : LineStream σ} {ls : List String} {e : Error} :
      Begun s.limits ls → ReadsLines s ls t → readLine t = .error e u → BlockCase s (.error e u)
  /-- There is no line after the identifier. -/
  | unfinished {t u : LineStream σ} {identifier : String} :
      identifier ≠ "" → ¬Timings.hasArrow identifier → ReadsLines s [identifier] t →
      readLine t = .ok none u → BlockCase s (.error (.violation (.unexpectedEnd (u.line + 1))) u)
  /-- The line after the identifier has no arrow. -/
  | untimed {t : LineStream σ} {identifier text : String} :
      identifier ≠ "" → ¬Timings.hasArrow identifier → ¬Timings.hasArrow text →
      ReadsLines s [identifier, text] t →
      BlockCase s (.error (.violation (.missingTimings t.line)) t)
  /-- The timings are not in order. -/
  | mistimed {t : LineStream σ} {ls : List String} {identifier text : String}
      {reason : TimingFault} :
      Opening ls identifier text → Timings.parse text = .error reason → ReadsLines s ls t →
      BlockCase s (.error (.violation (.invalidTimings t.line reason)) t)
  /-- There are more lines of text than allowed. -/
  | overfull {t : LineStream σ} {ls payload : List String} {identifier : String}
      {timings : Timings} :
      Opens ls identifier timings → Payload payload →
      payload.length = s.limits.maxPayloadLines.toNat + 1 → ReadsLines s (ls ++ payload) t →
      BlockCase s (.error (.violation (.tooManyPayloadLines t.line t.limits.maxPayloadLines)) t)
  /-- There is no line of text. -/
  | textless {t u : LineStream σ} {ls : List String} {identifier : String} {timings : Timings} :
      Opens ls identifier timings → ReadsLines s ls t → Closes t u →
      BlockCase s (.error (.violation (.emptyPayload (s.line + 1))) u)
  /-- All is in order. -/
  | cue {t u : LineStream σ} {ls payload : List String} {identifier : String} {timings : Timings} :
      Opens ls identifier timings → Payload payload → payload ≠ [] →
      payload.length ≤ s.limits.maxPayloadLines.toNat → ReadsLines s (ls ++ payload) t →
      Closes t u →
      BlockCase s (.ok (some
        ⟨identifier, timings.start, timings.stop, timings.settings, payload⟩) u)

/-! ## Lines of text -/

/-- Lines of text are read up to a line too many, to the end of the block, or to a line that cannot
be read. -/
theorem exists_readPayload (found : Array String) (s : LineStream σ)
    (hfound : found.size ≤ s.limits.maxPayloadLines.toNat) :
    ∃ payload t, ReadsLines s payload t ∧ Payload payload ∧
      (found.size + payload.length = s.limits.maxPayloadLines.toNat + 1 ∧
          readPayloadAfter found s =
            .error (.violation (.tooManyPayloadLines t.line t.limits.maxPayloadLines)) t ∨
        found.size + payload.length ≤ s.limits.maxPayloadLines.toNat ∧
          ((∃ u, Closes t u ∧ readPayloadAfter found s = .ok (found.toList ++ payload) u) ∨
            ∃ e u, readLine t = .error e u ∧ readPayloadAfter found s = .error e u)) := by
  have hnothing : Payload [] := by simp [Payload]
  cases hread : readLine s with
  | error e t =>
    exact ⟨[], s, .nil s, hnothing, .inr ⟨hfound, .inr ⟨e, t, hread,
      readPayloadAfter_of_error hread⟩⟩⟩
  | ok line? t =>
    cases line? with
    | none =>
      refine ⟨[], s, .nil s, hnothing, .inr ⟨hfound, .inl ⟨t, .ended hread, ?_⟩⟩⟩
      rw [readPayloadAfter_of_ended hread, List.append_nil]
    | some text =>
      by_cases htext : text = ""
      · subst htext
        refine ⟨[], s, .nil s, hnothing, .inr ⟨hfound, .inl ⟨t, .blank hread, ?_⟩⟩⟩
        rw [readPayloadAfter_of_blank hread, List.append_nil]
      have hlimits : t.limits = s.limits := (ReadsLines.cons hread (.nil t)).limits_eq
      by_cases hfull : t.limits.maxPayloadLines.toNat ≤ found.size
      · refine ⟨[text], t, .cons hread (.nil t), by simpa [Payload] using htext, .inl ⟨?_,
          readPayloadAfter_of_excess hread htext hfull⟩⟩
        rw [hlimits] at hfull
        exact congrArg (· + 1) (Nat.le_antisymm hfound hfull)
      · have hroom : (found.push text).size ≤ t.limits.maxPayloadLines.toNat := by
          rw [Array.size_push]
          omega
        obtain ⟨payload, u, hlines, hpayload, hend⟩ := exists_readPayload (found.push text) t hroom
        refine ⟨text :: payload, u, .cons hread hlines, List.forall_mem_cons.mpr ⟨htext, hpayload⟩,
          ?_⟩
        rw [readPayloadAfter_of_text hread htext (Nat.lt_of_not_le hfull)]
        simpa [hlimits, Nat.add_assoc, Nat.add_comm 1] using hend
termination_by s.unread
decreasing_by exact unread_lt_of_readLine hread

/-! ## The first line of a block -/

theorem readCue_of_ended (h : readLine s = .ok none t) : readCue s = .ok none t := by
  refine Reading.bind_of_ok (a := none) ?_
  rw [readNonempty_eq, h]

theorem readCue_of_unreadable {e : Error} (h : readLine s = .error e t) :
    readCue s = .error e t := by
  refine Reading.bind_of_error ?_
  rw [readNonempty_eq, h]

/-- An empty line before a block makes no difference. -/
theorem readCue_of_blank (h : readLine s = .ok (some "") t) : readCue s = readCue t := by
  have hskip : readNonempty s = readNonempty t := by
    rw [readNonempty_eq, h]
    rfl
  show EStateM.bind readNonempty _ s = EStateM.bind readNonempty _ t
  unfold EStateM.bind
  rw [hskip]

theorem readNonempty_of_text {text : String} (h : readLine s = .ok (some text) t)
    (htext : text ≠ "") : readNonempty s = .ok (some text) t := by
  rw [readNonempty_eq, h]
  exact if_neg (by simpa using htext)

/-- The timings line is found where an opening is read. -/
theorem readTimingsLine_of_opening {first identifier text : String} {more : List String}
    (hopening : Opening (first :: more) identifier text) (hmore : ReadsLines s more t) :
    readTimingsLine first s = .ok (identifier, text) t := by
  unfold readTimingsLine
  cases hopening with
  | plain harrow =>
    rw [if_pos harrow, hmore.eq_of_nil]
    rfl
  | identified _ hnone harrow =>
    obtain ⟨u, hread, hrest⟩ := hmore.exists_of_cons
    obtain rfl := hrest.eq_of_nil
    rw [if_neg hnone, Reading.bind_of_ok hread]
    dsimp only
    rw [if_pos harrow]
    rfl

/-- Timings that are not in order end the attempt. -/
theorem readCue_of_mistimed {ls : List String} {identifier text : String} {reason : TimingFault}
    (hopening : Opening ls identifier text) (hparse : Timings.parse text = .error reason)
    (hlines : ReadsLines s ls t) :
    readCue s = .error (.violation (.invalidTimings t.line reason)) t := by
  obtain ⟨first, more, rfl, hne⟩ := hopening.exists_cons
  obtain ⟨u, hfirst, hmore⟩ := hlines.exists_of_cons
  refine readCue_of_error (readNonempty_of_text hfirst hne) ?_
  rw [readCueFrom, Reading.bind_get,
    Reading.bind_of_ok (readTimingsLine_of_opening hopening hmore)]
  dsimp only
  rw [hparse]
  dsimp only
  rw [Reading.bind_get]
  rfl

/-- After an opening that is in order, the lines of text decide. -/
theorem readCue_of_opens {ls : List String} {identifier : String} {timings : Timings}
    (hopens : Opens ls identifier timings) (hlines : ReadsLines s ls t) :
    readCue s = match readPayloadAfter #[] t with
      | .ok payload u =>
        if payload = [] then .error (.violation (.emptyPayload (s.line + 1))) u
        else .ok (some ⟨identifier, timings.start, timings.stop, timings.settings, payload⟩) u
      | .error e u => .error e u := by
  obtain ⟨text, hopening, hparse⟩ := hopens
  obtain ⟨first, more, rfl, hne⟩ := hopening.exists_cons
  obtain ⟨u, hfirst, hmore⟩ := hlines.exists_of_cons
  have hstart := readNonempty_of_text hfirst hne
  have hcue : readCueFrom first u = match readPayloadAfter #[] t with
      | .ok payload v =>
        if payload = [] then .error (.violation (.emptyPayload u.line)) v
        else .ok ⟨identifier, timings.start, timings.stop, timings.settings, payload⟩ v
      | .error e v => .error e v := by
    rw [readCueFrom, Reading.bind_get,
      Reading.bind_of_ok (readTimingsLine_of_opening hopening hmore)]
    dsimp only
    rw [hparse]
    dsimp only
    cases hpayload : readPayloadAfter #[] t with
    | error e v => rw [Reading.bind_of_error hpayload]
    | ok payload v =>
      rw [Reading.bind_of_ok hpayload]
      cases payload <;> rfl
  rw [line_of_readLine hfirst] at hcue
  cases hpayload : readPayloadAfter #[] t with
  | error e v =>
    rw [hpayload] at hcue
    exact readCue_of_error hstart hcue
  | ok payload v =>
    rw [hpayload] at hcue
    dsimp only at hcue ⊢
    split at hcue
    · next hempty =>
      rw [if_pos hempty]
      exact readCue_of_error hstart hcue
    · next hempty =>
      rw [if_neg hempty]
      exact readCue_of_ok hstart hcue

/-! ## There is no other way -/

/-- A block that is opened is read in one of the ways. -/
theorem blockCase_of_opening {ls : List String} {identifier text : String}
    (hopening : Opening ls identifier text) (hlines : ReadsLines s ls t) :
    BlockCase s (readCue s) := by
  cases hparse : Timings.parse text with
  | error reason =>
    rw [readCue_of_mistimed hopening hparse hlines]
    exact .mistimed hopening hparse hlines
  | ok timings =>
    have hopens : Opens ls identifier timings := ⟨text, hopening, hparse⟩
    have hlimits : t.limits = s.limits := hlines.limits_eq
    obtain ⟨payload, u, hpayloadLines, hpayload, hend⟩ := exists_readPayload #[] t (Nat.zero_le _)
    have hall : ReadsLines s (ls ++ payload) u := hlines.append hpayloadLines
    simp only [List.size_toArray, List.length_nil, Nat.zero_add, hlimits, List.nil_append] at hend
    rw [readCue_of_opens hopens hlines]
    rcases hend with ⟨hlength, hread⟩ | ⟨hlength, ⟨v, hcloses, hread⟩ | ⟨e, v, hline, hread⟩⟩
    · rw [hread]
      exact .overfull hopens hpayload hlength hall
    · rw [hread]
      dsimp only
      split
      · next hempty =>
        subst hempty
        obtain rfl := hpayloadLines.eq_of_nil
        exact .textless hopens hlines hcloses
      · next hne => exact .cue hopens hpayload hne hlength hall hcloses
    · rw [hread]
      exact .unreadable (.payload hopens hpayload hlength) hall hline

/-- A block whose first line has no arrow is read in one of the ways. -/
theorem blockCase_of_identifier {text : String} (htext : text ≠ "")
    (hnone : ¬Timings.hasArrow text) (hfirst : readLine s = .ok (some text) t) :
    BlockCase s (readCue s) := by
  have hlines : ReadsLines s [text] t := .cons hfirst (.nil t)
  have hrefused {e : Error} {u : LineStream σ} (h : readTimingsLine text t = .error e u) :
      readCue s = .error e u := by
    refine readCue_of_error (readNonempty_of_text hfirst htext) ?_
    rw [readCueFrom, Reading.bind_get]
    exact Reading.bind_of_error h
  cases hsecond : readLine t with
  | error e u =>
    rw [hrefused (e := e) (u := u)]
    · exact .unreadable (.identifier htext hnone) hlines hsecond
    · rw [readTimingsLine, if_neg hnone]
      exact Reading.bind_of_error hsecond
  | ok second? u =>
    cases second? with
    | none =>
      rw [hrefused (e := .violation (.unexpectedEnd (u.line + 1))) (u := u)]
      · exact .unfinished htext hnone hlines hsecond
      · rw [readTimingsLine, if_neg hnone, Reading.bind_of_ok hsecond]
        dsimp only
        rw [Reading.bind_get]
        rfl
    | some second =>
      have hboth : ReadsLines s [text, second] u := .cons hfirst (.cons hsecond (.nil u))
      by_cases harrow : Timings.hasArrow second
      · exact blockCase_of_opening (.identified htext hnone harrow) hboth
      · rw [hrefused (e := .violation (.missingTimings u.line)) (u := u)]
        · exact .untimed htext hnone harrow hboth
        · rw [readTimingsLine, if_neg hnone, Reading.bind_of_ok hsecond]
          dsimp only
          rw [if_neg harrow, Reading.bind_get]
          rfl

/-- An attempt at a cue skips empty lines and goes one of the ways. -/
theorem exists_blockCase (s : LineStream σ) :
    ∃ count t, ReadsLines s (List.replicate count "") t ∧ BlockCase t (readCue s) := by
  cases hread : readLine s with
  | error e t =>
    rw [readCue_of_unreadable hread]
    exact ⟨0, s, .nil s, .unreadable .nothing (.nil s) hread⟩
  | ok line? t =>
    cases line? with
    | none =>
      rw [readCue_of_ended hread]
      exact ⟨0, s, .nil s, .ended hread⟩
    | some text =>
      by_cases htext : text = ""
      · subst htext
        obtain ⟨count, u, hblank, hcase⟩ := exists_blockCase t
        rw [readCue_of_blank hread]
        exact ⟨count + 1, u, .cons hread hblank, hcase⟩
      by_cases harrow : Timings.hasArrow text
      · exact ⟨0, s, .nil s, blockCase_of_opening (.plain harrow) (.cons hread (.nil t))⟩
      · exact ⟨0, s, .nil s, blockCase_of_identifier htext harrow hread⟩
termination_by s.unread
decreasing_by exact unread_lt_of_readLine hread

end WebVTT.LineStream
