import WebVTT.Proofs.Cue.Grammar
import WebVTT.Proofs.LineStream.Reading

/-!
# Reading a cue follows the grammar

`CueRead.readCue` runs `readCue` along the rules of the grammar: whatever outcome the rules give to
a stream, reading it comes out that way and leaves what the rules leave.
-/

namespace WebVTT.LineStream

variable {σ : Type} [Source σ]
variable {s : LineStream σ} {limits : Limits} {line : Nat} {rs : List LineRead}

/-! ## Single lines -/

theorem Awaits.readLine_ok {text : String} (h : s.Awaits limits line (.ok text :: rs)) :
    ∃ t, readLine s = .ok (some text) t ∧ t.Awaits limits (line + 1) rs := h.readLine_cons

theorem Awaits.readLine_error {f : LineFault} (h : s.Awaits limits line (.error f :: rs)) :
    ∃ t, readLine s = .error (.violation (f.violation limits (line + 1))) t ∧
      t.Awaits limits (line + f.counted) rs := h.readLine_cons

/-! ## The first line of a block -/

theorem Awaits.readNonempty_nil (h : s.Awaits limits line []) :
    ∃ t, readNonempty s = .ok none t ∧ t.Awaits limits line [] := by
  obtain ⟨t, hread, ht⟩ := h.readLine_nil
  refine ⟨t, ?_, ht⟩
  rw [readNonempty]
  split <;> simp_all

theorem Awaits.readNonempty_error {f : LineFault} (h : s.Awaits limits line (.error f :: rs)) :
    ∃ t, readNonempty s = .error (.violation (f.violation limits (line + 1))) t ∧
      t.Awaits limits (line + f.counted) rs := by
  obtain ⟨t, hread, ht⟩ := h.readLine_error
  refine ⟨t, ?_, ht⟩
  rw [readNonempty]
  split <;> simp_all

theorem Awaits.readNonempty_blank (h : s.Awaits limits line (.ok "" :: rs)) :
    ∃ t, readNonempty s = readNonempty t ∧ t.Awaits limits (line + 1) rs := by
  obtain ⟨t, hread, ht⟩ := h.readLine_ok
  refine ⟨t, ?_, ht⟩
  rw [readNonempty]
  split <;> simp_all

theorem Awaits.readNonempty_ok {text : String} (htext : text ≠ "")
    (h : s.Awaits limits line (.ok text :: rs)) :
    ∃ t, readNonempty s = .ok (some text) t ∧ t.Awaits limits (line + 1) rs := by
  obtain ⟨t, hread, ht⟩ := h.readLine_ok
  refine ⟨t, ?_, ht⟩
  rw [readNonempty]
  split <;> simp_all

/-! ## The lines of text -/

section Payload

variable {t : LineStream σ} {found : Array String} {text : String}

theorem readPayloadAfter_of_ended (h : readLine s = .ok none t) :
    readPayloadAfter found s = .ok found.toList t := by
  rw [readPayloadAfter]
  split <;> simp_all

theorem readPayloadAfter_of_blank (h : readLine s = .ok (some "") t) :
    readPayloadAfter found s = .ok found.toList t := by
  rw [readPayloadAfter]
  split <;> simp_all

theorem readPayloadAfter_of_error {e : Error} (h : readLine s = .error e t) :
    readPayloadAfter found s = .error e t := by
  rw [readPayloadAfter]
  split <;> simp_all

theorem readPayloadAfter_of_text (h : readLine s = .ok (some text) t) (htext : text ≠ "")
    (hroom : found.size < t.limits.maxPayloadLines.toNat) :
    readPayloadAfter found s = readPayloadAfter (found.push text) t := by
  rw [readPayloadAfter]
  split
  · next text' u hread =>
    obtain ⟨rfl, rfl⟩ : text = text' ∧ t = u := by simpa [h] using hread
    rw [if_neg (by simpa using htext), if_neg (Nat.not_le.mpr hroom)]
  · simp_all
  · simp_all

theorem readPayloadAfter_of_excess (h : readLine s = .ok (some text) t) (htext : text ≠ "")
    (hfull : t.limits.maxPayloadLines.toNat ≤ found.size) :
    readPayloadAfter found s =
      .error (.violation (.tooManyPayloadLines t.line t.limits.maxPayloadLines)) t := by
  rw [readPayloadAfter]
  split
  · next text' u hread =>
    obtain ⟨rfl, rfl⟩ : text = text' ∧ t = u := by simpa [h] using hread
    rw [if_neg (by simpa using htext), if_pos hfull]
  · simp_all
  · simp_all

/-- Lines of text within the limit are collected one after the other. -/
theorem Awaits.readPayloadAfter_append {payload : List String} (hpayload : Payload payload)
    (hlength : found.size + payload.length ≤ limits.maxPayloadLines.toNat)
    (h : s.Awaits limits line (payload.map .ok ++ rs)) :
    ∃ t, readPayloadAfter found s = readPayloadAfter (found ++ payload) t ∧
      t.Awaits limits (line + payload.length) rs := by
  induction payload generalizing found line s with
  | nil => exact ⟨s, by simp, h⟩
  | cons text payload ih =>
    obtain ⟨htext, hpayload⟩ := List.forall_mem_cons.mp hpayload
    obtain ⟨t, hread, ht⟩ := h.readLine_ok
    rw [List.length_cons] at hlength
    have hpushed : (found.push text).size + payload.length ≤ limits.maxPayloadLines.toNat := by
      rw [Array.size_push]
      omega
    obtain ⟨u, hrest, hu⟩ := ih hpayload hpushed ht
    refine ⟨u, ?_, ?_⟩
    · rw [readPayloadAfter_of_text hread htext (by rw [ht.limits_eq]; omega), hrest]
      simp
    · rwa [List.length_cons, Nat.add_comm payload.length, ← Nat.add_assoc]

/-- The line that is one too many ends the attempt. -/
theorem Awaits.readPayloadAfter_overfull {payload : List String} (hpayload : Payload payload)
    (hlength : payload.length = limits.maxPayloadLines.toNat + 1)
    (h : s.Awaits limits line (payload.map .ok ++ rs)) :
    ∃ t, readPayloadAfter #[] s = .error (.violation
        (.tooManyPayloadLines (line + payload.length) limits.maxPayloadLines)) t ∧
      t.Awaits limits (line + payload.length) rs := by
  obtain rfl | ⟨payload, last, rfl⟩ := List.eq_nil_or_concat payload
  · simp at hlength
  rw [List.concat_eq_append] at *
  obtain ⟨hpayload, hlast⟩ := List.forall_mem_append.mp hpayload
  rw [List.map_append, List.append_assoc] at h
  simp only [List.length_append, List.length_singleton, Nat.add_right_cancel_iff] at hlength
  have hroom : (#[] : Array String).size + payload.length ≤ limits.maxPayloadLines.toNat := by
    simp [hlength]
  obtain ⟨t, hcollect, ht⟩ := h.readPayloadAfter_append hpayload hroom
  obtain ⟨u, hread, hu⟩ := Awaits.readLine_ok ht
  rw [List.length_append, List.length_singleton, ← Nat.add_assoc]
  refine ⟨u, ?_, hu⟩
  rw [hcollect, readPayloadAfter_of_excess hread (hlast last List.mem_cons_self)
    (by simp [hu.limits_eq, hlength]), hu.line_eq, hu.limits_eq]

end Payload

/-- Where a block is over, so is its text. -/
theorem Awaits.readPayloadAfter_closing {closing : Nat} {rs' : List LineRead} (found : Array String)
    (hclosing : Closing rs closing rs') (h : s.Awaits limits line rs) :
    ∃ t, readPayloadAfter found s = .ok found.toList t ∧
      t.Awaits limits (line + closing) rs' := by
  cases hclosing with
  | ended =>
    obtain ⟨t, hread, ht⟩ := h.readLine_nil
    exact ⟨t, readPayloadAfter_of_ended hread, ht⟩
  | blank =>
    obtain ⟨t, hread, ht⟩ := h.readLine_ok
    exact ⟨t, readPayloadAfter_of_blank hread, ht⟩

/-! ## From the first line on -/

/-- The lines that open a block are read up to its timings line. -/
theorem Awaits.readTimingsLine {ls : List String} {first identifier text : String}
    (hopening : Opening (first :: ls) identifier text)
    (h : s.Awaits limits line (ls.map .ok ++ rs)) :
    ∃ t, readTimingsLine first s = .ok (identifier, text) t ∧
      t.Awaits limits (line + ls.length) rs := by
  cases hopening with
  | plain harrow =>
    refine ⟨s, ?_, h⟩
    rw [LineStream.readTimingsLine, if_pos harrow]
    rfl
  | identified _ hfirst harrow =>
    obtain ⟨t, hread, ht⟩ := h.readLine_ok
    refine ⟨t, ?_, ht⟩
    rw [LineStream.readTimingsLine, if_neg hfirst, Reading.bind_of_ok hread]
    dsimp only
    rw [if_pos harrow]
    rfl

/-- Timings that are not in order end the attempt. -/
theorem Awaits.readCueFrom_of_error {ls : List String} {first identifier text : String}
    {reason : TimingFault} (hopening : Opening (first :: ls) identifier text)
    (hparse : Timings.parse text = .error reason) (h : s.Awaits limits line (ls.map .ok ++ rs)) :
    ∃ t, readCueFrom first s =
        .error (.violation (.invalidTimings (line + ls.length) reason)) t ∧
      t.Awaits limits (line + ls.length) rs := by
  obtain ⟨t, hread, ht⟩ := h.readTimingsLine hopening
  refine ⟨t, ?_, ht⟩
  rw [readCueFrom, Reading.bind_get, Reading.bind_of_ok hread]
  dsimp only
  rw [hparse]
  dsimp only
  rw [Reading.bind_get, ht.line_eq]
  rfl

/-- After timings that are in order, the lines of text decide. -/
theorem Awaits.readCueFrom_of_opens {ls : List String} {first identifier : String}
    {timings : Timings} (hopens : Opens (first :: ls) identifier timings)
    (h : s.Awaits limits line (ls.map .ok ++ rs)) :
    ∃ t, t.Awaits limits (line + ls.length) rs ∧
      readCueFrom first s = match readPayloadAfter #[] t with
        | .ok payload u =>
          if payload = [] then .error (.violation (.emptyPayload line)) u
          else .ok ⟨identifier, timings.start, timings.stop, timings.settings, payload⟩ u
        | .error e u => .error e u := by
  obtain ⟨text, hopening, hparse⟩ := hopens
  obtain ⟨t, hread, ht⟩ := h.readTimingsLine hopening
  refine ⟨t, ht, ?_⟩
  rw [readCueFrom, Reading.bind_get, Reading.bind_of_ok hread, h.line_eq]
  dsimp only
  rw [hparse]
  dsimp only
  cases hpayload : readPayloadAfter #[] t with
  | error e u => rw [Reading.bind_of_error hpayload]
  | ok payload u =>
    rw [Reading.bind_of_ok hpayload]
    cases payload <;> rfl

/-! ## Whole cues -/

section Cue

variable {t u : LineStream σ} {first : String}

theorem readCue_of_ok {cue : Cue} (hfirst : readNonempty s = .ok (some first) t)
    (h : readCueFrom first t = .ok cue u) : readCue s = .ok (some cue) u := by
  rw [readCue, Reading.bind_of_ok hfirst]
  dsimp only
  rw [Reading.bind_of_ok h]
  rfl

theorem readCue_of_error {e : Error} (hfirst : readNonempty s = .ok (some first) t)
    (h : readCueFrom first t = .error e u) : readCue s = .error e u := by
  rw [readCue, Reading.bind_of_ok hfirst]
  dsimp only
  rw [Reading.bind_of_error h]

end Cue

/-- After an opening that is in order, the lines of text decide. -/
theorem Awaits.readCue_of_opens {ls : List String} {identifier : String} {timings : Timings}
    (hopens : Opens ls identifier timings) (h : s.Awaits limits line (ls.map .ok ++ rs)) :
    ∃ t, t.Awaits limits (line + ls.length) rs ∧
      readCue s = match readPayloadAfter #[] t with
        | .ok payload u =>
          if payload = [] then .error (.violation (.emptyPayload (line + 1))) u
          else .ok (some ⟨identifier, timings.start, timings.stop, timings.settings, payload⟩) u
        | .error e u => .error e u := by
  obtain ⟨first, more, rfl, hne⟩ := hopens.choose_spec.1.exists_cons
  obtain ⟨t, hfirst, ht⟩ := Awaits.readNonempty_ok hne h
  obtain ⟨u, hu, hcue⟩ := ht.readCueFrom_of_opens hopens
  refine ⟨u, by rwa [List.length_cons, Nat.add_comm more.length, ← Nat.add_assoc], ?_⟩
  cases hpayload : readPayloadAfter #[] u with
  | error e v =>
    rw [hpayload] at hcue
    exact readCue_of_error hfirst hcue
  | ok payload v =>
    rw [hpayload] at hcue
    dsimp only at hcue ⊢
    split at hcue
    · next hempty =>
      rw [if_pos hempty]
      exact readCue_of_error hfirst hcue
    · next hempty =>
      rw [if_neg hempty]
      exact readCue_of_ok hfirst hcue

/-- After a first line that is not empty, the attempt fails where no timings line is found. -/
theorem Awaits.readCue_of_identifier {text : String} (hne : text ≠ "")
    (h : s.Awaits limits line (.ok text :: rs)) :
    ∃ t, t.Awaits limits (line + 1) rs ∧
      ∀ {e u}, LineStream.readTimingsLine text t = .error e u → readCue s = .error e u := by
  obtain ⟨t, hfirst, ht⟩ := Awaits.readNonempty_ok hne h
  refine ⟨t, ht, ?_⟩
  intro e u htimings
  apply readCue_of_error hfirst
  rw [readCueFrom, Reading.bind_get]
  exact Reading.bind_of_error htimings

/-- A line that cannot be read ends the attempt, wherever it stands in the block. -/
theorem Awaits.readCue_of_begun {ls : List String} {f : LineFault} (hbegun : Begun limits ls)
    (h : s.Awaits limits line (ls.map .ok ++ .error f :: rs)) :
    ∃ t, readCue s = .error (.violation (f.violation limits (line + ls.length + 1))) t ∧
      t.Awaits limits (line + ls.length + f.counted) rs := by
  cases hbegun with
  | nothing =>
    obtain ⟨t, hread, ht⟩ := h.readNonempty_error
    exact ⟨t, Reading.bind_of_error hread, ht⟩
  | @identifier text hne harrow =>
    obtain ⟨t, ht, hcue⟩ := h.readCue_of_identifier hne
    obtain ⟨u, hread, hu⟩ := ht.readLine_error
    refine ⟨u, hcue ?_, hu⟩
    rw [LineStream.readTimingsLine, if_neg harrow]
    exact Reading.bind_of_error hread
  | @payload ls payload identifier timings hopens hpayload hlength =>
    rw [List.map_append, List.append_assoc] at h
    obtain ⟨t, ht, hcue⟩ := h.readCue_of_opens hopens
    have hroom : (#[] : Array String).size + payload.length ≤ limits.maxPayloadLines.toNat := by
      simpa using hlength
    obtain ⟨u, hcollect, hu⟩ := ht.readPayloadAfter_append hpayload hroom
    obtain ⟨v, hread, hv⟩ := hu.readLine_error
    rw [List.length_append, ← Nat.add_assoc]
    refine ⟨v, ?_, hv⟩
    rw [hcue, hcollect, readPayloadAfter_of_error hread]

/-- Reading comes out as the grammar has it. -/
theorem Awaits.readCue {out : Except Violation (Option Cue)} {line' : Nat} {rs' : List LineRead}
    (h : s.Awaits limits line rs) (hcue : CueRead limits line rs out line' rs') :
    ∃ t, readCue s = Reading.result out t ∧ t.Awaits limits line' rs' := by
  induction hcue generalizing s with
  | ended line =>
    obtain ⟨t, hread, ht⟩ := h.readNonempty_nil
    exact ⟨t, Reading.bind_of_ok hread, ht⟩
  | blank _ ih =>
    obtain ⟨t, hskip, ht⟩ := h.readNonempty_blank
    obtain ⟨u, hread, hu⟩ := ih ht
    refine ⟨u, ?_, hu⟩
    rw [← hread]
    show EStateM.bind readNonempty _ s = EStateM.bind readNonempty _ t
    unfold EStateM.bind
    rw [hskip]
  | unreadable hbegun => exact h.readCue_of_begun hbegun
  | unfinished hne harrow =>
    obtain ⟨t, ht, hcue⟩ := h.readCue_of_identifier hne
    obtain ⟨u, hread, hu⟩ := ht.readLine_nil
    refine ⟨u, hcue ?_, hu⟩
    rw [LineStream.readTimingsLine, if_neg harrow, Reading.bind_of_ok hread]
    dsimp only
    rw [Reading.bind_get, hu.line_eq]
    rfl
  | untimed hne harrow hsecond =>
    obtain ⟨t, ht, hcue⟩ := h.readCue_of_identifier hne
    obtain ⟨u, hread, hu⟩ := ht.readLine_ok
    refine ⟨u, hcue ?_, hu⟩
    rw [LineStream.readTimingsLine, if_neg harrow, Reading.bind_of_ok hread]
    dsimp only
    rw [if_neg hsecond, Reading.bind_get, hu.line_eq]
    rfl
  | mistimed hopening hparse =>
    obtain ⟨first, more, rfl, hne⟩ := hopening.exists_cons
    obtain ⟨t, hfirst, ht⟩ := Awaits.readNonempty_ok hne h
    obtain ⟨u, hread, hu⟩ := ht.readCueFrom_of_error hopening hparse
    rw [List.length_cons, Nat.add_comm more.length, ← Nat.add_assoc]
    exact ⟨u, readCue_of_error hfirst hread, hu⟩
  | overfull hopens hpayload hlength =>
    rw [List.map_append, List.append_assoc] at h
    obtain ⟨t, ht, hcue⟩ := h.readCue_of_opens hopens
    obtain ⟨u, hread, hu⟩ := ht.readPayloadAfter_overfull hpayload hlength
    exact ⟨u, by rw [hcue, hread]; rfl, hu⟩
  | textless hopens hclosing =>
    obtain ⟨t, ht, hcue⟩ := h.readCue_of_opens hopens
    obtain ⟨u, hread, hu⟩ := ht.readPayloadAfter_closing #[] hclosing
    exact ⟨u, by rw [hcue, hread]; rfl, hu⟩
  | @cue line closing ls payload identifier timings rs rs' hopens hpayload hne hlength hclosing =>
    rw [List.map_append, List.append_assoc] at h
    obtain ⟨t, ht, hcue⟩ := h.readCue_of_opens hopens
    have hroom : (#[] : Array String).size + payload.length ≤ limits.maxPayloadLines.toNat := by
      simpa using hlength
    obtain ⟨u, hcollect, hu⟩ := ht.readPayloadAfter_append hpayload hroom
    obtain ⟨v, hread, hv⟩ := hu.readPayloadAfter_closing ((#[] : Array String) ++ payload) hclosing
    refine ⟨v, ?_, hv⟩
    rw [hcue, hcollect, hread]
    simp [hne, Reading.result]

end WebVTT.LineStream
