import WebVTT.Proofs.Header.Reading
import WebVTT.Proofs.Lines.After
import WebVTT.Proofs.Session.Calls
import WebVTT.Proofs.Session.Cases
import WebVTT.Proofs.Session.Lockstep

/-!
# What is left of a source

Between two lines a stream stands right after the last line read (`LineStream.Stands`), and as long
as nothing goes wrong that is where every call leaves it. The source does not always stand there: to
see whether a carriage return ends a line alone, the byte after it has been taken, and the stream
keeps it. So whoever has the source back after calls that came off has all bytes after the last line
read, but for the first of them where that line ended in a lone carriage return
(`Session.remaining_of_isOk`).
-/

namespace WebVTT

open Reading (Leaves)

namespace LineStream

variable {σ : Type} [Source σ] {s t : LineStream σ} {limits : Limits} {line : Nat}
  {bytes content rest : List UInt8}

/-! ## The byte handed back -/

/-- At the end of a stream no byte is handed back. -/
theorem At.returned_of_nil (h : s.At limits line []) : s.returned = none := by
  obtain ⟨_, hbytes, -⟩ := h.delivers
  simpa using (List.append_eq_nil_iff.mp hbytes.symm).1

/-- A byte is handed back if it is not the one expected. -/
theorem At.returned_of_takeByteIf {expected : UInt8} {taken : Option Bool}
    (h : s.At limits line bytes) (htake : takeByteIf expected s = .ok taken t) :
    t.returned = bytes.head?.filter (· ≠ expected) := by
  cases bytes with
  | nil =>
    obtain ⟨u, htake', hu⟩ := h.takeByteIf_nil expected
    rw [htake'] at htake
    cases htake
    exact hu.returned_of_nil
  | cons b bytes =>
    obtain ⟨u, hnext, -, hroom⟩ := h.next_cons
    unfold takeByteIf nextIf at htake
    rw [hnext] at htake
    cases htake
    by_cases hb : b = expected <;> simp [hb, hroom, Option.filter]

/-- After an ending that is over, the next byte is handed back if that took looking at it. -/
theorem At.returned_of_finishTerminator {e : Ending} {first : UInt8} {u : LineStream σ}
    (he : e.OverBefore rest) (h : s.At limits line (e.bytes ++ rest))
    (hnext : s.next = (.byte first, t)) (hfinish : LineStream.finishTerminator first t = .ok () u) :
    u.returned = if e = .cr then rest.head? else none := by
  cases e with
  | lf =>
    obtain ⟨v, hnext', -, hroom⟩ := At.next_cons h
    rw [hnext'] at hnext
    cases hnext
    cases hfinish
    exact hroom
  | cr =>
    obtain ⟨v, hnext', hv, -⟩ := At.next_cons h
    rw [hnext'] at hnext
    cases hnext
    obtain ⟨_, w, htake, hfinish⟩ := Reading.ok_of_bind hfinish
    cases hfinish
    rw [At.returned_of_takeByteIf hv htake, if_pos rfl]
    cases rest with
    | nil => rfl
    | cons c rest =>
      have hc : c ≠ lineFeed := fun hc ↦ he rfl (by simp [hc])
      simp [hc, Option.filter]
  | crlf =>
    obtain ⟨v, hnext', hv, -⟩ := At.next_cons h
    rw [hnext'] at hnext
    cases hnext
    obtain ⟨_, w, htake, hfinish⟩ := Reading.ok_of_bind hfinish
    cases hfinish
    rw [At.returned_of_takeByteIf hv htake]
    rfl

/-- After a line within the limit, the next byte is handed back if it took looking at it. -/
theorem At.returned_of_takeLine {e : Ending} {taken? : Option ByteArray}
    (hcontent : Line.Unbroken content) (he : e.OverBefore rest)
    (hlength : content.length ≤ limits.maxLineLength.toNat)
    (h : s.At limits line (content ++ (e.bytes ++ rest)))
    (htake : takeLineAfter .empty s = .ok taken? t) :
    t.returned = if e = .cr then rest.head? else none := by
  have hlength : ByteArray.empty.size + content.length ≤ limits.maxLineLength.toNat := by simpa
  obtain ⟨u, hcollect, hu⟩ := At.takeLineAfter_content hcontent hlength h
  obtain ⟨first, v, w, hnext, hfirst, hfinish, -⟩ := hu.finishTerminator he
  rw [hcollect, takeLineAfter_of_terminator hnext hfirst hfinish] at htake
  cases htake
  exact hu.returned_of_finishTerminator he hnext hfinish

/-- Once bytes were matched, none is handed back. -/
theorem returned_of_expectBytes {atEnd otherwise : Violation} {expected : List UInt8}
    (hexpected : s.returned = none ∨ expected ≠ [])
    (hok : expectBytes atEnd otherwise expected s = .ok () t) : t.returned = none := by
  induction expected generalizing s with
  | nil =>
    cases hok
    exact hexpected.resolve_right (· rfl)
  | cons b expected ih =>
    rw [expectBytes] at hok
    obtain ⟨found, u, htake, hok⟩ := Reading.ok_of_bind hok
    have hroom : u.returned = none := by
      have hnext := s.returned_next
      unfold takeByte at htake
      split at htake <;> cases htake <;> simp_all
    cases found with
    | none => cases hok
    | some found =>
      dsimp only at hok
      split at hok
      · exact ih (.inl hroom) hok
      · cases hok

/-! ## Between lines -/

/-- The stream stands right after the lines read of these bytes, and has a byte handed back where a
lone carriage return ended the last of them. -/
structure Stands (limits : Limits) (bytes : List UInt8) (s : LineStream σ) : Prop where
  here : s.At limits s.line (Line.after s.line bytes)
  returned_eq : s.returned =
    if Line.endingBefore s.line bytes = some .cr then (Line.after s.line bytes).head? else none

theorem At.stands (h : s.At limits line (Line.after line bytes))
    (hreturned : s.returned =
      if Line.endingBefore line bytes = some .cr then (Line.after line bytes).head? else none) :
    s.Stands limits bytes := by
  obtain rfl := h.line_eq
  exact ⟨h, hreturned⟩

/-- A stream that has come to the end stands there. -/
theorem At.stands_of_nil (h : s.At limits line []) (hafter : Line.after line bytes = []) :
    s.Stands limits bytes := by
  have hhere : s.At limits line (Line.after line bytes) := hafter ▸ h
  refine hhere.stands ?_
  rw [h.returned_of_nil, hafter]
  simp

/-- A notice changes nothing about where a stream stands. -/
theorem Stands.note (h : s.Stands limits bytes) (n : Notice) : (s.note n).Stands limits bytes :=
  ⟨⟨h.here.limits_eq, rfl, h.here.delivers⟩, h.returned_eq⟩

/-- A line that is counted once its bytes are taken. -/
theorem At.completeLine (h : s.At limits line bytes) (taken : ByteArray) :
    (completeLine taken s).At limits (line + 1) bytes :=
  ⟨h.limits_eq, congrArg (· + 1) h.line_eq, h.delivers⟩

/-- Taking a line and counting it goes from the end of one line to that of the next. -/
theorem Stands.of_takeLine {taken? : Option ByteArray} (h : s.Stands limits bytes)
    (htake : takeLineAfter .empty s = .ok taken? t) :
    taken? = none ∧ t.Stands limits bytes ∨
      ∃ taken, taken? = some taken ∧ (LineStream.completeLine taken t).Stands limits bytes := by
  have hlong : ∀ {content rest : List UInt8}, Line.Unbroken content →
      Line.after s.line bytes = content ++ rest → content.length ≤ limits.maxLineLength.toNat := by
    intro content rest hcontent hafter
    by_contra hlength
    obtain ⟨u, htake', -⟩ :=
      At.takeLine_of_lt hcontent (Nat.lt_of_not_le hlength) (hafter ▸ h.here)
    rw [htake'] at htake
    cases htake
  rcases Line.unbroken_or_exists_ending (Line.after s.line bytes) with
    hrest | ⟨content, e, rest, hcontent, he, hafter⟩
  · have hlength := hlong hrest (List.append_nil _).symm
    obtain ⟨u, htake', hu⟩ := h.here.takeLine_of_end hrest hlength
    rw [htake'] at htake
    cases htake
    by_cases hempty : Line.after s.line bytes = []
    · exact .inl ⟨if_pos hempty, hu.stands_of_nil hempty⟩
    · exact .inr ⟨_, if_neg hempty,
        (hu.completeLine _).stands_of_nil (Line.after_succ_of_unbroken hrest)⟩
  · have hlength := hlong hcontent hafter
    have hhere := h.here
    rw [hafter] at hhere
    obtain ⟨u, htake', hu⟩ := hhere.takeLine_of_ending hcontent he hlength
    have hreturned := hhere.returned_of_takeLine hcontent he hlength htake'
    rw [htake'] at htake
    cases htake
    have hafter' := Line.after_succ_of_ending hcontent he hafter
    have hnext : (LineStream.completeLine content.toByteArray t).At limits (s.line + 1)
        (Line.after (s.line + 1) bytes) := hafter' ▸ hu.completeLine _
    refine .inr ⟨_, rfl, hnext.stands ?_⟩
    rw [Line.endingBefore_succ hcontent he hafter, hafter']
    simp only [Option.some.injEq]
    exact hreturned

/-- Reading a line goes from the end of one line to that of the next. -/
theorem Stands.readLine (h : s.Stands limits bytes) :
    Leaves (fun _ ↦ Stands limits bytes) (fun _ ↦ True) (LineStream.readLine s) := by
  unfold LineStream.readLine
  cases htake : takeLineAfter .empty s with
  | error e t =>
    rw [Reading.bind_of_error htake]
    exact .error e trivial
  | ok taken? t =>
    rw [Reading.bind_of_ok htake]
    rcases h.of_takeLine htake with ⟨rfl, ht⟩ | ⟨taken, rfl, ht⟩
    · exact .ok _ ht
    · dsimp only
      rw [Reading.bind_modify]
      cases String.fromUTF8? taken with
      | some text => exact .ok _ ht
      | none => exact .error _ trivial

/-- Whatever is read line by line goes from the end of one line to that of another. -/
theorem lockstep_stands (limits : Limits) (bytes : List UInt8) :
    Lockstep (fun s t : LineStream σ ↦ s = t ∧ s.Stands limits bytes) (fun s t ↦ s = t ∧ True) :=
  .of_leaves (fun _ _ ↦ trivial) fun _ ↦ Stands.readLine

/-- A header is read up to the end of a line. -/
theorem At.stands_of_readHeader {header : Header} (h : s.At limits 0 bytes)
    (hok : LineStream.readHeader s = .ok header t) :
    ∃ hasBom rest, bytes = preamble hasBom ++ rest ∧ t.Stands limits rest := by
  obtain ⟨hasBom, u, hbom, hmore⟩ := Reading.ok_of_bind hok
  obtain ⟨_, v, hsignature, -⟩ := Reading.ok_of_bind hmore
  obtain ⟨rest, rfl, hu⟩ := h.eq_append_of_readBom hbom
  have hexpect := hsignature
  rw [readSignature_eq] at hexpect
  obtain ⟨rest, rfl, hv⟩ := hu.eq_append_of_expectBytes hexpect
  have hstands : v.Stands limits rest := by
    rw [← Line.after_zero rest] at hv
    refine hv.stands ?_
    rw [returned_of_expectBytes (.inr (by decide +kernel)) hexpect]
    rfl
  refine ⟨hasBom, rest, by rw [preamble, List.append_assoc], ?_⟩
  have hlines := (lockstep_stands limits rest).readHeader
    (P := fun x y ↦ x = s ∧ y = s) (Q := fun x y ↦ x = u ∧ y = u)
    (by rintro _ _ ⟨rfl, rfl⟩; rw [hbom]; exact .ok _ ⟨rfl, rfl⟩)
    (by rintro _ _ ⟨rfl, rfl⟩; rw [hsignature]; exact .ok _ ⟨rfl, hstands⟩) ⟨rfl, rfl⟩
  obtain ⟨_, -, rfl, ht⟩ := hlines.of_ok hok
  exact ht

end LineStream

/-! ## Sessions -/

namespace Session

variable {σ : Type} [Source σ] {s t : Session σ} {limits : Limits} {bytes : List UInt8}

/-- The header has been read, and the stream stands between lines. -/
def Stands (limits : Limits) (bytes : List UInt8) (s : Session σ) : Prop :=
  s.phase = .atCues ∧ s.stream.Stands limits bytes

theorem Stands.nextCue {cue? : Option Cue} (h : s.Stands limits bytes)
    (hok : Session.nextCue s = .ok cue? t) : t.Stands limits bytes := by
  have hcase := cueCase_nextCue s
  rw [hok] at hcase
  cases hcase with
  | read _ hread =>
    obtain ⟨_, -, rfl, hu⟩ :=
      ((LineStream.lockstep_stands limits bytes).readCue ⟨rfl, h.2⟩).of_ok hread
    exact ⟨rfl, hu.note _⟩

theorem stands_of_readHeader {source : σ} {header : Header} (hsource : Source.Delivers source bytes)
    (hok : readHeader (ofSource source limits) = .ok header s) :
    ∃ hasBom rest, bytes = preamble hasBom ++ rest ∧ s.Stands limits rest := by
  obtain ⟨t, hread, rfl⟩ := exists_of_readHeader_ofSource hok
  obtain ⟨hasBom, rest, hbytes, ht⟩ := (LineStream.at_ofSource hsource).stands_of_readHeader hread
  exact ⟨hasBom, rest, hbytes, rfl, ht.note _⟩

end Session

namespace Cues

open Session (Stands)

variable {σ : Type} [Source σ] {c : Cues σ} {limits : Limits} {bytes : List UInt8}

/-- A step of a walk that yields no error goes from the end of one line to that of another. -/
theorem stands_next (h : c.session.Stands limits bytes) (hok : (Answer.yielded c.next.1).isOk) :
    c.next.2.session.Stands limits bytes := by
  unfold next at hok ⊢
  split at hok
  · next hfinished =>
    rwa [if_pos hfinished]
  · next hfinished =>
    rw [if_neg hfinished]
    cases hnext : c.session.nextCue with
    | ok cue? s => cases cue? <;> exact h.nextCue hnext
    | error e s =>
      rw [hnext] at hok
      cases hok

/-- A call that comes off goes from the end of one line to that of another. -/
theorem stands_answer (h : c.session.Stands limits bytes) {call : Call}
    (hok : (c.answer call).1.isOk) : (c.answer call).2.session.Stands limits bytes := by
  cases call with
  | readHeader =>
    unfold answer Session.readHeader at hok
    rw [h.1] at hok
    cases hok
  | nextCue =>
    unfold answer at hok ⊢
    cases hnext : c.session.nextCue with
    | ok cue? s => exact h.nextCue hnext
    | error e s =>
      rw [hnext] at hok
      cases hok
  | fillRecord record =>
    unfold answer Session.fillRecord at hok ⊢
    dsimp only at hok ⊢
    cases hnext : c.session.nextCue with
    | ok cue? s => cases cue? <;> exact h.nextCue hnext
    | error e s =>
      rw [hnext] at hok
      cases hok
  | cues => exact h
  | step => exact stands_next h hok

/-- So do calls that all come off. -/
theorem stands_run (h : c.session.Stands limits bytes) {calls : List Call}
    (hok : ∀ answer ∈ (c.run calls).1, answer.1.isOk) :
    (c.run calls).2.session.Stands limits bytes := by
  induction calls generalizing c with
  | nil => exact h
  | cons call calls ih =>
    rw [run_cons] at hok ⊢
    obtain ⟨hanswer, hmore⟩ := List.forall_mem_cons.mp hok
    exact ih (stands_answer h hanswer) hmore

end Cues

namespace Session

variable {limits : Limits} {bytes : List UInt8} {calls : List Call}

/-- After a header that is read and calls that all come off, a session stands between lines. -/
theorem stands_run {σ : Type} [Source σ] {source : σ} (hsource : Source.Delivers source bytes)
    (hok : ∀ answer ∈ (run source limits (.readHeader :: calls)).1, answer.1.isOk) :
    ∃ hasBom rest, bytes = preamble hasBom ++ rest ∧
      (run source limits (.readHeader :: calls)).2.Stands limits rest := by
  change ∀ answer ∈ (Cues.run (.readHeader :: calls) { session := ofSource source limits }).1, _
    at hok
  rw [Cues.run_cons] at hok
  obtain ⟨hheader, hmore⟩ := List.forall_mem_cons.mp hok
  cases hread : readHeader (ofSource source limits) with
  | ok header s =>
    obtain ⟨hasBom, rest, hbytes, hs⟩ := stands_of_readHeader hsource hread
    have hfirst : Cues.answer { session := ofSource source limits } .readHeader =
        (.header (.ok header), { session := s }) := by
      rw [Cues.answer, hread]
    rw [hfirst] at hmore
    refine ⟨hasBom, rest, hbytes, ?_⟩
    change (Cues.run (.readHeader :: calls) { session := ofSource source limits }).2.session.Stands
      limits rest
    rw [Cues.run_cons, hfirst]
    exact Cues.stands_run hs hmore
  | error e s =>
    rw [Cues.answer, hread] at hheader
    cases hheader

/-- Of bytes in memory, those after the last line read are left, but for the byte handed back. -/
theorem Stands.remaining {s : Session Slice} (h : s.Stands limits bytes) :
    s.source.remaining.data.toList =
      if Line.endingBefore s.line bytes = some .cr then (Line.after s.line bytes).tail
      else Line.after s.line bytes := by
  obtain ⟨-, hhere, hreturned⟩ := h
  obtain ⟨left, hafter, hleft⟩ := hhere.delivers
  obtain rfl := hleft.unique (Slice.delivers _)
  rw [hreturned] at hafter
  unfold line
  split
  · next hcr =>
    rw [if_pos hcr] at hafter
    cases hlines : Line.after s.stream.line bytes with
    | nil =>
      rw [hlines] at hafter
      exact (List.append_eq_nil_iff.mp hafter.symm).2
    | cons b left =>
      rw [hlines] at hafter
      exact (List.cons.inj hafter).2.symm
  · next hcr =>
    rw [if_neg hcr] at hafter
    exact hafter.symm

/-- After a header that is read and calls that all come off, the bytes in memory not delivered yet
are those after the last line read, but for the first of them if a lone carriage return ended that
line. -/
theorem remaining_of_isOk {source : Slice} {answers : List (Answer × Nat)} {s : Session Slice}
    (hrun : run source limits (.readHeader :: calls) = (answers, s))
    (hok : ∀ answer ∈ answers, answer.1.isOk) :
    s.source.remaining.data.toList =
      if Line.endingBefore s.line (body source.remaining.data.toList) = some .cr then
        (Line.after s.line (body source.remaining.data.toList)).tail
      else Line.after s.line (body source.remaining.data.toList) := by
  obtain ⟨rfl, rfl⟩ := Prod.mk.inj hrun
  obtain ⟨hasBom, rest, hbytes, hstands⟩ := stands_run source.delivers hok
  rw [hbytes, body_preamble_append]
  exact hstands.remaining

/-- Behind an empty line that is a lone carriage return, the first byte is missing. -/
theorem remaining_of_isOk_sample :
    ∃ answers s, run (Slice.ofString "WEBVTT\n\n0:1 --> 0:2\nA\r\rrest") {} [.readHeader, .nextCue] =
      (answers, s) ∧ s.source.remaining.data.toList = Text.encode "est" := by
  have hrun := Prod.eta
    (run (Slice.ofString "WEBVTT\n\n0:1 --> 0:2\nA\r\rrest") {} [.readHeader, .nextCue])
  have hremaining := remaining_of_isOk hrun.symm (by decide +kernel)
  exact ⟨_, _, hrun.symm, hremaining.trans (by decide +kernel)⟩

/-- So the bytes after the last line read are not all left. -/
theorem remaining_ne_after :
    ∃ answers s, run (Slice.ofString "WEBVTT\n\n0:1 --> 0:2\nA\r\rrest") {} [.readHeader, .nextCue] =
        (answers, s) ∧ (∀ answer ∈ answers, answer.1.isOk) ∧
      s.source.remaining.data.toList ≠
        Line.after s.line (body (Text.encode "WEBVTT\n\n0:1 --> 0:2\nA\r\rrest")) :=
  ⟨_, _, (Prod.eta _).symm, by decide +kernel, by decide +kernel⟩

end Session

end WebVTT
