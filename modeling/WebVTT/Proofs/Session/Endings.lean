import WebVTT.Proofs.Header.Reading
import WebVTT.Proofs.Lines.Unified
import WebVTT.Proofs.Session.Lockstep

/-!
# One ending is as good as another

A stream and the same stream with a line feed for every ending cannot be told apart by any calls
(`run_unify`): whatever bytes of the one are taken, the bytes left are those left of the other but
for their endings (`LineStream.Unified`), also where a line is given up in the middle. Only a header
that breaks off at an ending leaves other bytes behind, and then nothing more is read.
-/

namespace WebVTT

open Reading (Alike)

namespace LineStream

variable {σ τ : Type} [Source σ] [Source τ] {s : LineStream σ} {t : LineStream τ}

/-- The bytes to come are the same but for the endings among them, and all else is. -/
def Unified (s : LineStream σ) (t : LineStream τ) : Prop :=
  ∃ limits line bytes, s.At limits line bytes ∧ t.At limits line (Line.unify bytes) ∧
    s.notices = t.notices

omit [Source σ] [Source τ] in
/-- Nothing but the bytes to come may differ. -/
def SameCount (s : LineStream σ) (t : LineStream τ) : Prop :=
  s.line = t.line ∧ s.notices = t.notices

theorem Unified.sameCount (h : Unified s t) : SameCount s t := by
  obtain ⟨_, _, _, hs, ht, hnotices⟩ := h
  exact ⟨hs.line_eq.trans ht.line_eq.symm, hnotices⟩

theorem Unified.line_eq (h : Unified s t) : s.line = t.line := h.sameCount.1

theorem Unified.limits_eq (h : Unified s t) : s.limits = t.limits := by
  obtain ⟨_, _, _, hs, ht, -⟩ := h
  exact hs.limits_eq.trans ht.limits_eq.symm

theorem Unified.note (h : Unified s t) (n : Notice) : Unified (s.note n) (t.note n) := by
  obtain ⟨limits, line, bytes, hs, ht, hnotices⟩ := h
  exact ⟨limits, line, bytes, ⟨hs.limits_eq, hs.line_eq, hs.delivers⟩,
    ⟨ht.limits_eq, ht.line_eq, ht.delivers⟩, congrArg (·.push n) hnotices⟩

theorem Unified.completeLine (bytes : ByteArray) (h : Unified s t) :
    Unified (completeLine bytes s) (completeLine bytes t) := by
  have hline := h.line_eq
  obtain ⟨limits, line, rest, hs, ht, hnotices⟩ := h
  refine ⟨limits, line + 1, rest, ⟨hs.limits_eq, ?_, hs.delivers⟩,
    ⟨ht.limits_eq, ?_, ht.delivers⟩, ?_⟩
  · exact congrArg (· + 1) hs.line_eq
  · exact congrArg (· + 1) ht.line_eq
  · show s.notices.push _ = t.notices.push _
    rw [hnotices, hline]

omit [Source σ] [Source τ] in
/-- Taking bytes on either side counts nothing. -/
theorem SameCount.of_kept {u : LineStream σ} {v : LineStream τ} (h : SameCount s t)
    (hu : Kept s u) (hv : Kept t v) : SameCount u v :=
  ⟨hu.line_eq.trans (h.1.trans hv.line_eq.symm),
    hu.notices_eq.trans (h.2.trans hv.notices_eq.symm)⟩

/-! ## Lines -/

/-- A line that is too long is given up at the same byte. -/
theorem Unified.takeLine_of_lt {limits : Limits} {line : Nat} {content rest : List UInt8}
    (hcontent : Line.Unbroken content) (hlength : limits.maxLineLength.toNat < content.length)
    (hs : s.At limits line (content ++ rest)) (ht : t.At limits line (Line.unify (content ++ rest)))
    (hcount : SameCount s t) :
    Alike Unified Unified (takeLineAfter .empty s) (takeLineAfter .empty t) := by
  rw [Line.unify_unbroken_append hcontent] at ht
  obtain ⟨u, htake, hu⟩ := hs.takeLine_of_lt hcontent hlength
  obtain ⟨v, htake', hv⟩ := ht.takeLine_of_lt hcontent hlength
  have hkept := kept_takeLineAfter .empty (Kept.refl s)
  have hkept' := kept_takeLineAfter .empty (Kept.refl t)
  rw [htake] at hkept ⊢
  rw [htake'] at hkept' ⊢
  rw [← Line.unify_unbroken_append (hcontent.drop _)] at hv
  exact .error _ ⟨limits, line, _, hu, hv, (hcount.of_kept hkept.of_error hkept'.of_error).2⟩

/-- The bytes of a line are taken in step, with whatever ends it. -/
theorem Unified.takeLine (h : Unified s t) :
    Alike Unified Unified (takeLineAfter .empty s) (takeLineAfter .empty t) := by
  have hcount := h.sameCount
  obtain ⟨limits, line, bytes, hs, ht, -⟩ := h
  have hkept := kept_takeLineAfter .empty (Kept.refl s)
  have hkept' := kept_takeLineAfter .empty (Kept.refl t)
  rcases Line.unbroken_or_exists_ending bytes with hbytes | ⟨content, e, rest, hcontent, he, rfl⟩
  · by_cases hlength : bytes.length ≤ limits.maxLineLength.toNat
    · rw [Line.unify_of_unbroken hbytes] at ht
      obtain ⟨u, htake, hu⟩ := hs.takeLine_of_end hbytes hlength
      obtain ⟨v, htake', hv⟩ := ht.takeLine_of_end hbytes hlength
      rw [htake] at hkept ⊢
      rw [htake'] at hkept' ⊢
      exact .ok _ ⟨limits, line, [], hu, hv, (hcount.of_kept hkept.of_ok hkept'.of_ok).2⟩
    · rw [← List.append_nil bytes] at hs ht
      exact takeLine_of_lt hbytes (Nat.lt_of_not_le hlength) hs ht hcount
  · by_cases hlength : content.length ≤ limits.maxLineLength.toNat
    · rw [Line.unify_append hcontent he] at ht
      obtain ⟨u, htake, hu⟩ := hs.takeLine_of_ending hcontent he hlength
      obtain ⟨v, htake', hv⟩ := ht.takeLine_of_ending hcontent (Ending.overBefore_lf _) hlength
      rw [htake] at hkept ⊢
      rw [htake'] at hkept' ⊢
      exact .ok _ ⟨limits, line, rest, hu, hv, (hcount.of_kept hkept.of_ok hkept'.of_ok).2⟩
    · exact takeLine_of_lt hcontent (Nat.lt_of_not_le hlength) hs ht hcount

theorem lockstep_unified : Lockstep (Unified (σ := σ) (τ := τ)) Unified where
  limits_eq := Unified.limits_eq
  line_eq := Unified.line_eq
  refused := id
  readLine h := alike_readLine Unified.line_eq id (fun bytes _ _ h ↦ h.completeLine bytes) h.takeLine

/-! ## Headers -/

/-- Bytes none of which ends a line are matched in step. -/
theorem Unified.expectBytes (atEnd otherwise : Violation) {expected : List UInt8}
    (hexpected : Line.Unbroken expected) (h : Unified s t) :
    Alike Unified SameCount (expectBytes atEnd otherwise expected s)
      (expectBytes atEnd otherwise expected t) := by
  induction expected generalizing s t with
  | nil => exact .ok _ h
  | cons x expected ih =>
    obtain ⟨hx, hexpected⟩ := Line.unbroken_cons.mp hexpected
    have hcount := h.sameCount
    obtain ⟨limits, line, bytes, hs, ht, -⟩ := h
    have hkept := kept_takeByte (Kept.refl s)
    have hkept' := kept_takeByte (Kept.refl t)
    unfold LineStream.expectBytes
    cases bytes with
    | nil =>
      obtain ⟨u, htake, hu⟩ := hs.takeByte_nil
      obtain ⟨v, htake', hv⟩ := At.takeByte_nil ht
      rw [htake] at hkept
      rw [htake'] at hkept'
      rw [Reading.bind_of_ok htake, Reading.bind_of_ok htake']
      exact .error _ (hcount.of_kept hkept.of_ok hkept'.of_ok)
    | cons b rest =>
      obtain ⟨u, htake, hu⟩ := hs.takeByte_cons
      rw [htake] at hkept
      rw [Reading.bind_of_ok htake]
      by_cases hb : b = carriageReturn
      · -- either side has an ending where none is expected
        subst hb
        obtain ⟨more, hmore⟩ := Line.exists_unify_cons rest
        rw [hmore] at ht
        obtain ⟨v, htake', hv⟩ := ht.takeByte_cons
        rw [htake'] at hkept'
        rw [Reading.bind_of_ok htake']
        dsimp only
        rw [if_neg fun h ↦ hx (.inr h.symm), if_neg fun h ↦ hx (.inl h.symm)]
        exact .error _ (hcount.of_kept hkept.of_ok hkept'.of_ok)
      · rw [Line.unify_cons_of_ne rest hb] at ht
        obtain ⟨v, htake', hv⟩ := ht.takeByte_cons
        rw [htake'] at hkept'
        rw [Reading.bind_of_ok htake']
        have hcount := hcount.of_kept hkept.of_ok hkept'.of_ok
        dsimp only
        split
        · exact ih hexpected ⟨limits, line, rest, hu, hv, hcount.2⟩
        · exact .error _ hcount

/-- A byte order mark is taken in step. -/
theorem Unified.readBom (h : Unified s t) :
    Alike Unified SameCount (readBom s) (readBom t) := by
  have hcount := h.sameCount
  obtain ⟨limits, line, bytes, hs, ht, -⟩ := h
  have hkept := kept_takeByteIf 0xEF (Kept.refl s)
  have hkept' := kept_takeByteIf 0xEF (Kept.refl t)
  unfold LineStream.readBom
  cases bytes with
  | nil =>
    obtain ⟨u, htake, hu⟩ := hs.takeByteIf_nil 0xEF
    obtain ⟨v, htake', hv⟩ := At.takeByteIf_nil 0xEF ht
    rw [htake] at hkept
    rw [htake'] at hkept'
    rw [Reading.bind_of_ok htake, Reading.bind_of_ok htake']
    exact .error _ (hcount.of_kept hkept.of_ok hkept'.of_ok)
  | cons b rest =>
    by_cases hb : b = 0xEF
    · subst hb
      rw [Line.unify_cons_of_ne rest (by decide)] at ht
      obtain ⟨u, htake, hu⟩ := hs.takeByteIf_self
      obtain ⟨v, htake', hv⟩ := ht.takeByteIf_self
      rw [htake] at hkept
      rw [htake'] at hkept'
      rw [Reading.bind_of_ok htake, Reading.bind_of_ok htake']
      have huv : Unified u v :=
        ⟨limits, line, rest, hu, hv, (hcount.of_kept hkept.of_ok hkept'.of_ok).2⟩
      refine (huv.expectBytes _ _ ?_).bind fun _ s t hst ↦ .ok true hst
      simp [Line.Unbroken, lineFeed, carriageReturn]
    · obtain ⟨u, htake, hu⟩ := hs.takeByteIf_of_ne hb
      have hfirst : ∃ c more, Line.unify (b :: rest) = c :: more ∧ c ≠ 0xEF := by
        by_cases hcr : b = carriageReturn
        · obtain ⟨more, hmore⟩ := Line.exists_unify_cons rest
          exact ⟨lineFeed, more, hcr ▸ hmore, by decide⟩
        · exact ⟨b, Line.unify rest, Line.unify_cons_of_ne rest hcr, hb⟩
      obtain ⟨c, more, hmore, hc⟩ := hfirst
      rw [hmore] at ht
      obtain ⟨v, htake', hv⟩ := ht.takeByteIf_of_ne hc
      rw [htake] at hkept
      rw [htake'] at hkept'
      rw [Reading.bind_of_ok htake, Reading.bind_of_ok htake']
      rw [← hmore] at hv
      exact .ok false ⟨limits, line, _, hu, hv, (hcount.of_kept hkept.of_ok hkept'.of_ok).2⟩

theorem Unified.readSignature (h : Unified s t) :
    Alike Unified SameCount (readSignature s) (readSignature t) := by
  rw [readSignature_eq, readSignature_eq]
  exact h.expectBytes _ _ (unbroken_preamble false)

end LineStream

namespace Session

open LineStream (Unified SameCount)

variable {σ τ : Type} [Source σ] [Source τ]

/-- Whatever is read of streams that differ in their endings is read in step. -/
theorem lockstep_unified : Lockstep (Unified (σ := σ) (τ := τ)) Unified SameCount where
  lines := LineStream.lockstep_unified
  header := by
    intro s t hst
    have hlines : LineStream.Lockstep (Unified (σ := σ) (τ := τ)) SameCount :=
      LineStream.lockstep_unified.mono fun _ _ ↦ Unified.sameCount
    exact hlines.readHeader Unified.readBom Unified.readSignature hst
  line_eq_atHeader := Unified.line_eq
  line_eq_rejected h := h.1
  note n h := h.note n
  note_rejected n h := ⟨h.1, congrArg (·.push n) h.2⟩

/-- A stream with a line feed for each of its endings, and a carriage return with a line feed right
after it is one, answers all calls the same, with the same numbers of lines and the same notices. -/
theorem run_unify {source : σ} {source' : τ} {bytes : List UInt8}
    (hsource : Source.Delivers source bytes)
    (hsource' : Source.Delivers source' (Line.unify bytes)) (limits : Limits) (calls : List Call) :
    (run source limits calls).1 = (run source' limits calls).1 ∧
      (run source limits calls).2.notices = (run source' limits calls).2.notices := by
  have hstart : Unified { source, limits : LineStream σ } { source := source', limits } :=
    ⟨limits, 0, bytes, LineStream.at_ofSource hsource, LineStream.at_ofSource hsource', rfl⟩
  obtain ⟨hanswers, hlast⟩ := lockstep_unified.run hstart calls
  have hcount := hlast.stream Unified.sameCount Unified.sameCount id
  exact ⟨hanswers, hcount.2⟩

/-- All endings, a line that is too long by its last byte, and a walk that goes on after it. -/
theorem run_unify_sample :
    (run (Script.mk
          ((Text.encode "WEBVTT\r\n\ridentifier A\r\r\n0:1 --> 0:2\rB\r\n").map .byte)) ⟨11, 1⟩
        [.cues, .readHeader, .nextCue, .step]).1 =
      (run (Script.mk
          ((Text.encode "WEBVTT\n\nidentifier A\n\n0:1 --> 0:2\nB\n").map .byte)) ⟨11, 1⟩
        [.cues, .readHeader, .nextCue, .step]).1 := by
  have hunify : Text.encode "WEBVTT\n\nidentifier A\n\n0:1 --> 0:2\nB\n" =
      Line.unify (Text.encode "WEBVTT\r\n\ridentifier A\r\r\n0:1 --> 0:2\rB\r\n") := by
    decide +kernel
  exact (run_unify (Script.delivers _) (hunify ▸ Script.delivers _) _ _).1

end Session

end WebVTT
