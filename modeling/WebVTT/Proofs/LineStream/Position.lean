import WebVTT.Proofs.Header.Reading
import WebVTT.Proofs.LineStream.Cases
import WebVTT.Proofs.Lines.After

/-!
# Places between lines

`s.StandsBefore limits bytes k` says that what is to come of a stream are all bytes after its first
`k` lines, a byte handed back included. Reading goes from such a place to another one as long as
lines are read, and also where a line is no text (`StandsBefore.of_fixable`): that line has been taken
as a whole. It does not where a line is too long.
-/

namespace WebVTT

/-- A line that is not too long counts, text or not. -/
theorem LineRead.counted_ofBytes (bytes : List UInt8) : (LineRead.ofBytes bytes).counted = 1 := by
  unfold LineRead.ofBytes
  split <;> rfl

namespace LineStream

variable {σ : Type} [Source σ] {s t : LineStream σ} {limits : Limits} {line k : Nat}
  {bytes : List UInt8} {l : Line} {text : String}

/-! ## The next line of a finite stream -/

/-- The first line is read as a whole if it is not too long. -/
theorem At.readLine_of_le (hfirst : (Line.split bytes)[0]? = some l)
    (hlength : l.content.length ≤ limits.maxLineLength.toNat) (h : s.At limits line bytes) :
    ∃ t, readLine s = Reading.result ((LineRead.ofBytes l.content).outcome limits line) t ∧
      t.At limits (line + 1) (Line.after 1 bytes) := by
  rcases Line.unbroken_or_exists_ending bytes with hbytes | ⟨content, e, rest, hcontent, he, rfl⟩
  · have hne : bytes ≠ [] := by
      rintro rfl
      cases hfirst
    rw [Line.split_of_unbroken hbytes hne] at hfirst
    cases hfirst
    obtain ⟨t, htake, ht⟩ := h.takeLine_of_end hbytes hlength
    rw [if_neg hne] at htake
    obtain ⟨u, hread, hu⟩ := ht.readLine_of_take htake
    rw [LineRead.counted_ofBytes] at hu
    rw [Line.after_succ_of_unbroken (by rwa [Line.after_zero])]
    exact ⟨u, hread, hu⟩
  · rw [Line.split_append hcontent he] at hfirst
    cases hfirst
    obtain ⟨t, htake, ht⟩ := h.takeLine_of_ending hcontent he hlength
    obtain ⟨u, hread, hu⟩ := ht.readLine_of_take htake
    rw [LineRead.counted_ofBytes] at hu
    rw [Line.after_succ_of_ending hcontent he (Line.after_zero _)]
    exact ⟨u, hread, hu⟩

/-- The first line is refused if it is too long. -/
theorem At.readLine_of_excess (hfirst : (Line.split bytes)[0]? = some l)
    (hlength : limits.maxLineLength.toNat < l.content.length) (h : s.At limits line bytes) :
    ∃ t, readLine s = .error (.violation (.lineTooLong (line + 1) limits.maxLineLength)) t := by
  obtain ⟨hcontent, more, rfl⟩ := Line.exists_eq_append_of_first hfirst
  obtain ⟨t, hread, -⟩ := h.readLine_of_lt hcontent hlength
  exact ⟨t, hread⟩

/-! ## From one place to another -/

/-- The stream stands before line `k` of these bytes, counted from zero, or at their end. -/
def StandsBefore (s : LineStream σ) (limits : Limits) (bytes : List UInt8) (k : Nat) : Prop :=
  s.At limits s.line (Line.after k bytes)

namespace StandsBefore

/-- A notice changes nothing about where a stream stands. -/
theorem note (h : s.StandsBefore limits bytes k) (n : Notice) :
    (s.note n).StandsBefore limits bytes k := ⟨h.limits_eq, rfl, h.delivers⟩

theorem of_at (h : s.At limits line (Line.after k bytes)) : s.StandsBefore limits bytes k := by
  obtain rfl := h.line_eq
  exact h

/-- At a place between lines, there is a line left or not, and it is too long or not. -/
theorem readLine_cases (h : s.StandsBefore limits bytes k) :
    ((Line.split bytes)[k]? = none ∧ ∃ t, readLine s = .ok none t ∧ t.At limits s.line []) ∨
      ∃ l, (Line.split bytes)[k]? = some l ∧
        ((∃ t, readLine s = Reading.result ((LineRead.ofBytes l.content).outcome limits s.line) t ∧
            t.StandsBefore limits bytes (k + 1)) ∨
          limits.maxLineLength.toNat < l.content.length ∧ ∃ t, readLine s =
            .error (.violation (.lineTooLong (s.line + 1) limits.maxLineLength)) t) := by
  cases hline : (Line.split bytes)[k]? with
  | none =>
    have hend : s.At limits s.line [] := Line.after_eq_nil_iff.mpr hline ▸ h
    exact .inl ⟨rfl, hend.readLine_nil⟩
  | some l =>
    have hfirst : (Line.split (Line.after k bytes))[0]? = some l := by
      rw [Line.split_after_eq_cons hline]
      rfl
    refine .inr ⟨l, rfl, ?_⟩
    by_cases hlength : l.content.length ≤ limits.maxLineLength.toNat
    · obtain ⟨t, hread, ht⟩ := At.readLine_of_le hfirst hlength h
      rw [← Line.after_succ] at ht
      exact .inl ⟨t, hread, .of_at ht⟩
    · have hlength := Nat.lt_of_not_le hlength
      exact .inr ⟨hlength, At.readLine_of_excess hfirst hlength h⟩

/-- A line that is read is the one before which the stream stood. -/
theorem of_text (h : s.StandsBefore limits bytes k) (hread : readLine s = .ok (some text) t) :
    (Line.split bytes)[k]?.bind (fun l ↦ Text.decode l.content) = some text ∧
      t.StandsBefore limits bytes (k + 1) := by
  rcases h.readLine_cases with ⟨-, u, hu, -⟩ | ⟨l, hl, ⟨u, hu, hstands⟩ | ⟨-, u, hu⟩⟩
  · rw [hu] at hread
    cases hread
  · rw [hl, Option.bind_some, ← LineRead.ofBytes_eq_ok_iff]
    rw [hread] at hu
    cases hbytes : LineRead.ofBytes l.content with
    | ok text' =>
      rw [hbytes] at hu
      cases hu
      exact ⟨rfl, hstands⟩
    | error f =>
      rw [hbytes] at hu
      cases hu
  · rw [hu] at hread
    cases hread

/-- Where no line is read, the stream stands at the end. -/
theorem of_ended (h : s.StandsBefore limits bytes k) (hread : readLine s = .ok none t) {n : Nat}
    (hn : k ≤ n) : t.StandsBefore limits bytes n := by
  rcases h.readLine_cases with ⟨hnone, u, hu, hend⟩ | ⟨l, hl, ⟨u, hu, -⟩ | ⟨-, u, hu⟩⟩
  · rw [hread] at hu
    cases hu
    rw [← Line.after_eq_nil_of_le (Line.after_eq_nil_iff.mpr hnone) hn] at hend
    exact .of_at hend
  · rw [hread] at hu
    cases hbytes : LineRead.ofBytes l.content <;> rw [hbytes] at hu <;> cases hu
  · rw [hread] at hu
    cases hu

/-- A line that its author can mend has been taken as a whole. -/
theorem of_fixable {e : Error} (h : s.StandsBefore limits bytes k)
    (hread : readLine s = .error e t) (hfixable : e.isUserFixable) :
    t.StandsBefore limits bytes (k + 1) := by
  rcases h.readLine_cases with ⟨-, u, hu, -⟩ | ⟨l, -, ⟨u, hu, hstands⟩ | ⟨-, u, hu⟩⟩
  · rw [hread] at hu
    cases hu
  · rw [hread] at hu
    cases hbytes : LineRead.ofBytes l.content <;> rw [hbytes] at hu <;> cases hu
    exact hstands
  · -- A line that is too long exceeds a limit, and nobody can mend a limit.
    rw [hread] at hu
    cases hu
    cases hfixable

/-- Lines that are read are those before which the stream stood. -/
theorem of_readsLines {texts : List String} (h : s.StandsBefore limits bytes k)
    (hread : ReadsLines s texts t) :
    Line.TextsFrom bytes k texts ∧ t.StandsBefore limits bytes (k + texts.length) := by
  induction hread generalizing k with
  | nil => exact ⟨Line.textsFrom_nil, h⟩
  | @cons s t u text texts hread _ ih =>
    obtain ⟨htext, ht⟩ := h.of_text hread
    obtain ⟨htexts, hu⟩ := ih ht
    rw [List.length_cons, Nat.add_comm texts.length, ← Nat.add_assoc]
    exact ⟨Line.textsFrom_cons.mpr ⟨htext, htexts⟩, hu⟩

end StandsBefore

/-! ## After a header -/

omit [Source σ] in
/-- Nothing is taken for the description of a line that has been read. -/
theorem eq_of_readDescription {description : String}
    (h : readDescription text s = .ok description t) : t = s := by
  by_cases hblank : ∀ c ∈ text.toList.head?, isBlank c
  · rw [readDescription_of_describes ⟨hblank, rfl⟩] at h
    cases h
    rfl
  · rw [readDescription_of_not hblank] at h
    cases h

/-- After a header the stream stands before its third line. -/
theorem At.standsBefore_of_readHeader {header : Header} (h : s.At limits 0 bytes)
    (hok : LineStream.readHeader s = .ok header t) : t.StandsBefore limits bytes 2 := by
  obtain ⟨hasBom, u, hbom, hmore⟩ := Reading.ok_of_bind hok
  obtain ⟨_, v, hsignature, hmore⟩ := Reading.ok_of_bind hmore
  obtain ⟨first?, w, hfirst, hmore⟩ := Reading.ok_of_bind hmore
  obtain ⟨rest, rfl, hu⟩ := h.eq_append_of_readBom hbom
  rw [readSignature_eq] at hsignature
  obtain ⟨rest, rfl, hv⟩ := hu.eq_append_of_expectBytes hsignature
  rw [← Line.after_zero rest] at hv
  have hv : v.StandsBefore limits rest 0 := .of_at hv
  suffices ht : t.StandsBefore limits rest 2 by
    unfold StandsBefore at ht ⊢
    rwa [← List.append_assoc, ← preamble, Line.after_succ_append (unbroken_preamble hasBom)]
  cases first? with
  | none =>
    cases hmore
    exact hv.of_ended hfirst (Nat.zero_le 2)
  | some first =>
    obtain ⟨-, hw⟩ := hv.of_text hfirst
    obtain ⟨description, x, hdescription, hmore⟩ := Reading.ok_of_bind hmore
    obtain ⟨second?, y, hsecond, hmore⟩ := Reading.ok_of_bind hmore
    obtain rfl := eq_of_readDescription hdescription
    cases second? with
    | none =>
      cases hmore
      exact hw.of_ended hsecond (Nat.le_succ 1)
    | some second =>
      dsimp only at hmore
      split at hmore
      · cases hmore
        exact (hw.of_text hsecond).2
      · cases hmore

end LineStream

end WebVTT
