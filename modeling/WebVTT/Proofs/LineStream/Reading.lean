import WebVTT.Proofs.Lines.Reads
import WebVTT.Proofs.LineStream.Finite

/-!
# Reading lines of a finite stream

`readLine` yields the reads of a stream one after the other (`readLine_ok`, `readLine_error`), and
nothing once there are none left (`readLine_nil`). From here on a stream is known by its reads:
`s.Awaits limits line rs` says that so many lines have been read and that `rs` is yet to come.
-/

namespace WebVTT.LineStream

variable {σ : Type} [Source σ]
variable {s t u : LineStream σ} {limits : Limits} {line : Nat} {b : UInt8}

/-! ## Up to the end of a line -/

section TakeLine

variable {taken : ByteArray}

theorem takeLineAfter_of_ended (h : s.next = (.ended, t)) :
    takeLineAfter taken s = .ok (if taken.isEmpty then none else some taken) t := by
  rw [takeLineAfter]
  split <;> simp_all

theorem takeLineAfter_of_terminator (h : s.next = (.byte b, t))
    (hb : b = lineFeed ∨ b = carriageReturn) (hfinish : finishTerminator b t = .ok () u) :
    takeLineAfter taken s = .ok (some taken) u := by
  rw [takeLineAfter]
  split <;> simp_all

theorem takeLineAfter_of_failed {failure : Failure} (h : s.next = (.failed failure, t)) :
    takeLineAfter taken s = .error (.source failure) t := by
  rw [takeLineAfter]
  split <;> simp_all

theorem takeLineAfter_of_unfinished {e : Error} (h : s.next = (.byte b, t))
    (hb : b = lineFeed ∨ b = carriageReturn) (hfinish : finishTerminator b t = .error e u) :
    takeLineAfter taken s = .error e u := by
  rw [takeLineAfter]
  split <;> simp_all

theorem takeLineAfter_of_content (h : s.next = (.byte b, t))
    (hb : ¬(b = lineFeed ∨ b = carriageReturn))
    (hroom : taken.size < t.limits.maxLineLength.toNat) :
    takeLineAfter taken s = takeLineAfter (taken.push b) t := by
  rw [takeLineAfter]
  split
  · simp_all
  · simp_all
  · next c v hnext =>
    obtain ⟨rfl, rfl⟩ : b = c ∧ t = v := by simpa [h] using hnext
    rw [if_neg hb, if_neg (Nat.not_le.mpr hroom)]

theorem takeLineAfter_of_excess (h : s.next = (.byte b, t))
    (hb : ¬(b = lineFeed ∨ b = carriageReturn))
    (hfull : t.limits.maxLineLength.toNat ≤ taken.size) :
    takeLineAfter taken s =
      .error (.violation (.lineTooLong (t.line + 1) t.limits.maxLineLength)) t := by
  rw [takeLineAfter]
  split <;> simp_all

/-- Content within the limit is taken byte by byte. -/
theorem At.takeLineAfter_content {content more : List UInt8} (hcontent : Line.Unbroken content)
    (hlength : taken.size + content.length ≤ limits.maxLineLength.toNat)
    (h : s.At limits line (content ++ more)) :
    ∃ t, takeLineAfter taken s = takeLineAfter (taken ++ content.toByteArray) t ∧
      t.At limits line more := by
  induction content generalizing taken s with
  | nil => exact ⟨s, by simp, h⟩
  | cons b content ih =>
    obtain ⟨hb, hcontent⟩ := Line.unbroken_cons.mp hcontent
    obtain ⟨t, hnext, ht, -⟩ := h.next_cons
    rw [List.length_cons] at hlength
    have hpushed : (taken.push b).size + content.length ≤ limits.maxLineLength.toNat := by
      rw [ByteArray.size_push]
      omega
    obtain ⟨u, htake, hu⟩ := ih hcontent hpushed ht
    refine ⟨u, ?_, hu⟩
    rw [takeLineAfter_of_content hnext hb (by rw [ht.limits_eq]; omega), htake,
      ← ByteArray.append_toByteArray_singleton, ByteArray.append_assoc, ← List.toByteArray_append,
      List.singleton_append]

end TakeLine

/-! ## Whole lines -/

section TakeWhole

variable {content rest : List UInt8}

/-- A line within the limit is taken with its ending. -/
theorem At.takeLine_of_ending {e : Ending} (hcontent : Line.Unbroken content)
    (he : e.OverBefore rest) (hlength : content.length ≤ limits.maxLineLength.toNat)
    (h : s.At limits line (content ++ (e.bytes ++ rest))) :
    ∃ t, takeLineAfter .empty s = .ok (some content.toByteArray) t ∧ t.At limits line rest := by
  have hlength : ByteArray.empty.size + content.length ≤ limits.maxLineLength.toNat := by simpa
  obtain ⟨t, htake, ht⟩ := At.takeLineAfter_content hcontent hlength h
  obtain ⟨first, u, v, hnext, hfirst, hfinish, hv⟩ := ht.finishTerminator he
  exact ⟨v, by rw [htake, takeLineAfter_of_terminator hnext hfirst hfinish]; simp, hv⟩

/-- What the stream ends with is taken, if it is within the limit. -/
theorem At.takeLine_of_end (hcontent : Line.Unbroken content)
    (hlength : content.length ≤ limits.maxLineLength.toNat) (h : s.At limits line content) :
    ∃ t, takeLineAfter .empty s =
        .ok (if content = [] then none else some content.toByteArray) t ∧
      t.At limits line [] := by
  have hlength : ByteArray.empty.size + content.length ≤ limits.maxLineLength.toNat := by simpa
  rw [← List.append_nil content] at h
  obtain ⟨t, htake, ht⟩ := At.takeLineAfter_content hcontent hlength h
  obtain ⟨u, hnext, hu⟩ := ht.next_nil
  refine ⟨u, ?_, hu⟩
  rw [htake, takeLineAfter_of_ended hnext, ByteArray.empty_append]
  cases content <;> simp [ByteArray.isEmpty]

/-- A line within the limit is taken as a whole, whether it has an ending or is what the stream ends
with. -/
theorem At.takeLine_of_le {ending : Option Ending} (hcontent : Line.Unbroken content)
    (hending : ∀ e ∈ ending, e.OverBefore rest) (hend : ending = none → rest = [])
    (hl : ending ≠ none ∨ content ≠ []) (hlength : content.length ≤ limits.maxLineLength.toNat)
    (h : s.At limits line (Line.bytes ⟨content, ending⟩ ++ rest)) :
    ∃ t, takeLineAfter .empty s = .ok (some content.toByteArray) t ∧ t.At limits line rest := by
  cases ending with
  | some e =>
    have h : s.At limits line (content ++ (e.bytes ++ rest)) := by rwa [← List.append_assoc]
    exact h.takeLine_of_ending hcontent (hending e rfl) hlength
  | none =>
    obtain rfl := hend rfl
    have h : s.At limits line content := by simpa [Line.bytes] using h
    obtain ⟨t, htake, ht⟩ := h.takeLine_of_end hcontent hlength
    rw [if_neg (hl.resolve_left (not_not.mpr rfl))] at htake
    exact ⟨t, htake, ht⟩

/-- A line beyond the limit is refused at the first byte too many, which is gone. -/
theorem At.takeLine_of_lt (hcontent : Line.Unbroken content)
    (hlength : limits.maxLineLength.toNat < content.length)
    (h : s.At limits line (content ++ rest)) :
    ∃ t, takeLineAfter .empty s =
        .error (.violation (.lineTooLong (line + 1) limits.maxLineLength)) t ∧
      t.At limits line (content.drop (limits.maxLineLength.toNat + 1) ++ rest) := by
  have hfirst : (content.take limits.maxLineLength.toNat).length = limits.maxLineLength.toNat :=
    List.length_take_of_le (Nat.le_of_lt hlength)
  have hroom : ByteArray.empty.size + (content.take limits.maxLineLength.toNat).length ≤
      limits.maxLineLength.toNat := by simp [hfirst]
  rw [← List.take_append_drop limits.maxLineLength.toNat content, List.append_assoc,
    List.drop_eq_getElem_cons hlength, List.cons_append] at h
  obtain ⟨t, htake, ht⟩ := At.takeLineAfter_content
    (hcontent.mono (List.take_prefix limits.maxLineLength.toNat content)) hroom h
  obtain ⟨u, hnext, hu, -⟩ := ht.next_cons
  refine ⟨u, ?_, hu⟩
  rw [htake, takeLineAfter_of_excess hnext (hcontent _ (List.getElem_mem hlength))
    (by simp [hu.limits_eq, hfirst]), hu.line_eq, hu.limits_eq]

end TakeWhole

/-! ## One read after the other -/

/-- The stream is read under these limits, so many lines of it have been read, and what is to come
is read like this. -/
def Awaits (s : LineStream σ) (limits : Limits) (line : Nat) (rs : List LineRead) : Prop :=
  ∃ bytes, s.At limits line bytes ∧ reads limits.maxLineLength.toNat bytes = rs

theorem Awaits.limits_eq {rs : List LineRead} (h : s.Awaits limits line rs) : s.limits = limits :=
  h.choose_spec.1.limits_eq

theorem Awaits.line_eq {rs : List LineRead} (h : s.Awaits limits line rs) : s.line = line :=
  h.choose_spec.1.line_eq

/-- A notice changes nothing for reading. -/
theorem Awaits.note {rs : List LineRead} (h : s.Awaits limits line rs) (notice : Notice) :
    (s.note notice).Awaits limits line rs := by
  obtain ⟨bytes, ⟨hlimits, hline, hdelivers⟩, hreads⟩ := h
  exact ⟨bytes, ⟨hlimits, hline, hdelivers⟩, hreads⟩

/-- At the end there is no line. -/
theorem At.readLine_nil (h : s.At limits line []) :
    ∃ t, readLine s = .ok none t ∧ t.At limits line [] := by
  obtain ⟨t, htake, ht⟩ := h.takeLine_of_end Line.unbroken_nil (Nat.zero_le _)
  exact ⟨t, Reading.bind_of_ok htake, ht⟩

/-- Bytes that were taken as a line are read as a text or refused. -/
theorem At.readLine_of_take {content rest : List UInt8} (ht : t.At limits line rest)
    (htake : takeLineAfter .empty s = .ok (some content.toByteArray) t) :
    ∃ u, readLine s = Reading.result ((LineRead.ofBytes content).outcome limits line) u ∧
      u.At limits (line + (LineRead.ofBytes content).counted) rest := by
  refine ⟨completeLine content.toByteArray t, ?_, ht.limits_eq, ?_, ht.delivers⟩
  · unfold readLine
    rw [Reading.bind_of_ok htake]
    dsimp only
    rw [Reading.bind_modify]
    unfold LineRead.ofBytes Text.decode
    cases hdecode : String.fromUTF8? content.toByteArray with
    | some text => rfl
    | none =>
      show EStateM.Result.error (Error.violation (.invalidUtf8 (t.line + 1))) _ = _
      rw [ht.line_eq]
      rfl
  · change t.line + 1 = _
    rw [ht.line_eq]
    unfold LineRead.ofBytes
    split <;> rfl

/-- A line that was given up leaves the rest of it to come. -/
theorem At.readLine_of_lt {content rest : List UInt8} (hcontent : Line.Unbroken content)
    (hlength : limits.maxLineLength.toNat < content.length)
    (h : s.At limits line (content ++ rest)) :
    ∃ t, readLine s = Reading.result (LineRead.outcome limits line (.error .overlong)) t ∧
      t.At limits line (content.drop (limits.maxLineLength.toNat + 1) ++ rest) := by
  obtain ⟨t, htake, ht⟩ := h.takeLine_of_lt hcontent hlength
  exact ⟨t, Reading.bind_of_error htake, ht⟩

/-- As long as bytes are to come, reading takes the first read of them. -/
theorem At.exists_readLine {bytes : List UInt8} (hne : bytes ≠ [])
    (h : s.At limits line bytes) :
    ∃ r rest t, reads limits.maxLineLength.toNat bytes =
        r :: reads limits.maxLineLength.toNat rest ∧
      readLine s = Reading.result (r.outcome limits line) t ∧
      t.At limits (line + r.counted) rest := by
  rcases Line.unbroken_or_exists_ending bytes with hbytes | ⟨content, e, rest, hcontent, he, rfl⟩
  · by_cases hlength : bytes.length ≤ limits.maxLineLength.toNat
    · obtain ⟨t, htake, ht⟩ := h.takeLine_of_end hbytes hlength
      rw [if_neg hne] at htake
      obtain ⟨u, hread, hu⟩ := ht.readLine_of_take htake
      refine ⟨.ofBytes bytes, [], u, ?_, hread, hu⟩
      rw [reads_of_unbroken hbytes, Line.reads_of_le hlength (.inr hne), reads_nil]
    · have hlength := Nat.lt_of_not_le hlength
      rw [← List.append_nil bytes] at h
      obtain ⟨t, hread, ht⟩ := h.readLine_of_lt hbytes hlength
      refine ⟨.error .overlong, bytes.drop (limits.maxLineLength.toNat + 1), t, ?_, hread, ?_⟩
      · rw [reads_of_unbroken hbytes, Line.reads_of_lt hlength, reads_of_unbroken (hbytes.drop _)]
      · rwa [List.append_nil] at ht
  · by_cases hlength : content.length ≤ limits.maxLineLength.toNat
    · obtain ⟨t, htake, ht⟩ := h.takeLine_of_ending hcontent he hlength
      obtain ⟨u, hread, hu⟩ := ht.readLine_of_take htake
      refine ⟨.ofBytes content, rest, u, ?_, hread, hu⟩
      rw [reads_append hcontent he, Line.reads_of_le hlength (.inl (Option.some_ne_none e)),
        List.singleton_append]
    · have hlength := Nat.lt_of_not_le hlength
      obtain ⟨t, hread, ht⟩ := h.readLine_of_lt hcontent hlength
      refine ⟨.error .overlong, _, t, ?_, hread, ht⟩
      rw [reads_append hcontent he, Line.reads_of_lt hlength, reads_append (hcontent.drop _) he,
        List.cons_append]

/-- At the end of the stream there is no line. -/
theorem Awaits.readLine_nil (h : s.Awaits limits line []) :
    ∃ t, readLine s = .ok none t ∧ t.Awaits limits line [] := by
  obtain ⟨bytes, hs, hreads⟩ := h
  have hbytes : bytes = [] := by
    by_contra hne
    obtain ⟨r, rest, t, hcons, -⟩ := hs.exists_readLine hne
    rw [hreads] at hcons
    cases hcons
  subst hbytes
  obtain ⟨t, hread, ht⟩ := hs.readLine_nil
  exact ⟨t, hread, [], ht, rfl⟩

/-- What is to come is read one after the other. -/
theorem Awaits.readLine_cons {r : LineRead} {rs : List LineRead}
    (h : s.Awaits limits line (r :: rs)) :
    ∃ t, readLine s = Reading.result (r.outcome limits line) t ∧
      t.Awaits limits (line + r.counted) rs := by
  obtain ⟨bytes, hs, hreads⟩ := h
  have hne : bytes ≠ [] := by
    rintro rfl
    cases hreads
  obtain ⟨r', rest, t, hcons, hread, ht⟩ := hs.exists_readLine hne
  obtain ⟨rfl, rfl⟩ : r' = r ∧ reads limits.maxLineLength.toNat rest = rs := by
    simpa [hreads, eq_comm] using hcons
  exact ⟨t, hread, rest, ht, rfl⟩

end WebVTT.LineStream
