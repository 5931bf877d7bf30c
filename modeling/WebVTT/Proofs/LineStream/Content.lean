import WebVTT.Proofs.LineStream.Cases
import WebVTT.Proofs.Lines.Writing

/-!
# What lines hold

Whatever the source does, a line that is read is a text without line ends, and no longer than allowed
(`LineStream.fitsLine_of_readLine`): its bytes were taken one by one, none of them ends a line, and
the limit is checked before each. So is whatever stands in such a line (`FitsLine.of_infix`).
-/

namespace WebVTT

/-- The bytes that decode to a text are its UTF-8 form. -/
theorem Text.encode_of_fromUTF8? {bytes : ByteArray} {text : String}
    (h : String.fromUTF8? bytes = some text) : encode text = bytes.data.toList := by
  have hbytes : bytes.data.toList.toByteArray = bytes := ByteArray.ext (by simp)
  rw [← decode_eq_some_iff, decode, hbytes, h]

/-- A text whose bytes have no line ends has none. -/
theorem oneLine_of_unbroken {text : String} (h : Line.Unbroken (Text.encode text)) :
    OneLine text := by
  have hbyte : ∀ c ∈ text.toList, ∀ b ∈ String.utf8EncodeChar c,
      ¬(b = LineStream.lineFeed ∨ b = LineStream.carriageReturn) := by
    intro c hc b hb
    rw [Text.encode_eq_flatMap] at h
    exact h b (List.mem_flatMap.mpr ⟨c, hc, hb⟩)
  intro c hc
  constructor
  · rintro rfl
    exact hbyte '\n' hc LineStream.lineFeed (by decide) (.inl rfl)
  · rintro rfl
    exact hbyte '\r' hc LineStream.carriageReturn (by decide) (.inr rfl)

/-- A text that stands in another has no more bytes. -/
theorem Text.length_encode_le_of_infix {s t : String} (h : s.toList <:+: t.toList) :
    (encode s).length ≤ (encode t).length := by
  obtain ⟨before, after, htext⟩ := h
  rw [encode_eq_flatMap, encode_eq_flatMap, ← htext]
  simp only [List.flatMap_append, List.length_append]
  omega

/-- A text that fits on a line under these limits. -/
structure FitsLine (limits : Limits) (text : String) : Prop where
  oneLine : OneLine text
  length_le : (Text.encode text).length ≤ limits.maxLineLength.toNat

theorem fitsLine_empty (limits : Limits) : FitsLine limits "" := ⟨oneLine_empty, Nat.zero_le _⟩

/-- What stands in a line fits on a line. -/
theorem FitsLine.of_infix {limits : Limits} {s t : String} (h : FitsLine limits t)
    (hpart : s.toList <:+: t.toList) : FitsLine limits s :=
  ⟨fun c hc ↦ h.oneLine c (hpart.subset hc),
    Nat.le_trans (Text.length_encode_le_of_infix hpart) h.length_le⟩

namespace LineStream

variable {σ : Type} [Source σ] {s t : LineStream σ}

/-- The bytes of a line have no line end among them, and are no more than allowed. -/
theorem unbroken_of_takeLine {taken bytes : ByteArray}
    (h : takeLineAfter taken s = .ok (some bytes) t) (htaken : Line.Unbroken taken.data.toList)
    (hsize : taken.size ≤ s.limits.maxLineLength.toNat) :
    Line.Unbroken bytes.data.toList ∧ bytes.size ≤ s.limits.maxLineLength.toNat := by
  fun_induction takeLineAfter taken s with
  | case1 taken s u hnext =>
    split at h
    · cases h
    · cases h
      exact ⟨htaken, hsize⟩
  | case2 => cases h
  | case3 =>
    cases h
    exact ⟨htaken, hsize⟩
  | case4 => cases h
  | case5 => cases h
  | case6 taken s b u hnext hb hroom ih =>
    have hlimits : u.limits = s.limits := (kept_of_next hnext).limits_eq
    rw [hlimits] at hroom ih
    refine ih h ?_ ?_
    · rw [ByteArray.data_push, Array.toList_push]
      exact List.forall_mem_append.mpr ⟨htaken, List.forall_mem_singleton.mpr hb⟩
    · rw [ByteArray.size_push]
      exact Nat.lt_of_not_le hroom

/-- A line that is read fits on a line. -/
theorem fitsLine_of_readLine {text : String} (h : readLine s = .ok (some text) t) :
    FitsLine s.limits text := by
  have hcase := lineCase_readLine s
  rw [h] at hcase
  cases hcase with
  | text htake hdecode =>
    obtain ⟨hunbroken, hsize⟩ := unbroken_of_takeLine htake Line.unbroken_nil (Nat.zero_le _)
    rw [← Text.encode_of_fromUTF8? hdecode] at hunbroken
    refine ⟨oneLine_of_unbroken hunbroken, ?_⟩
    rw [Text.encode_of_fromUTF8? hdecode]
    simpa using hsize

/-- So does every line that is read. -/
theorem ReadsLines.fitsLine {texts : List String} (h : ReadsLines s texts t) :
    ∀ text ∈ texts, FitsLine s.limits text := by
  induction h with
  | nil => exact fun _ htext ↦ nomatch htext
  | @cons s t u text texts hread _ ih =>
    have hlimits := limits_readLine s
    rw [hread] at hlimits
    rw [hlimits.of_ok] at ih
    exact List.forall_mem_cons.mpr ⟨fitsLine_of_readLine hread, ih⟩

end LineStream

end WebVTT
