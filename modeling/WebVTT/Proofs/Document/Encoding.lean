import WebVTT.Proofs.Document.Limits
import WebVTT.Proofs.Document.Truncation
import WebVTT.Proofs.Header.Acceptance
import WebVTT.Proofs.Text.Utf8

/-!
# Documents are UTF-8 as a whole

Lines are decoded one by one, and what comes before them is not decoded at all. All the same a
stream that is UTF-8 is never refused for its encoding, and a stream that is not is never a document
(`Document.isUtf8_of_read`).
-/

namespace WebVTT

/-! ## Lines -/

/-- What is at fault with the first line that cannot be read, if there is one. -/
def lineFault? (rs : List LineRead) : Option LineFault :=
  rs.findSome? fun
    | .ok _ => none
    | .error f => some f

/-- Where the first fault is that a line is no text, it is this line, or it is found after it. -/
theorem Line.of_lineFault?_reads {limit : Nat} {l : Line} {rs : List LineRead}
    (hl : l.ending ≠ none ∨ l.content ≠ [])
    (h : lineFault? (l.reads limit ++ rs) = some .undecodable) :
    ¬Text.IsUtf8 l.content ∨ lineFault? rs = some .undecodable := by
  by_cases hlength : l.content.length ≤ limit
  · rw [reads_of_le hlength hl] at h
    cases hdecode : Text.decode l.content with
    | none =>
      left
      rw [← Text.decode_ne_none_iff]
      exact fun hne ↦ hne hdecode
    | some text =>
      right
      rw [LineRead.ofBytes_eq_ok_iff.mpr hdecode] at h
      exact h
  · -- the line is too long, which is found before it is decoded
    rw [reads_of_lt (Nat.lt_of_not_le hlength)] at h
    cases h

/-- Where the first line at fault is no text, the stream is not UTF-8: every line before it was read
as a whole, so none of them has been cut inside a character. -/
theorem not_isUtf8_of_lineFault? {limit : Nat} {bytes : List UInt8}
    (h : lineFault? (reads limit bytes) = some .undecodable) : ¬Text.IsUtf8 bytes := by
  induction bytes using Line.split_induction with
  | nil => cases h
  | unended content hcontent hne =>
    rw [reads_of_unbroken hcontent, ← List.append_nil (Line.reads _ _)] at h
    rcases Line.of_lineFault?_reads (.inr hne) h with hno | hnone
    · exact hno
    · cases hnone
  | ended content e rest hcontent he ih =>
    rw [Text.isUtf8_append_ending_iff]
    rw [reads_append hcontent he] at h
    rintro ⟨hfirst, hrest⟩
    rcases Line.of_lineFault?_reads (.inl (Option.some_ne_none e)) h with hno | hmore
    · exact hno hfirst
    · exact ih hmore hrest

/-! ## Documents -/

/-- A document is refused for its encoding only at the first line that cannot be read. -/
theorem lineFault?_of_scan {limits : Limits} {stage : Stage} {line n : Nat} {rs : List LineRead}
    (h : (scan limits stage line rs).1 = .error (.invalidUtf8 n)) :
    lineFault? rs = some .undecodable := by
  induction rs generalizing stage line with
  | nil =>
    have hcategory := Stage.category_of_finish (map_eq_error_iff.mp h)
    cases hcategory
  | cons r rs ih =>
    cases r with
    | error f =>
      cases f with
      | undecodable => rfl
      | overlong => cases h
    | ok text =>
      rw [scan] at h
      split at h
      · cases h
      · split at h
        · next hnext =>
          cases h
          rcases Stage.category_of_next hnext with hcategory | hcategory <;> cases hcategory
        · exact ih (map_eq_error_iff.mp h)

/-- What comes before the lines of a stream has characters of its own. -/
theorem isUtf8_preamble_append_iff {hasBom : Bool} {rest : List UInt8} :
    Text.IsUtf8 (preamble hasBom ++ rest) ↔ Text.IsUtf8 rest := by
  -- the last byte of the signature is below 128
  have hlast : preamble hasBom ++ rest =
      ((if hasBom then Text.encode "\uFEFF" else []) ++ Text.encode "WEBVT") ++ 0x54 :: rest := by
    cases hasBom <;> rfl
  rw [hlast, Text.isUtf8_append_cons_iff (by decide)]
  apply and_iff_right
  cases hasBom with
  | true => exact (Text.isUtf8_encode _).append (Text.isUtf8_encode _)
  | false => exact Text.isUtf8_encode _

/-- A stream that does not begin as it should is not refused for its encoding. -/
theorem category_of_preambleFault? {bytes : List UInt8} {v : Violation}
    (h : preambleFault? bytes = some v) : v.category = .parsing := by
  rw [preambleFault?] at h
  split at h
  · cases h
    rfl
  split at h
  · cases h
    rfl
  split at h
  · cases h
  split at h
  · cases h
    rfl
  · cases h
    rfl

namespace Document

variable {σ : Type} [Source σ] {source : σ} {bytes : List UInt8}

/-- A stream is refused for its encoding only if it is not UTF-8. -/
theorem not_isUtf8_of_read {limits : Limits} {line : Nat} (hsource : Source.Delivers source bytes)
    (h : read source limits = .error (.violation (.invalidUtf8 line))) : ¬Text.IsUtf8 bytes := by
  cases hpreamble : preambleFault? bytes with
  | some v =>
    obtain ⟨t, hread⟩ := (LineStream.at_ofSource hsource).readHeader_of_preambleFault? hpreamble
    rw [(read_of_refused hread).1] at h
    cases h
    cases category_of_preambleFault? hpreamble
  | none =>
    rw [eq_append_of_preambleFault? hpreamble] at hsource ⊢
    obtain ⟨header, hread, -⟩ := read_eq_scan hsource limits
    rw [hread, map_eq_error_iff, mapError_eq_error_iff] at h
    obtain ⟨v, hscan, hv⟩ := h
    cases hv
    rw [isUtf8_preamble_append_iff]
    exact not_isUtf8_of_lineFault? (lineFault?_of_scan hscan)

/-- A document has been UTF-8 as a whole. -/
theorem isUtf8_of_read_ok {limits : Limits} {d : Document} (hsource : Source.Delivers source bytes)
    (h : read source limits = .ok d) : Text.IsUtf8 bytes := by
  obtain ⟨rest, texts, rfl, htexts, -⟩ := exists_texts_of_read hsource h
  rw [isUtf8_preamble_append_iff, Line.isUtf8_iff_forall_split]
  intro l hl
  rw [← Text.decode_ne_none_iff]
  have htext : Text.decode l.content ∈ texts.map some :=
    htexts ▸ List.mem_map_of_mem (f := fun l : Line ↦ Text.decode l.content) hl
  obtain ⟨text, -, htext⟩ := List.mem_map.mp htext
  rw [← htext]
  exact Option.some_ne_none text

/-- Under any limits, a stream that is UTF-8 is not refused for its encoding, as no text is, and a
stream that is a document is UTF-8. -/
theorem isUtf8_of_read (hsource : Source.Delivers source bytes) (limits : Limits) :
    (Text.IsUtf8 bytes → ∀ line, read source limits ≠ .error (.violation (.invalidUtf8 line))) ∧
      (∀ text line, parse text ≠ .error (.violation (.invalidUtf8 line))) ∧
      ∀ d, read source limits = .ok d → Text.IsUtf8 bytes := by
  refine ⟨?_, ?_, ?_⟩
  · intro hbytes line h
    exact not_isUtf8_of_read hsource h hbytes
  · intro text line h
    exact not_isUtf8_of_read (Slice.delivers_ofString text) h (Text.isUtf8_encode text)
  · intro d h
    exact isUtf8_of_read_ok hsource h

/-- A letter that takes a single byte of 128 or more, as in Latin-1, is not UTF-8. -/
theorem isUtf8_of_read_sample :
    ¬Text.IsUtf8 (Text.encode "WEBVTT\n\n0:1 --> 0:2\nH" ++ [0xE9]) ∧
      ∀ d, read (Script.mk ((Text.encode "WEBVTT\n\n0:1 --> 0:2\nH" ++ [0xE9]).map .byte)) ≠ .ok d := by
  obtain ⟨hvalid, -, hdocument⟩ := isUtf8_of_read
    (Script.delivers (Text.encode "WEBVTT\n\n0:1 --> 0:2\nH" ++ [0xE9])) {}
  have hread : read (Script.mk ((Text.encode "WEBVTT\n\n0:1 --> 0:2\nH" ++ [0xE9]).map .byte)) =
      .error (.violation (.invalidUtf8 4)) := by decide +kernel
  have hno : ¬Text.IsUtf8 (Text.encode "WEBVTT\n\n0:1 --> 0:2\nH" ++ [0xE9]) :=
    fun hbytes ↦ hvalid hbytes 4 hread
  exact ⟨hno, fun d hd ↦ hno (hdocument d hd)⟩

end Document

end WebVTT
