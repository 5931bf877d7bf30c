import WebVTT.Proofs.Cue.Blocks
import WebVTT.Proofs.Document.Reading
import WebVTT.Proofs.Lines.Writing
import WebVTT.Proofs.Timings.Writing

/-!
# Documents are read as they were written

Every document whose texts keep to their places can be written: its header, and each cue as a block
with an empty line after it. Whatever endings the lines are given, it is read as it was written
(`Document.read_written`).
-/

namespace WebVTT

/-- A cue that can be written. No text breaks its line, the identifier has no arrow, and no line of
text is empty. -/
structure Cue.Writable (c : Cue) : Prop where
  identifier_oneLine : OneLine c.identifier
  identifier_noArrow : ¬"-->".toList <:+: c.identifier.toList
  start : c.start.Readable
  stop : c.stop.Readable
  settings : ∀ s ∈ c.settings, s.Readable
  settings_oneLine : ∀ s ∈ c.settings, OneLine s.name ∧ OneLine s.value
  payload_ne_nil : c.payload ≠ []
  payload : Payload c.payload
  payload_oneLine : ∀ text ∈ c.payload, OneLine text

/-- The block of a cue. The identifier is left out if it is empty. -/
def Cue.block (c : Cue) : List String :=
  (if c.identifier = "" then [] else [c.identifier]) ++
    Timings.line ⟨c.start, c.stop, c.settings⟩ :: c.payload

namespace Document

/-- A document that can be written. Its description does not break its line and begins with no
blank. -/
structure Writable (d : Document) : Prop where
  description_oneLine : OneLine d.header.description
  description_noBlank : ∀ c ∈ d.header.description.toList.head?, ¬isBlank c
  cues : ∀ c ∈ d.cues, c.Writable

/-- The rest of the signature line: the description with blanks before it, or nothing. -/
def signatureLine (d : Document) (blanks : String) : String :=
  if d.header.description = "" then "" else blanks ++ d.header.description

/-- The lines of the cues, with an empty one after each. -/
def cueTexts (d : Document) : List String := d.cues.flatMap fun c ↦ c.block ++ [""]

/-- The lines of a document, from after the signature on. -/
def texts (d : Document) (blanks : String) : List String :=
  d.signatureLine blanks :: "" :: d.cueTexts

end Document

/-! ## Lines that are not broken -/

/-- Blanks do not break a line. -/
theorem oneLine_of_blanks {blanks : String} (h : ∀ c ∈ blanks.toList, isBlank c) :
    OneLine blanks := by
  intro c hc
  have hblank : c = ' ' ∨ c = '\t' := by simpa [isBlank] using h c hc
  rcases hblank with rfl | rfl <;> decide

/-- A written timings line is not broken unless a setting breaks it. -/
theorem Timings.oneLine_line {t : Timings}
    (h : ∀ s ∈ t.settings, OneLine s.name ∧ OneLine s.value) : OneLine t.line := by
  have htime : ∀ time : Time, ∀ c ∈ time.chars, c ≠ '\n' ∧ c ≠ '\r' := by
    refine forall_mem_chars ?_ (by decide) (by decide)
    intro c hc
    constructor <;> rintro rfl <;> exact absurd hc (by decide)
  have hsetting : ∀ s ∈ t.settings, ∀ c ∈ s.chars, c ≠ '\n' ∧ c ≠ '\r' := by
    intro s hs
    rw [Setting.chars, List.forall_mem_cons, List.forall_mem_append, List.forall_mem_cons]
    exact ⟨by decide, (h s hs).1, by decide, (h s hs).2⟩
  have hsettings : ∀ c ∈ t.settings.flatMap Setting.chars, c ≠ '\n' ∧ c ≠ '\r' := by
    intro c hc
    obtain ⟨s, hs, hc⟩ := List.mem_flatMap.mp hc
    exact hsetting s hs c hc
  unfold OneLine
  rw [toList_line, List.forall_mem_append, List.forall_mem_append]
  refine ⟨⟨htime _, List.forall_mem_singleton.mpr (by decide)⟩, ?_⟩
  simp only [List.forall_mem_cons, List.forall_mem_append]
  exact ⟨by decide, by decide, by decide, by decide, htime _, hsettings⟩

namespace Cue

variable {c : Cue}

/-- No line of a cue is broken. -/
theorem Writable.oneLine_block (hc : c.Writable) : ∀ text ∈ c.block, OneLine text := by
  have hline : OneLine (Timings.line ⟨c.start, c.stop, c.settings⟩) :=
    Timings.oneLine_line hc.settings_oneLine
  rw [block, List.forall_mem_append, List.forall_mem_cons]
  refine ⟨?_, hline, hc.payload_oneLine⟩
  split
  · simp
  · simpa using hc.identifier_oneLine

/-- The block of a cue opens with its identifier and its timings line. -/
theorem Writable.opens (hc : c.Writable) :
    Opens ((if c.identifier = "" then [] else [c.identifier]) ++
      [Timings.line ⟨c.start, c.stop, c.settings⟩]) c.identifier ⟨c.start, c.stop, c.settings⟩ := by
  refine ⟨Timings.line ⟨c.start, c.stop, c.settings⟩, ?_,
    Timings.parse_line hc.start hc.stop hc.settings⟩
  split
  · next hempty =>
    rw [hempty]
    exact .plain (Timings.hasArrow_line _)
  · next hne =>
    have harrow : ¬Timings.hasArrow c.identifier :=
      fun h ↦ hc.identifier_noArrow ((Timings.hasArrow_iff _).mp h)
    exact .identified hne harrow (Timings.hasArrow_line _)

/-- The block of a cue is the cue. -/
theorem Writable.denotes (hc : c.Writable) : Denotes c.block c := by
  refine ⟨_, hc.opens, ?_, hc.payload_ne_nil⟩
  rw [block, List.append_assoc, List.singleton_append]

/-- The block of a cue has no empty line. -/
theorem Writable.payload_block (hc : c.Writable) : Payload c.block ∧ c.block ≠ [] := by
  obtain ⟨ls, hopens, hblock, hne⟩ := hc.denotes
  rw [hblock]
  exact ⟨hopens.payload.append hc.payload, by simp [hne]⟩

end Cue

namespace Document

variable {d : Document} {blanks : String}

/-- The blocks of a document are its cues. -/
theorem Writable.denotes (hd : d.Writable) : List.Forall₂ Denotes (blocks d.cueTexts) d.cues := by
  obtain ⟨header, cues⟩ := d
  have hcues := hd.cues
  clear hd
  unfold cueTexts
  dsimp only at hcues ⊢
  induction cues with
  | nil => exact .nil
  | cons c cues ih =>
    obtain ⟨hc, hcues⟩ := List.forall_mem_cons.mp hcues
    obtain ⟨hblock, hne⟩ := hc.payload_block
    rw [List.flatMap_cons, List.append_assoc, List.singleton_append, blocks_append_blank,
      blocks_of_payload hblock hne, List.singleton_append]
    exact .cons hc.denotes (ih hcues)

/-- No line of a document is broken. -/
theorem Writable.oneLine_texts (hd : d.Writable) (hblanks : ∀ c ∈ blanks.toList, isBlank c) :
    ∀ text ∈ d.texts blanks, OneLine text := by
  rw [texts, List.forall_mem_cons, List.forall_mem_cons]
  refine ⟨?_, oneLine_empty, ?_⟩
  · unfold signatureLine
    split
    · exact oneLine_empty
    · exact (oneLine_of_blanks hblanks).append hd.description_oneLine
  · intro text htext
    obtain ⟨c, hc, htext⟩ := List.mem_flatMap.mp htext
    rcases List.mem_append.mp htext with hblock | hblank
    · exact (hd.cues c hc).oneLine_block text hblock
    · obtain rfl := List.mem_singleton.mp hblank
      exact oneLine_empty

/-- The description is found behind the blanks. -/
theorem Writable.describes (hd : d.Writable) (hne : blanks ≠ "")
    (hblanks : ∀ c ∈ blanks.toList, isBlank c) :
    Describes (d.signatureLine blanks) d.header.description := by
  unfold signatureLine
  split
  · next hempty =>
    rw [hempty]
    exact ⟨by simp, rfl⟩
  · obtain ⟨c, more, hmore⟩ :=
      List.exists_cons_of_ne_nil fun h ↦ hne (String.toList_eq_nil_iff.mp h)
    have hc : isBlank c := hblanks c (hmore ▸ List.mem_cons_self)
    constructor
    · rw [String.toList_append, hmore]
      rintro _ ⟨⟩
      exact hc
    · rw [String.toList_append, Scan.dropWhile_append_of_head hblanks hd.description_noBlank,
        String.ofList_toList]

variable {σ : Type} [Source σ] {source : σ} {ls : List WrittenLine}

/-- No line that is written for a document is broken. -/
theorem Writable.oneLine_written (hd : d.Writable) (hblanks : ∀ c ∈ blanks.toList, isBlank c)
    (htexts : ls.map WrittenLine.text = d.texts blanks) : ∀ l ∈ ls, OneLine l.text := by
  intro l hl
  apply hd.oneLine_texts hblanks
  rw [← htexts]
  exact List.mem_map_of_mem hl

/-- A written document is read under every limit that it keeps to. -/
theorem Writable.read_eq (hd : d.Writable) (hne : blanks ≠ "")
    (hblanks : ∀ c ∈ blanks.toList, isBlank c)
    (htexts : ls.map WrittenLine.text = d.texts blanks)
    (hseparated : ls.IsChain WrittenLine.Separated)
    (hsource : Source.Delivers source (preamble d.header.hasBom ++ ls.flatMap WrittenLine.bytes))
    {limits : Limits}
    (hlines : ∀ l ∈ ls, (Text.encode l.text).length ≤ limits.maxLineLength.toNat)
    (hpayload : ∀ c ∈ d.cues, c.payload.length ≤ limits.maxPayloadLines.toNat) :
    read source limits = .ok d := by
  have hreads := reads_written (hd.oneLine_written hblanks htexts) hseparated hlines
  rw [htexts] at hreads
  refine (read_eq_ok_iff hsource).mpr ⟨_, 2, d.cueTexts.map .ok, rfl, ?_, ?_⟩
  · rw [hreads]
    exact .complete (hd.describes hne hblanks)
  · exact .of_denotes hd.denotes hpayload

/-- Without limits, every line and cue of a written document of fewer than `UInt64.size` bytes is
allowed. -/
theorem Writable.le_unlimited (hd : d.Writable) (hblanks : ∀ c ∈ blanks.toList, isBlank c)
    (htexts : ls.map WrittenLine.text = d.texts blanks)
    (hseparated : ls.IsChain WrittenLine.Separated)
    (hlength : (ls.flatMap WrittenLine.bytes).length < UInt64.size) :
    (∀ l ∈ ls, (Text.encode l.text).length ≤ Limits.unlimited.maxLineLength.toNat) ∧
      ∀ c ∈ d.cues, c.payload.length ≤ Limits.unlimited.maxPayloadLines.toNat := by
  have hsplit := split_written (hd.oneLine_written hblanks htexts) hseparated
  constructor
  · intro l hl
    have hline : l.line ∈ Line.split (ls.flatMap WrittenLine.bytes) :=
      hsplit ▸ List.mem_map_of_mem hl
    exact (Line.length_content_le hline).trans (Nat.le_of_lt_succ hlength)
  · intro c hc
    have hcues : d.cueTexts.length ≤ ls.length := by
      rw [← List.length_map WrittenLine.text, htexts]
      exact (List.suffix_append [d.signatureLine blanks, ""] d.cueTexts).length_le
    have hlines : ls.length ≤ (ls.flatMap WrittenLine.bytes).length := by
      rw [← List.length_map WrittenLine.line, ← hsplit]
      exact Line.length_split_le _
    calc c.payload.length ≤ d.cueTexts.length := length_payload_le hd.denotes hc
      _ ≤ ls.length := hcues
      _ ≤ (ls.flatMap WrittenLine.bytes).length := hlines
      _ ≤ Limits.unlimited.maxPayloadLines.toNat := Nat.le_of_lt_succ hlength

/-- A document that can be written is read as it was written, with or without a byte order mark as
the header has it, with any blanks before the description and any ending after each line that does
not merge with the line before: under every limit that its lines and cues keep to, and without
limits. -/
theorem read_written (hd : d.Writable) (hne : blanks ≠ "")
    (hblanks : ∀ c ∈ blanks.toList, isBlank c)
    (htexts : ls.map WrittenLine.text = d.texts blanks)
    (hseparated : ls.IsChain WrittenLine.Separated)
    (hsource : Source.Delivers source (preamble d.header.hasBom ++ ls.flatMap WrittenLine.bytes)) :
    (∀ limits : Limits,
        (∀ l ∈ ls, (Text.encode l.text).length ≤ limits.maxLineLength.toNat) →
        (∀ c ∈ d.cues, c.payload.length ≤ limits.maxPayloadLines.toNat) →
          read source limits = .ok d) ∧
      ((ls.flatMap WrittenLine.bytes).length < UInt64.size → read source .unlimited = .ok d) := by
  constructor
  · intro limits hlines hpayload
    exact hd.read_eq hne hblanks htexts hseparated hsource hlines hpayload
  · intro hlength
    obtain ⟨hlines, hpayload⟩ := hd.le_unlimited hblanks htexts hseparated hlength
    exact hd.read_eq hne hblanks htexts hseparated hsource hlines hpayload

/-- A document with a byte order mark, a description, and arrows in a setting and in a payload. -/
def sample : Document where
  header := ⟨true, "of 1"⟩
  cues := [⟨"ä", ⟨0, 0, 1, 500⟩, ⟨2147483647, 59, 59, 999⟩, [⟨"a", "-->"⟩], ["-->", "c"]⟩]

/-- The lines of the sample, with endings of all kinds. -/
def sampleLines : List WrittenLine :=
  [⟨"\tof 1", .cr⟩, ⟨"", .crlf⟩, ⟨"ä", .lf⟩,
    ⟨"00:00:01.500 --> 2147483647:59:59.999 a:-->", .cr⟩, ⟨"-->", .crlf⟩, ⟨"c", .lf⟩, ⟨"", .lf⟩]

/-- The sample is read as it was written. -/
theorem read_written_sample :
    read (Script.mk ((preamble true ++ sampleLines.flatMap WrittenLine.bytes).map .byte))
      .unlimited = .ok sample := by
  have hcue : ∀ c ∈ sample.cues, c.Writable := List.forall_mem_singleton.mpr {
    identifier_oneLine := by decide +kernel
    identifier_noArrow := by decide +kernel
    start := ⟨by decide, by decide, by decide, by decide⟩
    stop := ⟨by decide, by decide, by decide, by decide⟩
    settings := List.forall_mem_singleton.mpr ⟨by decide, by decide,
      by simp [Scan.isSettingChar, isBlank], by simp [Scan.isSettingChar, isBlank]⟩
    settings_oneLine := by decide +kernel
    payload_ne_nil := by decide
    payload := by simp [Payload]
    payload_oneLine := by decide +kernel }
  have hd : sample.Writable := ⟨by decide +kernel, by simp [sample, isBlank], hcue⟩
  have hblanks : ∀ c ∈ "\t".toList, isBlank c := by simp [isBlank]
  have htexts : sampleLines.map WrittenLine.text = sample.texts "\t" := by decide +kernel
  have hseparated : sampleLines.IsChain WrittenLine.Separated := by
    simp [sampleLines, WrittenLine.Separated]
  exact (read_written hd (by decide) hblanks htexts hseparated (Script.delivers _)).2
    (by decide +kernel)

end Document

end WebVTT
