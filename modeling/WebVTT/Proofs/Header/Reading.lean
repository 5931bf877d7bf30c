import WebVTT.Header.Reading
import WebVTT.Proofs.LineStream.Reading

/-!
# Reading a header follows the grammar

A header begins with its *preamble*, a byte order mark or none and the signature. What follows is
two lines, either of which may be missing at the end of the stream: `HeaderRead` gives them their
outcome, as `CueRead` does to the lines of a cue.
-/

namespace WebVTT

/-- The bytes that a stream begins with. -/
def preamble (hasBom : Bool) : List UInt8 :=
  (if hasBom then [0xEF, 0xBB, 0xBF] else []) ++ Text.encode "WEBVTT"

/-- The bytes after the preamble, of a stream that begins with one. -/
def body (bytes : List UInt8) : List UInt8 :=
  bytes.drop (preamble (bytes.head? = some 0xEF)).length

@[simp] theorem body_preamble_append (hasBom : Bool) (rest : List UInt8) :
    body (preamble hasBom ++ rest) = rest := by
  have hfirst : ∀ b, (preamble b).head? = some (if b then 0xEF else 0x57) := by decide +kernel
  have hbom : decide ((preamble hasBom ++ rest).head? = some 0xEF) = hasBom := by
    rw [List.head?_append, hfirst]
    cases hasBom <;> rfl
  rw [body, hbom, List.drop_left]

/-- A preamble has no line ending. -/
theorem unbroken_preamble (hasBom : Bool) : Line.Unbroken (preamble hasBom) := by
  cases hasBom <;> unfold Line.Unbroken <;> decide +kernel

/-- The rest of the signature line is empty or begins with a blank, and the description is what
comes after the blanks. -/
def Describes (text description : String) : Prop :=
  (∀ c ∈ text.toList.head?, isBlank c) ∧ description = String.ofList (text.toList.dropWhile isBlank)

/-- What the lines of a header, from after the signature on, come out as. -/
inductive HeaderRead (limits : Limits) :
    List LineRead → Except Violation String → Nat → List LineRead → Prop where
  /-- The stream ends with the signature. -/
  | bare : HeaderRead limits [] (.ok "") 0 []
  /-- The rest of the signature line cannot be read. -/
  | unreadable {f : LineFault} {rs : List LineRead} :
      HeaderRead limits (.error f :: rs) (.error (f.violation limits 1)) f.counted rs
  /-- Text sticks to the signature. -/
  | glued {text : String} {rs : List LineRead} : ¬(∀ c ∈ text.toList.head?, isBlank c) →
      HeaderRead limits (.ok text :: rs) (.error (.invalidSignatureLine 1)) 1 rs
  /-- The stream ends with the signature line. -/
  | unended {text description : String} : Describes text description →
      HeaderRead limits [.ok text] (.ok description) 1 []
  /-- The line after the signature line cannot be read. -/
  | unreadableSeparator {text description : String} {f : LineFault} {rs : List LineRead} :
      Describes text description →
      HeaderRead limits (.ok text :: .error f :: rs) (.error (f.violation limits 2))
        (1 + f.counted) rs
  /-- The line after the signature line is not empty. -/
  | unseparated {text description separator : String} {rs : List LineRead} :
      Describes text description → separator ≠ "" →
      HeaderRead limits (.ok text :: .ok separator :: rs) (.error (.missingHeaderSeparator 2)) 2 rs
  /-- All is in order. -/
  | complete {text description : String} {rs : List LineRead} : Describes text description →
      HeaderRead limits (.ok text :: .ok "" :: rs) (.ok description) 2 rs

/-- The lines of every header have an outcome. -/
theorem HeaderRead.total (limits : Limits) (rs : List LineRead) :
    ∃ out line rs', HeaderRead limits rs out line rs' := by
  match rs with
  | [] => exact ⟨_, _, _, .bare⟩
  | .error f :: rs => exact ⟨_, _, _, .unreadable⟩
  | .ok text :: rs =>
    by_cases htext : ∀ c ∈ text.toList.head?, isBlank c
    · match rs with
      | [] => exact ⟨_, _, _, .unended ⟨htext, rfl⟩⟩
      | .error f :: rs => exact ⟨_, _, _, .unreadableSeparator ⟨htext, rfl⟩⟩
      | .ok separator :: rs =>
        by_cases hseparator : separator = ""
        · subst hseparator
          exact ⟨_, _, _, .complete ⟨htext, rfl⟩⟩
        · exact ⟨_, _, _, .unseparated ⟨htext, rfl⟩ hseparator⟩
    · exact ⟨_, _, _, .glued htext⟩

/-- The lines of a header and of the cues after it. -/
theorem HeaderRead.exists_texts {limits : Limits} {rs : List LineRead} {description : String}
    {line : Nat} {texts : List String}
    (h : HeaderRead limits rs (.ok description) line (texts.map .ok)) :
    ∃ lines : List String, rs = lines.map .ok ∧ texts = lines.drop 2 ∧
      description = String.ofList ((lines.headD "").toList.dropWhile isBlank) := by
  generalize hrs' : (texts.map .ok : List LineRead) = rs' at h
  cases h with
  | bare => exact ⟨[], rfl, List.map_eq_nil_iff.mp hrs', rfl⟩
  | @unended text _ htext => exact ⟨[text], rfl, List.map_eq_nil_iff.mp hrs', htext.2⟩
  | @complete text _ _ htext => exact ⟨text :: "" :: texts, by rw [← hrs']; rfl, rfl, htext.2⟩

/-- A header that is accepted is accepted whatever the limits, if its lines are read. -/
theorem HeaderRead.of_ok {limits : Limits} {rs rs' : List LineRead} {description : String}
    {line : Nat} (h : HeaderRead limits rs (.ok description) line rs') (limits' : Limits) :
    HeaderRead limits' rs (.ok description) line rs' := by
  cases h with
  | bare => exact .bare
  | unended htext => exact .unended htext
  | complete htext => exact .complete htext

namespace LineStream

variable {σ : Type} [Source σ]
variable {s t : LineStream σ} {limits : Limits} {line : Nat} {bytes rest : List UInt8}

/-! ## Preambles -/

/-- The bytes expected are taken where they come. -/
theorem At.expectBytes (atEnd otherwise : Violation) {expected : List UInt8}
    (h : s.At limits line (expected ++ rest)) :
    ∃ t, expectBytes atEnd otherwise expected s = .ok () t ∧ t.At limits line rest := by
  induction expected generalizing s with
  | nil => exact ⟨s, rfl, h⟩
  | cons b expected ih =>
    obtain ⟨t, htake, ht⟩ := At.takeByte_cons h
    obtain ⟨u, hexpect, hu⟩ := ih ht
    refine ⟨u, ?_, hu⟩
    rw [LineStream.expectBytes, Reading.bind_of_ok htake]
    dsimp only
    rw [if_pos rfl, hexpect]

/-- Only the bytes expected are taken. -/
theorem At.eq_append_of_expectBytes {atEnd otherwise : Violation} {expected : List UInt8}
    (h : s.At limits line bytes)
    (hok : LineStream.expectBytes atEnd otherwise expected s = .ok () t) :
    ∃ rest, bytes = expected ++ rest ∧ t.At limits line rest := by
  induction expected generalizing s bytes with
  | nil =>
    cases hok
    exact ⟨bytes, rfl, h⟩
  | cons b expected ih =>
    rw [LineStream.expectBytes] at hok
    obtain ⟨found, u, htake, hok⟩ := Reading.ok_of_bind hok
    cases bytes with
    | nil =>
      obtain ⟨v, htake', -⟩ := h.takeByte_nil
      rw [htake'] at htake
      cases htake
      cases hok
    | cons c bytes =>
      obtain ⟨v, htake', hv⟩ := h.takeByte_cons
      rw [htake'] at htake
      cases htake
      dsimp only at hok
      split at hok
      · next heq =>
        obtain ⟨rest, rfl, ht⟩ := ih hv hok
        exact ⟨rest, by rw [heq, List.cons_append], ht⟩
      · cases hok

theorem readSignature_eq :
    (readSignature : Reading σ Unit) =
      LineStream.expectBytes (.unexpectedEnd 1) .missingSignature (Text.encode "WEBVTT") := by
  rw [readSignature, show "WEBVTT".toUTF8.toList = Text.encode "WEBVTT" by decide +kernel]

/-- A byte order mark and the signature are taken where they come. -/
theorem At.readPreamble (hasBom : Bool) (h : s.At limits line (preamble hasBom ++ rest)) :
    ∃ t u, readBom s = .ok hasBom t ∧ readSignature t = .ok () u ∧ u.At limits line rest := by
  have hbom : ∃ t, readBom s = .ok hasBom t ∧ t.At limits line (Text.encode "WEBVTT" ++ rest) := by
    cases hasBom with
    | false =>
      obtain ⟨t, htake, ht⟩ := At.takeByteIf_of_ne (show (0x57 : UInt8) ≠ 0xEF by decide) h
      exact ⟨t, Reading.bind_of_ok htake, ht⟩
    | true =>
      obtain ⟨t, htake, ht⟩ := At.takeByteIf_self h
      have ht : t.At limits line ([0xBB, 0xBF] ++ (Text.encode "WEBVTT" ++ rest)) := ht
      obtain ⟨u, hexpect, hu⟩ := ht.expectBytes .incompleteBom .incompleteBom
      refine ⟨u, ?_, hu⟩
      rw [readBom, Reading.bind_of_ok htake]
      exact Reading.bind_of_ok hexpect
  obtain ⟨t, hread, ht⟩ := hbom
  obtain ⟨u, hexpect, hu⟩ := ht.expectBytes (.unexpectedEnd 1) .missingSignature
  exact ⟨t, u, hread, by rw [readSignature_eq, hexpect], hu⟩

/-- Bytes that a stream does not begin with are refused, for the same reason under all limits. -/
theorem prefix_or_refused (atEnd otherwise : Violation) (expected bytes : List UInt8) :
    (∃ rest, bytes = expected ++ rest) ∨ ∃ v, (v = atEnd ∨ v = otherwise) ∧
      ∀ (s : LineStream σ) limits line, s.At limits line bytes →
        ∃ t rest, expectBytes atEnd otherwise expected s = .error (.violation v) t ∧
          t.At limits line rest := by
  induction expected generalizing bytes with
  | nil => exact .inl ⟨bytes, rfl⟩
  | cons b expected ih =>
    cases bytes with
    | nil =>
      refine .inr ⟨atEnd, .inl rfl, fun s limits line h ↦ ?_⟩
      obtain ⟨t, htake, ht⟩ := h.takeByte_nil
      exact ⟨t, [], by rw [expectBytes, Reading.bind_of_ok htake]; rfl, ht⟩
    | cons c bytes =>
      by_cases hc : c = b
      · subst hc
        rcases ih bytes with ⟨rest, rfl⟩ | ⟨v, hv, hrefused⟩
        · exact .inl ⟨rest, rfl⟩
        · refine .inr ⟨v, hv, fun s limits line h ↦ ?_⟩
          obtain ⟨t, htake, ht⟩ := h.takeByte_cons
          obtain ⟨u, rest, hexpect, hu⟩ := hrefused t limits line ht
          refine ⟨u, rest, ?_, hu⟩
          rw [expectBytes, Reading.bind_of_ok htake]
          dsimp only
          rw [if_pos rfl, hexpect]
      · refine .inr ⟨otherwise, .inr rfl, fun s limits line h ↦ ?_⟩
        obtain ⟨t, htake, ht⟩ := h.takeByte_cons
        refine ⟨t, bytes, ?_, ht⟩
        rw [expectBytes, Reading.bind_of_ok htake]
        dsimp only
        rw [if_neg hc]
        rfl

/-- A byte order mark that is there or not is read as that, and one that breaks off is refused. -/
theorem bom_or_refused (bytes : List UInt8) :
    (∃ hasBom more, bytes = (if hasBom then [0xEF, 0xBB, 0xBF] else []) ++ more ∧
      ∀ (s : LineStream σ) limits line, s.At limits line bytes →
        ∃ t, readBom s = .ok hasBom t ∧ t.At limits line more) ∨
    ∃ v : Violation, v.category ≠ .resource ∧
      ∀ (s : LineStream σ) limits line, s.At limits line bytes →
        ∃ t rest, readBom s = .error (.violation v) t ∧ t.At limits line rest := by
  cases bytes with
  | nil =>
    refine .inr ⟨.unexpectedEnd 1, by decide, fun s limits line h ↦ ?_⟩
    obtain ⟨t, htake, ht⟩ := h.takeByteIf_nil 0xEF
    exact ⟨t, [], Reading.bind_of_ok htake, ht⟩
  | cons b bytes =>
    by_cases hb : b = 0xEF
    · subst hb
      rcases prefix_or_refused (σ := σ) .incompleteBom .incompleteBom [0xBB, 0xBF] bytes with
        ⟨more, rfl⟩ | ⟨v, hv, hrefused⟩
      · refine .inl ⟨true, more, rfl, fun s limits line h ↦ ?_⟩
        obtain ⟨t, htake, ht⟩ := h.takeByteIf_self
        obtain ⟨u, hexpect, hu⟩ := ht.expectBytes .incompleteBom .incompleteBom
        refine ⟨u, ?_, hu⟩
        rw [readBom, Reading.bind_of_ok htake]
        exact Reading.bind_of_ok hexpect
      · obtain rfl : v = .incompleteBom := hv.elim id id
        refine .inr ⟨.incompleteBom, by decide, fun s limits line h ↦ ?_⟩
        obtain ⟨t, htake, ht⟩ := h.takeByteIf_self
        obtain ⟨u, rest, hexpect, hu⟩ := hrefused t limits line ht
        refine ⟨u, rest, ?_, hu⟩
        rw [readBom, Reading.bind_of_ok htake]
        exact Reading.bind_of_error hexpect
    · refine .inl ⟨false, b :: bytes, rfl, fun s limits line h ↦ ?_⟩
      obtain ⟨t, htake, ht⟩ := h.takeByteIf_of_ne hb
      exact ⟨t, Reading.bind_of_ok htake, ht⟩

/-- A stream that does not begin with a preamble is refused before its first line, for the same
reason under all limits. -/
theorem preamble_or_refused (bytes : List UInt8) :
    (∃ hasBom rest, bytes = preamble hasBom ++ rest) ∨ ∃ v : Violation, v.category ≠ .resource ∧
      ∀ (s : LineStream σ) limits line, s.At limits line bytes →
        ∃ t rest, LineStream.readHeader s = .error (.violation v) t ∧ t.At limits line rest := by
  rcases bom_or_refused (σ := σ) bytes with ⟨hasBom, more, rfl, hbom⟩ | ⟨v, hv, hrefused⟩
  · rcases prefix_or_refused (σ := σ) (.unexpectedEnd 1) .missingSignature (Text.encode "WEBVTT") more
      with ⟨rest, rfl⟩ | ⟨v, hv, hrefused⟩
    · exact .inl ⟨hasBom, rest, by rw [preamble, List.append_assoc]⟩
    · refine .inr ⟨v, by rcases hv with rfl | rfl <;> decide, fun s limits line h ↦ ?_⟩
      obtain ⟨t, hread, ht⟩ := hbom s limits line h
      obtain ⟨u, rest, hexpect, hu⟩ := hrefused t limits line ht
      refine ⟨u, rest, ?_, hu⟩
      rw [LineStream.readHeader, Reading.bind_of_ok hread, readSignature_eq]
      exact Reading.bind_of_error hexpect
  · refine .inr ⟨v, hv, fun s limits line h ↦ ?_⟩
    obtain ⟨t, rest, hread, ht⟩ := hrefused s limits line h
    exact ⟨t, rest, Reading.bind_of_error hread, ht⟩

/-- A byte order mark is taken only where there is one, and otherwise nothing is. -/
theorem At.eq_append_of_readBom {hasBom : Bool} (h : s.At limits line bytes)
    (hok : readBom s = .ok hasBom t) :
    ∃ rest, bytes = (if hasBom then [0xEF, 0xBB, 0xBF] else []) ++ rest ∧
      t.At limits line rest := by
  obtain ⟨taken, u, htake, hok⟩ := Reading.ok_of_bind hok
  cases bytes with
  | nil =>
    obtain ⟨v, htake', -⟩ := h.takeByteIf_nil 0xEF
    rw [htake'] at htake
    cases htake
    cases hok
  | cons b bytes =>
    by_cases hb : b = 0xEF
    · subst hb
      obtain ⟨v, htake', hv⟩ := h.takeByteIf_self
      rw [htake'] at htake
      cases htake
      obtain ⟨_, w, hexpect, hok⟩ := Reading.ok_of_bind hok
      obtain ⟨rest, rfl, hw⟩ := hv.eq_append_of_expectBytes hexpect
      cases hok
      exact ⟨rest, rfl, hw⟩
    · obtain ⟨v, htake', hv⟩ := h.takeByteIf_of_ne hb
      rw [htake'] at htake
      cases htake
      cases hok
      exact ⟨b :: bytes, rfl, hv⟩

/-- Only a stream that begins with a preamble has a header. -/
theorem At.eq_append_of_readHeader {header : Header} (h : s.At limits line bytes)
    (hok : LineStream.readHeader s = .ok header t) :
    ∃ hasBom rest, bytes = preamble hasBom ++ rest := by
  obtain ⟨hasBom, u, hbom, hok⟩ := Reading.ok_of_bind hok
  obtain ⟨_, v, hsignature, -⟩ := Reading.ok_of_bind hok
  obtain ⟨rest, rfl, hu⟩ := h.eq_append_of_readBom hbom
  rw [readSignature_eq] at hsignature
  obtain ⟨rest, rfl, -⟩ := hu.eq_append_of_expectBytes hsignature
  exact ⟨hasBom, rest, by rw [preamble, List.append_assoc]⟩

/-! ## Headers -/

omit [Source σ] in
/-- The description is read where it is set off by a blank. -/
theorem readDescription_of_describes {text description : String}
    (h : Describes text description) : readDescription text s = .ok description s := by
  obtain ⟨hblank, rfl⟩ := h
  unfold readDescription
  cases htext : text.toList with
  | nil => rfl
  | cons first rest =>
    have hfirst : isBlank first := hblank first (by simp [htext])
    dsimp only
    rw [if_pos hfirst]
    rfl

omit [Source σ] in
/-- Text that sticks to the signature is refused. -/
theorem readDescription_of_not {text : String} (h : ¬(∀ c ∈ text.toList.head?, isBlank c)) :
    readDescription text s = .error (.violation (.invalidSignatureLine s.line)) s := by
  unfold readDescription
  cases htext : text.toList with
  | nil => simp [htext] at h
  | cons first rest =>
    have hfirst : ¬isBlank first := by simpa [htext] using h
    dsimp only
    rw [if_neg hfirst]
    rfl

/-- After the preamble, a header comes out as its grammar has it. -/
theorem At.readHeader {hasBom : Bool} {out : Except Violation String} {rs' : List LineRead}
    (h : s.At limits 0 (preamble hasBom ++ rest))
    (hheader : HeaderRead limits (reads limits.maxLineLength.toNat rest) out line rs') :
    ∃ t, LineStream.readHeader s = Reading.result (out.map (Header.mk hasBom)) t ∧
      t.Awaits limits line rs' := by
  obtain ⟨t, u, hbom, hsignature, hu⟩ := h.readPreamble
  have hu : u.Awaits limits 0 (reads limits.maxLineLength.toNat rest) := ⟨rest, hu, rfl⟩
  rw [LineStream.readHeader, Reading.bind_of_ok hbom, Reading.bind_of_ok hsignature]
  generalize reads limits.maxLineLength.toNat rest = rs at hu hheader
  cases hheader with
  | bare =>
    obtain ⟨v, hread, hv⟩ := hu.readLine_nil
    exact ⟨v, Reading.bind_of_ok hread, hv⟩
  | unreadable =>
    obtain ⟨v, hread, hv⟩ := hu.readLine_cons
    exact ⟨v, Reading.bind_of_error hread, by simpa [LineRead.counted] using hv⟩
  | glued htext =>
    obtain ⟨v, hread, hv⟩ := hu.readLine_cons
    refine ⟨v, ?_, hv⟩
    rw [Reading.bind_of_ok hread]
    dsimp only
    rw [Reading.bind_of_error (readDescription_of_not htext), hv.line_eq]
    rfl
  | unended htext =>
    obtain ⟨v, hread, hv⟩ := hu.readLine_cons
    obtain ⟨w, hend, hw⟩ := hv.readLine_nil
    refine ⟨w, ?_, hw⟩
    rw [Reading.bind_of_ok hread]
    dsimp only
    rw [Reading.bind_of_ok (readDescription_of_describes htext)]
    exact Reading.bind_of_ok hend
  | unreadableSeparator htext =>
    obtain ⟨v, hread, hv⟩ := hu.readLine_cons
    obtain ⟨w, hsecond, hw⟩ := hv.readLine_cons
    refine ⟨w, ?_, hw⟩
    rw [Reading.bind_of_ok hread]
    dsimp only
    rw [Reading.bind_of_ok (readDescription_of_describes htext)]
    exact Reading.bind_of_error hsecond
  | unseparated htext hseparator =>
    obtain ⟨v, hread, hv⟩ := hu.readLine_cons
    obtain ⟨w, hsecond, hw⟩ := hv.readLine_cons
    refine ⟨w, ?_, hw⟩
    rw [Reading.bind_of_ok hread]
    dsimp only
    rw [Reading.bind_of_ok (readDescription_of_describes htext), Reading.bind_of_ok hsecond]
    dsimp only
    rw [if_neg (by simpa using hseparator), Reading.bind_get, hw.line_eq]
    rfl
  | complete htext =>
    obtain ⟨v, hread, hv⟩ := hu.readLine_cons
    obtain ⟨w, hsecond, hw⟩ := hv.readLine_cons
    refine ⟨w, ?_, hw⟩
    rw [Reading.bind_of_ok hread]
    dsimp only
    rw [Reading.bind_of_ok (readDescription_of_describes htext)]
    exact Reading.bind_of_ok hsecond

/-- A header that is read consists of a preamble and of lines that the grammar accepts. -/
theorem At.headerRead_of_readHeader {header : Header} (h : s.At limits 0 bytes)
    (hok : LineStream.readHeader s = .ok header t) :
    ∃ rest line rs', bytes = preamble header.hasBom ++ rest ∧
      HeaderRead limits (reads limits.maxLineLength.toNat rest) (.ok header.description) line rs' ∧
      t.Awaits limits line rs' := by
  obtain ⟨hasBom, rest, rfl⟩ := h.eq_append_of_readHeader hok
  obtain ⟨out, line, rs', hheader⟩ := HeaderRead.total limits
    (reads limits.maxLineLength.toNat rest)
  obtain ⟨u, hread, hu⟩ := h.readHeader hheader
  rw [hok] at hread
  cases out with
  | error v => cases hread
  | ok description =>
    cases hread
    exact ⟨rest, line, rs', rfl, hheader, hu⟩

end LineStream

end WebVTT
