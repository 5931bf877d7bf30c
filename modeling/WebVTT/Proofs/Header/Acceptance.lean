import WebVTT.Proofs.LineStream.Position
import WebVTT.Session.Basic

/-!
# Which headers are accepted

Without limits, the bytes of a stream tell whether its header is accepted and, if it is not, why
(`headerFault?`). The preamble is matched byte by byte and comes first; then the rest of the first
line has to be a text that a blank sets off, and the second line has to be empty. A header that is
accepted takes these two lines, as far as there are any (`Session.readHeader_unlimited`).
-/

namespace WebVTT

/-! ## Blanks -/

/-- Whether a byte is a space or a tab. -/
def isBlankByte (b : UInt8) : Bool := b = 0x20 || b = 0x09

namespace Text

/-- The form of a character begins with a blank if the character is one, and is no longer then. -/
theorem exists_utf8EncodeChar_eq (c : Char) :
    ∃ b bs, String.utf8EncodeChar c = b :: bs ∧ isBlankByte b = isBlank c ∧ (isBlank c → bs = []) := by
  by_cases hc : isBlank c
  · have hc : c = ' ' ∨ c = '\t' := by simpa [isBlank] using hc
    rcases hc with rfl | rfl
    · exact ⟨0x20, [], by decide, by decide, fun _ ↦ rfl⟩
    · exact ⟨0x09, [], by decide, by decide, fun _ ↦ rfl⟩
  · obtain ⟨b, bs, hbytes⟩ := List.exists_cons_of_ne_nil (String.utf8EncodeChar_ne_nil (c := c))
    refine ⟨b, bs, hbytes, ?_, fun h ↦ absurd h hc⟩
    rw [eq_false_of_ne_true hc]
    refine eq_false_of_ne_true fun hb ↦ hc ?_
    have hmem : b ∈ String.utf8EncodeChar c := hbytes ▸ List.mem_cons_self
    have hb : b = 0x20 ∨ b = 0x09 := by simpa [isBlankByte] using hb
    rcases hb with rfl | rfl
    · have hnat := toNat_eq_of_mem_utf8EncodeChar hmem (by decide)
      rw [show c = ' ' from Char.toNat_inj.mp hnat]
      rfl
    · have hnat := toNat_eq_of_mem_utf8EncodeChar hmem (by decide)
      rw [show c = '\t' from Char.toNat_inj.mp hnat]
      rfl

/-- A text begins with a blank if its bytes do. -/
theorem forall_head?_encode (text : String) :
    (∀ b ∈ (encode text).head?, isBlankByte b) ↔ ∀ c ∈ text.toList.head?, isBlank c := by
  rw [encode_eq_flatMap]
  cases text.toList with
  | nil => simp
  | cons c rest =>
    obtain ⟨b, bs, hbytes, hblank, -⟩ := exists_utf8EncodeChar_eq c
    simp [hbytes, hblank]

/-- Without the blanks that it begins with, a text has its bytes without these. -/
theorem encode_dropWhile (text : String) :
    encode (String.ofList (text.toList.dropWhile isBlank)) = (encode text).dropWhile isBlankByte := by
  rw [encode_eq_flatMap, encode_eq_flatMap, String.toList_ofList]
  induction text.toList with
  | nil => rfl
  | cons c rest ih =>
    obtain ⟨b, bs, hbytes, hblank, hshort⟩ := exists_utf8EncodeChar_eq c
    rw [List.flatMap_cons, hbytes]
    by_cases hc : isBlank c
    · rw [List.dropWhile_cons_of_pos hc, hshort hc, List.singleton_append,
        List.dropWhile_cons_of_pos (hblank.trans hc), ih]
    · rw [List.dropWhile_cons_of_neg hc, List.flatMap_cons, hbytes, List.cons_append,
        List.dropWhile_cons_of_neg (hblank ▸ hc)]

end Text

/-! ## What can be wrong -/

/-- The bytes that mark the order of bytes. -/
def byteOrderMark : List UInt8 := [0xEF, 0xBB, 0xBF]

/-- A stream without the byte order mark that it begins with, if it does. -/
def withoutBom (bytes : List UInt8) : List UInt8 :=
  if byteOrderMark <+: bytes then bytes.drop 3 else bytes

/-- What is wrong with the beginning of a stream, if anything is. -/
def preambleFault? (bytes : List UInt8) : Option Violation :=
  if bytes = [] then
    some (.unexpectedEnd 1)
  else if bytes.head? = some 0xEF ∧ ¬byteOrderMark <+: bytes then
    some .incompleteBom
  else if Text.encode "WEBVTT" <+: withoutBom bytes then
    none
  else if withoutBom bytes <+: Text.encode "WEBVTT" then
    some (.unexpectedEnd 1)
  else
    some .missingSignature

/-- What is wrong with the second line of a stream, if anything is. -/
def separatorFault? (second : Line) : Option Violation :=
  if Text.decode second.content = none then
    some (.invalidUtf8 2)
  else if second.content ≠ [] then
    some (.missingHeaderSeparator 2)
  else
    none

/-- What is wrong with the lines of a header, if anything is, given the rest of the first line after
the signature and the second line, if there is one. -/
def headerLineFault? (first : List UInt8) (second? : Option Line) : Option Violation :=
  if Text.decode first = none then
    some (.invalidUtf8 1)
  else if first.head?.any (!isBlankByte ·) then
    some (.invalidSignatureLine 1)
  else
    second?.bind separatorFault?

/-- The rest of the first line after the signature, of a stream that begins with one. -/
def afterSignature (bytes : List UInt8) : List UInt8 :=
  ((Line.split (body bytes)).head?.map Line.content).getD []

/-- What is wrong with the header of a stream, if anything is. -/
def headerFault? (bytes : List UInt8) : Option Violation :=
  (preambleFault? bytes).or (headerLineFault? (afterSignature bytes) (Line.split bytes)[1]?)

/-- The lines that a header takes. There is none if the stream ends with the signature. -/
def headerLines (bytes : List UInt8) : Nat :=
  if body bytes = [] then 0 else if (Line.split bytes)[1]? = none then 1 else 2

/-! ## Preambles -/

/-- A stream that begins with a preamble is that and what comes after it. -/
theorem eq_append_of_preambleFault? {bytes : List UInt8} (h : preambleFault? bytes = none) :
    bytes = preamble (byteOrderMark <+: bytes) ++ body bytes := by
  have hsignature : Text.encode "WEBVTT" <+: withoutBom bytes := by
    unfold preambleFault? at h
    split at h
    · cases h
    split at h
    · cases h
    split at h
    · assumption
    split at h <;> cases h
  obtain ⟨rest, hrest⟩ := hsignature
  have hbytes : bytes = preamble (byteOrderMark <+: bytes) ++ rest := by
    unfold withoutBom at hrest
    split at hrest
    · next hbom =>
      obtain ⟨more, rfl⟩ := hbom
      rw [preamble, List.append_assoc, hrest]
      simp [byteOrderMark]
    · next hbom => simp [preamble, hbom, hrest]
  have hbody : body bytes = rest := by
    rw [hbytes]
    exact body_preamble_append _ _
  rwa [hbody]

namespace LineStream

variable {σ : Type} [Source σ] {s t : LineStream σ} {limits : Limits} {line : Nat}
  {bytes : List UInt8} {v : Violation}

/-- Bytes that do not come are refused, for the end of the stream if that comes instead. -/
theorem At.expectBytes_of_not_prefix (atEnd otherwise : Violation) {expected : List UInt8}
    (h : s.At limits line bytes) (hno : ¬expected <+: bytes) :
    ∃ t, LineStream.expectBytes atEnd otherwise expected s =
      .error (.violation (if bytes <+: expected then atEnd else otherwise)) t := by
  induction expected generalizing s bytes with
  | nil => exact absurd List.nil_prefix hno
  | cons b expected ih =>
    cases bytes with
    | nil =>
      obtain ⟨t, htake, -⟩ := h.takeByte_nil
      refine ⟨t, ?_⟩
      rw [LineStream.expectBytes, Reading.bind_of_ok htake, if_pos List.nil_prefix]
      rfl
    | cons c bytes =>
      obtain ⟨t, htake, ht⟩ := h.takeByte_cons
      rw [LineStream.expectBytes, Reading.bind_of_ok htake]
      dsimp only
      by_cases hc : c = b
      · subst hc
        rw [if_pos rfl]
        simp only [List.cons_prefix_cons, true_and] at hno ⊢
        exact ih ht hno
      · refine ⟨t, ?_⟩
        rw [if_neg hc, if_neg]
        · rfl
        · exact fun h ↦ hc (List.cons_prefix_cons.mp h).1

/-- A byte order mark is taken if there is one. -/
theorem At.readBom_of_head? (h : s.At limits line bytes) (hne : bytes ≠ [])
    (hbom : bytes.head? = some 0xEF → byteOrderMark <+: bytes) :
    ∃ t, readBom s = .ok (byteOrderMark <+: bytes) t ∧ t.At limits line (withoutBom bytes) := by
  obtain ⟨b, rest, rfl⟩ := List.exists_cons_of_ne_nil hne
  by_cases hb : b = 0xEF
  · subst hb
    have hmark := hbom rfl
    obtain ⟨more, hmore⟩ := hmark
    obtain rfl : [0xBB, 0xBF] ++ more = rest := (List.cons.inj hmore).2
    obtain ⟨t, htake, ht⟩ := h.takeByteIf_self
    obtain ⟨u, hexpect, hu⟩ := ht.expectBytes .incompleteBom .incompleteBom
    refine ⟨u, ?_, ?_⟩
    · rw [readBom, Reading.bind_of_ok htake, decide_eq_true (hbom rfl)]
      exact Reading.bind_of_ok hexpect
    · rwa [withoutBom, if_pos (hbom rfl)]
  · have hno : ¬byteOrderMark <+: b :: rest := fun h ↦ hb (List.cons_prefix_cons.mp h).1.symm
    obtain ⟨t, htake, ht⟩ := h.takeByteIf_of_ne hb
    refine ⟨t, ?_, ?_⟩
    · rw [readBom, Reading.bind_of_ok htake, decide_eq_false hno]
      rfl
    · rwa [withoutBom, if_neg hno]

/-- What is wrong with the beginning of a stream is why its header is refused. -/
theorem At.readHeader_of_preambleFault? (h : s.At limits line bytes)
    (hv : preambleFault? bytes = some v) :
    ∃ t, LineStream.readHeader s = .error (.violation v) t := by
  unfold preambleFault? at hv
  split at hv
  · next hempty =>
    cases hv
    subst hempty
    obtain ⟨t, htake, -⟩ := h.takeByteIf_nil 0xEF
    exact ⟨t, Reading.bind_of_error (Reading.bind_of_ok htake)⟩
  next hne =>
  split at hv
  · next hincomplete =>
    cases hv
    obtain ⟨hhead, hno⟩ := hincomplete
    obtain ⟨rest, rfl⟩ := List.head?_eq_some_iff.mp hhead
    rw [byteOrderMark, List.cons_prefix_cons] at hno
    obtain ⟨t, htake, ht⟩ := h.takeByteIf_self
    obtain ⟨u, hexpect⟩ := ht.expectBytes_of_not_prefix .incompleteBom .incompleteBom
      fun h ↦ hno ⟨rfl, h⟩
    refine ⟨u, Reading.bind_of_error ?_⟩
    rw [readBom, Reading.bind_of_ok htake]
    rw [ite_self] at hexpect
    exact Reading.bind_of_error hexpect
  next hbom =>
  split at hv
  · cases hv
  next hno =>
  obtain ⟨t, hread, ht⟩ := h.readBom_of_head? hne fun hhead ↦ by
    by_contra hmark
    exact hbom ⟨hhead, hmark⟩
  obtain ⟨u, hexpect⟩ := ht.expectBytes_of_not_prefix (.unexpectedEnd 1) .missingSignature hno
  refine ⟨u, ?_⟩
  rw [LineStream.readHeader, Reading.bind_of_ok hread, readSignature_eq]
  refine (Reading.bind_of_error hexpect).trans ?_
  split at hv
  · next hpart =>
    cases hv
    rw [if_pos hpart]
  · next hpart =>
    cases hv
    rw [if_neg hpart]

end LineStream

/-! ## Lines -/

/-- The rest of the first line has a description if a blank sets it off. -/
theorem exists_describes {first : List UInt8} {text : String} (htext : Text.decode first = some text)
    (hblank : ∀ b ∈ first.head?, isBlankByte b) :
    ∃ description, Describes text description ∧
      Text.encode description = first.dropWhile isBlankByte := by
  obtain rfl := Text.decode_eq_some_iff.mp htext
  exact ⟨_, ⟨(Text.forall_head?_encode text).mp hblank, rfl⟩, Text.encode_dropWhile text⟩

/-- Text that no blank sets off has no description. -/
theorem not_blank_of_decode {first : List UInt8} {text : String}
    (htext : Text.decode first = some text) (hblank : ¬∀ b ∈ first.head?, isBlankByte b) :
    ¬∀ c ∈ text.toList.head?, isBlank c := by
  obtain rfl := Text.decode_eq_some_iff.mp htext
  exact fun h ↦ hblank ((Text.forall_head?_encode text).mpr h)

theorem LineRead.ofBytes_of_none {bytes : List UInt8} (h : Text.decode bytes = none) :
    ofBytes bytes = .error .undecodable := by
  unfold ofBytes
  rw [h]

/-- After a first line that has a description, the second line decides. -/
theorem headerRead_of_describes (limits : Limits) {text description : String}
    (hdescribes : Describes text description) (ls : List Line) :
    match ls.head?.bind separatorFault? with
    | some v => ∃ line rs,
        HeaderRead limits (.ok text :: ls.map fun l ↦ .ofBytes l.content) (.error v) line rs
    | none => ∃ rs,
        HeaderRead limits (.ok text :: ls.map fun l ↦ .ofBytes l.content) (.ok description)
          (min 2 (ls.length + 1)) rs := by
  obtain _ | ⟨second, ls⟩ := ls
  · exact ⟨[], .unended hdescribes⟩
  rw [List.head?_cons, Option.bind_some, List.map_cons]
  unfold separatorFault?
  cases hsecond : Text.decode second.content with
  | none =>
    rw [if_pos rfl, LineRead.ofBytes_of_none hsecond]
    exact ⟨_, _, .unreadableSeparator hdescribes⟩
  | some separator =>
    rw [if_neg nofun, LineRead.ofBytes_eq_ok_iff.mpr hsecond]
    have hseparator := Text.decode_eq_some_iff.mp hsecond
    by_cases hempty : second.content = []
    · rw [if_neg (not_not_intro hempty)]
      rw [hempty, Text.encode_eq_nil_iff] at hseparator
      subst hseparator
      rw [List.length_cons, Nat.min_eq_left (by omega)]
      exact ⟨ls.map fun l ↦ .ofBytes l.content, .complete hdescribes⟩
    · rw [if_pos hempty]
      refine ⟨_, _, .unseparated hdescribes ?_⟩
      rintro rfl
      exact hempty hseparator.symm

/-- The lines of a header come out as the first fault among them, and as the description if there is
none. -/
theorem headerRead_of_lines (limits : Limits) (ls : List Line) :
    match headerLineFault? ((ls.head?.map Line.content).getD []) ls[1]? with
    | some v => ∃ line rs,
        HeaderRead limits (ls.map fun l ↦ .ofBytes l.content) (.error v) line rs
    | none => ∃ description rs,
        Text.encode description =
          ((ls.head?.map Line.content).getD []).dropWhile isBlankByte ∧
        HeaderRead limits (ls.map fun l ↦ .ofBytes l.content) (.ok description)
          (min 2 ls.length) rs := by
  obtain _ | ⟨first, ls⟩ := ls
  · have hnone : headerLineFault? [] none = none := by decide +kernel
    rw [List.head?_nil, Option.map_none, Option.getD_none, List.getElem?_nil, hnone]
    exact ⟨"", [], Text.encode_empty, .bare⟩
  rw [List.head?_cons, Option.map_some, Option.getD_some, List.map_cons, List.getElem?_cons_succ,
    ← List.head?_eq_getElem?, List.length_cons]
  unfold headerLineFault?
  cases htext : Text.decode first.content with
  | none =>
    rw [if_pos rfl, LineRead.ofBytes_of_none htext]
    exact ⟨_, _, .unreadable⟩
  | some text =>
    rw [if_neg nofun, LineRead.ofBytes_eq_ok_iff.mpr htext]
    have hglued : first.content.head?.any (!isBlankByte ·) ↔
        ¬∀ b ∈ first.content.head?, isBlankByte b := by
      cases first.content.head? <;> simp
    by_cases hblank : ∀ b ∈ first.content.head?, isBlankByte b
    · obtain ⟨description, hdescribes, hdescription⟩ := exists_describes htext hblank
      have hsecond := headerRead_of_describes limits hdescribes ls
      rw [if_neg (mt hglued.mp (not_not_intro hblank))]
      split at hsecond
      · exact hsecond
      · obtain ⟨rs, hread⟩ := hsecond
        exact ⟨description, rs, hdescription, hread⟩
    · rw [if_pos (hglued.mpr hblank)]
      exact ⟨_, _, .glued (not_blank_of_decode htext hblank)⟩

/-- A preamble makes no difference after the first line. -/
theorem getElem?_split_preamble_append (hasBom : Bool) (rest : List UInt8) (k : Nat) :
    (Line.split (preamble hasBom ++ rest))[k + 1]? = (Line.split rest)[k + 1]? := by
  rw [← List.getElem?_tail, ← List.getElem?_tail, Line.tail_split_append (unbroken_preamble hasBom)]

/-- Two lines are taken for a header, or as many as there are. -/
theorem headerLines_preamble_append (hasBom : Bool) (rest : List UInt8) :
    headerLines (preamble hasBom ++ rest) = min 2 (Line.split rest).length := by
  unfold headerLines
  rw [body_preamble_append, getElem?_split_preamble_append]
  by_cases hempty : rest = []
  · subst hempty
    rfl
  have hlines : 0 < (Line.split rest).length :=
    List.length_pos_iff.mpr fun h ↦ hempty (Line.split_eq_nil_iff.mp h)
  rw [if_neg hempty]
  split
  · next hnone =>
    rw [List.getElem?_eq_none_iff] at hnone
    omega
  · next hsome =>
    rw [List.getElem?_eq_none_iff] at hsome
    omega

/-! ## Headers -/

variable {σ : Type} [Source σ] {bytes : List UInt8}

/-- Without limits, a header is refused for what is wrong with it, and accepted if nothing is. -/
theorem LineStream.At.readHeader_of_headerFault? {s : LineStream σ} (h : s.At .unlimited 0 bytes)
    (hlength : bytes.length < UInt64.size) :
    match headerFault? bytes with
    | some v => ∃ t, LineStream.readHeader s = .error (.violation v) t
    | none => ∃ description t,
        Text.encode description = (afterSignature bytes).dropWhile isBlankByte ∧
        LineStream.readHeader s = .ok ⟨byteOrderMark <+: bytes, description⟩ t ∧
        t.line = headerLines bytes := by
  unfold headerFault?
  cases hpreamble : preambleFault? bytes with
  | some v => exact h.readHeader_of_preambleFault? hpreamble
  | none =>
    have hbytes := eq_append_of_preambleFault? hpreamble
    have hreads : reads Limits.unlimited.maxLineLength.toNat (body bytes) =
        (Line.split (body bytes)).map fun l ↦ .ofBytes l.content := by
      refine reads_eq_map fun l hl ↦ Nat.le_of_lt_succ ?_
      have hbody : (body bytes).length ≤ bytes.length := by
        rw [body, List.length_drop]
        exact Nat.sub_le ..
      exact Nat.lt_of_le_of_lt (Nat.le_trans (Line.length_content_le hl) hbody) hlength
    have hsecond : (Line.split bytes)[1]? = (Line.split (body bytes))[1]? :=
      (congrArg (fun b ↦ (Line.split b)[1]?) hbytes).trans (getElem?_split_preamble_append _ _ 0)
    have hcount : headerLines bytes = min 2 (Line.split (body bytes)).length :=
      (congrArg headerLines hbytes).trans (headerLines_preamble_append _ _)
    have hlines := headerRead_of_lines .unlimited (Line.split (body bytes))
    rw [hbytes] at h
    rw [Option.none_or, hsecond, hcount]
    unfold afterSignature
    split
    · next v hv =>
      rw [hv] at hlines
      obtain ⟨line, rs, hheader⟩ := hlines
      rw [← hreads] at hheader
      obtain ⟨t, hread, -⟩ := h.readHeader hheader
      exact ⟨t, hread⟩
    · next hnone =>
      rw [hnone] at hlines
      obtain ⟨description, rs, hdescription, hheader⟩ := hlines
      rw [← hreads] at hheader
      obtain ⟨t, hread, ht⟩ := h.readHeader hheader
      exact ⟨description, t, hdescription, hread, ht.line_eq⟩

/-- Without limits, a header is refused for what is wrong with it. If nothing is, it is accepted, and
what is read next is the third line of the stream. -/
theorem Session.readHeader_unlimited {source : σ} (hsource : Source.Delivers source bytes)
    (hlength : bytes.length < UInt64.size) :
    match headerFault? bytes with
    | some v => ∃ s, readHeader (ofSource source .unlimited) = .error (.violation v) s
    | none => ∃ description s,
        Text.encode description = (afterSignature bytes).dropWhile isBlankByte ∧
        readHeader (ofSource source .unlimited) = .ok ⟨byteOrderMark <+: bytes, description⟩ s ∧
        s.line = headerLines bytes ∧
        ∃ t, LineStream.readLine s.stream = match (Line.split bytes)[2]? with
          | none => .ok none t
          | some l => Reading.result ((LineRead.ofBytes l.content).outcome .unlimited s.line) t := by
  have hstart : LineStream.At { source, limits := .unlimited } .unlimited 0 bytes :=
    LineStream.at_ofSource hsource
  have hheader := hstart.readHeader_of_headerFault? hlength
  split
  · next v hv =>
    rw [hv] at hheader
    obtain ⟨t, hread⟩ := hheader
    refine ⟨⟨t.note (.headerRejected t.line (.violation v)), .rejected⟩, ?_⟩
    unfold readHeader ofSource
    dsimp only
    rw [hread]
  · next hnone =>
    rw [hnone] at hheader
    obtain ⟨description, t, hdescription, hread, hline⟩ := hheader
    refine ⟨description, ⟨t.note (.headerAccepted ⟨byteOrderMark <+: bytes, description⟩), .atCues⟩,
      hdescription, ?_, hline, ?_⟩
    · unfold readHeader ofSource
      dsimp only
      rw [hread]
    · have hstands := (hstart.standsBefore_of_readHeader hread).note
        (.headerAccepted ⟨byteOrderMark <+: bytes, description⟩)
      rcases hstands.readLine_cases with ⟨hend, u, hnext, -⟩ | ⟨l, hl, ⟨u, hnext, -⟩ | ⟨hexcess, -⟩⟩
      · rw [hend]
        exact ⟨u, hnext⟩
      · rw [hl]
        exact ⟨u, hnext⟩
      · have hcontent := Line.length_content_le (List.mem_of_getElem? hl)
        have hfits : l.content.length ≤ Limits.unlimited.maxLineLength.toNat :=
          Nat.le_of_lt_succ (Nat.lt_of_le_of_lt hcontent hlength)
        exact absurd hexcess (Nat.not_lt.mpr hfits)

/-- A header with a byte order mark and a description, and the line after it. -/
theorem Session.readHeader_unlimited_sample :
    ∃ s, readHeader (ofSource (Slice.ofString "\uFEFFWEBVTT\t A\r\n\nB") .unlimited) =
        .ok ⟨true, "A"⟩ s ∧
      s.line = 2 ∧ ∃ t, LineStream.readLine s.stream = .ok (some "B") t := by
  obtain ⟨bytes, hbytes⟩ : ∃ bytes, bytes = Text.encode "\uFEFFWEBVTT\t A\r\n\nB" := ⟨_, rfl⟩
  have hsource : Source.Delivers (Slice.ofString "\uFEFFWEBVTT\t A\r\n\nB") bytes :=
    hbytes ▸ Slice.delivers_ofString _
  have hlength : bytes.length < UInt64.size := by
    subst hbytes
    decide +kernel
  have haccepted : headerFault? bytes = none ∧ decide (byteOrderMark <+: bytes) = true ∧
      (afterSignature bytes).dropWhile isBlankByte = Text.encode "A" ∧ headerLines bytes = 2 ∧
      (Line.split bytes)[2]? = some ⟨Text.encode "B", none⟩ := by
    subst hbytes
    decide +kernel
  obtain ⟨hfault, hbom, hafter, hcount, hthird⟩ := haccepted
  have hheader := readHeader_unlimited hsource hlength
  rw [hfault] at hheader
  obtain ⟨description, s, hdescription, hread, hline, t, hnext⟩ := hheader
  rw [hafter] at hdescription
  obtain rfl := Text.encode_inj.mp hdescription
  rw [hbom] at hread
  rw [hcount] at hline
  rw [hthird] at hnext
  exact ⟨s, hread, hline, t, hnext⟩

end WebVTT
