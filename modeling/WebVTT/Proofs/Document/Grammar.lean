import WebVTT.Proofs.Cue.Blocks
import WebVTT.Proofs.Document.Reading

/-!
# The grammar of documents

Without limits, what a document comes out as is told by the lines after its header, block by block.
If every block is a cue, these are the cues; otherwise the error is that of the first block that is
not, and `BlockFault` says which it is.
-/

namespace WebVTT

/-- What is wrong with the first block of these lines, given the number of its first line. The lines
of the block before the one at fault are in order. -/
inductive BlockFault (first : Nat) : List LineRead → Violation → Prop where
  /-- The first line is not UTF-8. -/
  | undecodable {rs : List LineRead} :
      BlockFault first (.error .undecodable :: rs) (.invalidUtf8 first)
  /-- The stream ends after an identifier. -/
  | unfinished {identifier : String} : identifier ≠ "" → ¬Timings.hasArrow identifier →
      BlockFault first [.ok identifier] (.unexpectedEnd (first + 1))
  /-- The line after an identifier is not UTF-8. -/
  | undecodableTimings {identifier : String} {rs : List LineRead} :
      identifier ≠ "" → ¬Timings.hasArrow identifier →
      BlockFault first (.ok identifier :: .error .undecodable :: rs) (.invalidUtf8 (first + 1))
  /-- The line after an identifier has no arrow. -/
  | untimed {identifier text : String} {rs : List LineRead} :
      identifier ≠ "" → ¬Timings.hasArrow identifier → ¬Timings.hasArrow text →
      BlockFault first (.ok identifier :: .ok text :: rs) (.missingTimings (first + 1))
  /-- The timings line is not in order. -/
  | mistimed {ls : List String} {identifier text : String} {reason : TimingFault}
      {rs : List LineRead} :
      Opening ls identifier text → Timings.parse text = .error reason →
      BlockFault first (ls.map .ok ++ rs) (.invalidTimings (first + ls.length - 1) reason)
  /-- No text follows the timings line. -/
  | textless {ls : List String} {identifier : String} {timings : Timings} {rs : List LineRead} :
      Opens ls identifier timings → (rs = [] ∨ rs.head? = some (.ok "")) →
      BlockFault first (ls.map .ok ++ rs) (.emptyPayload first)
  /-- A line of text, or the first line of it, is not UTF-8. -/
  | undecodableText {ls payload : List String} {identifier : String} {timings : Timings}
      {rs : List LineRead} :
      Opens ls identifier timings → Payload payload →
      BlockFault first ((ls ++ payload).map .ok ++ .error .undecodable :: rs)
        (.invalidUtf8 (first + (ls ++ payload).length))

/-- The lines of a stream after the two of its header, each on its own. -/
def cueLines (bytes : List UInt8) : List LineRead :=
  ((Line.split bytes).drop 2).map fun l ↦ .ofBytes l.content

/-- All lines are texts, and their blocks are these cues. -/
def AreCues (lines : List LineRead) (cues : List Cue) : Prop :=
  ∃ texts, lines = texts.map .ok ∧ List.Forall₂ Denotes (blocks texts) cues

/-- Some lines are texts whose blocks are cues, and then this is wrong with the next block. The first
of the lines is the third of the stream. -/
def FirstFault (lines : List LineRead) (v : Violation) : Prop :=
  ∃ texts rest, lines = texts.map .ok ++ rest ∧ Closed texts ∧
    (∃ cues, List.Forall₂ Denotes (blocks texts) cues) ∧ BlockFault (texts.length + 3) rest v

/-! ## Faults of blocks -/

/-- Without a line that is too long or too many, an attempt that is refused has met a fault in the
first block. -/
theorem CueRead.blockFault {limits : Limits} {line line' : Nat} {rs rs' : List LineRead}
    {v : Violation} (h : CueRead limits line rs (.error v) line' rs')
    (hlines : .error .overlong ∉ rs) (hlength : rs.length ≤ limits.maxPayloadLines.toNat) :
    ∃ blanks rest, rs = blanks.map .ok ++ rest ∧ Closed blanks ∧ blocks blanks = [] ∧
      BlockFault (line + blanks.length + 1) rest v := by
  generalize hout : (.error v : Except Violation (Option Cue)) = out at h
  induction h with
  | ended => cases hout
  | cue => cases hout
  | blank _ ih =>
    obtain ⟨blanks, rest, rfl, hclosed, hblocks, hfault⟩ := ih
      (fun h ↦ hlines (List.mem_cons_of_mem _ h)) (Nat.le_of_succ_le hlength) hout
    refine ⟨"" :: blanks, rest, rfl, (closed_append_blank []).append hclosed, ?_, ?_⟩
    · rwa [blocks_blank]
    · rwa [List.length_cons, Nat.add_comm blanks.length, ← Nat.add_assoc]
  | @unreadable line ls f rs hbegun =>
    cases hout
    cases f with
    | overlong => exact absurd (by simp) hlines
    | undecodable =>
      refine ⟨[], _, rfl, closed_nil, blocks_nil, ?_⟩
      cases hbegun with
      | nothing => exact .undecodable
      | identifier hne harrow => exact .undecodableTimings hne harrow
      | @payload ls payload _ _ hopens hpayload =>
        have hline : line + (ls ++ payload).length + 1 = line + 1 + (ls ++ payload).length := by
          omega
        rw [hline]
        exact .undecodableText hopens hpayload
  | unfinished hne harrow =>
    cases hout
    exact ⟨[], _, rfl, closed_nil, blocks_nil, .unfinished hne harrow⟩
  | untimed hne harrow harrow' =>
    cases hout
    exact ⟨[], _, rfl, closed_nil, blocks_nil, .untimed hne harrow harrow'⟩
  | @mistimed line ls identifier text reason rs hopening hparse =>
    cases hout
    have hline : line + ls.length = line + 1 + ls.length - 1 := by omega
    exact ⟨[], _, rfl, closed_nil, blocks_nil, hline ▸ .mistimed hopening hparse⟩
  | overfull hopens hpayload hfull =>
    simp only [List.length_append, List.length_map] at hlength
    omega
  | textless hopens hclosing =>
    cases hout
    refine ⟨[], _, rfl, closed_nil, blocks_nil, .textless hopens ?_⟩
    cases hclosing with
    | ended => exact .inl rfl
    | blank => exact .inr rfl

/-- A fault in the first block is what an attempt is refused for. -/
theorem BlockFault.cueRead {limits : Limits} {line : Nat} {rs : List LineRead} {v : Violation}
    (h : BlockFault (line + 1) rs v) (hlength : rs.length ≤ limits.maxPayloadLines.toNat) :
    ∃ line' rs', CueRead limits line rs (.error v) line' rs' := by
  cases h with
  | undecodable => exact ⟨_, _, .unreadable .nothing⟩
  | unfinished hne harrow => exact ⟨_, _, .unfinished hne harrow⟩
  | undecodableTimings hne harrow => exact ⟨_, _, .unreadable (.identifier hne harrow)⟩
  | untimed hne harrow harrow' => exact ⟨_, _, .untimed hne harrow harrow'⟩
  | mistimed hopening hparse =>
    rw [Nat.add_right_comm, Nat.add_sub_cancel]
    exact ⟨_, _, .mistimed hopening hparse⟩
  | textless hopens hrs =>
    rcases hrs with rfl | hhead
    · exact ⟨_, _, .textless hopens .ended⟩
    · obtain ⟨rs, rfl⟩ := List.head?_eq_some_iff.mp hhead
      exact ⟨_, _, .textless hopens .blank⟩
  | undecodableText hopens hpayload =>
    simp only [List.length_append, List.length_map] at hlength
    rw [Nat.add_right_comm]
    exact ⟨_, _, .unreadable (.payload hopens hpayload (by omega))⟩

/-- A block at fault has a line. -/
theorem BlockFault.ne_nil {first : Nat} {rs : List LineRead} {v : Violation}
    (h : BlockFault first rs v) : rs ≠ [] := by
  cases h with
  | mistimed hopening =>
    obtain ⟨text, more, rfl, -⟩ := hopening.exists_cons
    exact List.cons_ne_nil _ _
  | textless hopens =>
    obtain ⟨text, more, rfl, -⟩ := hopens.choose_spec.1.exists_cons
    exact List.cons_ne_nil _ _
  | undecodableText => simp
  | _ => exact List.cons_ne_nil _ _

/-! ## Lines of the cues -/

/-- A header leaves all lines but two; nothing if there are no more. -/
theorem HeaderRead.eq_drop {limits : Limits} {rs rs' : List LineRead} {description : String}
    {line : Nat} (h : HeaderRead limits rs (.ok description) line rs') :
    rs' = rs.drop 2 ∧ (rs' = [] ∨ line = 2) := by
  cases h with
  | bare => exact ⟨rfl, .inl rfl⟩
  | unended => exact ⟨rfl, .inl rfl⟩
  | complete => exact ⟨rfl, .inr rfl⟩

/-- Without limits, the lines after the header are read as they are. -/
theorem cueLines_preamble_append {hasBom : Bool} {rest : List UInt8}
    (hlength : rest.length < UInt64.size) :
    cueLines (preamble hasBom ++ rest) =
      (reads Limits.unlimited.maxLineLength.toNat rest).drop 2 := by
  have hreads : reads Limits.unlimited.maxLineLength.toNat rest = _ := reads_eq_map
    fun l hl ↦ Nat.le_trans (Line.length_content_le hl) (Nat.le_of_lt_succ hlength)
  have htwo : ∀ ls : List Line, ls.drop 2 = ls.tail.drop 1 := by
    intro ls
    cases ls <;> rfl
  rw [cueLines, hreads, ← List.map_drop, htwo, htwo (Line.split rest),
    Line.tail_split_append (unbroken_preamble hasBom)]

section Lines

variable {bytes : List UInt8}

/-- There are no more lines after the header than bytes in the stream. -/
theorem length_cueLines_le (bytes : List UInt8) : (cueLines bytes).length ≤ bytes.length := by
  have hsplit := Line.length_split_le bytes
  rw [cueLines, List.length_map, List.length_drop]
  omega

/-- A line on its own is never too long. -/
theorem overlong_notMem_cueLines (bytes : List UInt8) : .error .overlong ∉ cueLines bytes := by
  intro h
  obtain ⟨l, -, hread⟩ := List.mem_map.mp h
  unfold LineRead.ofBytes at hread
  split at hread <;> cases hread

end Lines

/-! ## Documents -/

section Documents

variable {limits : Limits} {line : Nat} {lines : List LineRead}

/-- The cues of lines are found one attempt after the other. -/
theorem AreCues.cuesRead {cues : List Cue} (h : AreCues lines cues)
    (hlength : lines.length ≤ limits.maxPayloadLines.toNat) :
    CuesRead limits line lines (cues.map .ok) := by
  obtain ⟨texts, rfl, hcues⟩ := h
  rw [List.length_map] at hlength
  refine .of_denotes hcues fun cue hcue ↦ ?_
  exact Nat.le_trans (length_payload_le hcues hcue) hlength

/-- The first fault of lines is met after the cues before it. -/
theorem FirstFault.cuesRead {v : Violation} (h : FirstFault lines v)
    (hlength : lines.length ≤ limits.maxPayloadLines.toNat) :
    ∃ cues outs, CuesRead limits 2 lines (List.map .ok cues ++ .error v :: outs) := by
  obtain ⟨texts, rest, rfl, hclosed, ⟨cues, hcues⟩, hfault⟩ := h
  rw [List.length_append, List.length_map] at hlength
  have hline : texts.length + 3 = 2 + texts.length + 1 := by omega
  rw [hline] at hfault
  obtain ⟨line', rs', hcue⟩ : ∃ line' rs', CueRead limits _ rest (.error v) line' rs' :=
    hfault.cueRead (by omega)
  obtain ⟨outs, houts⟩ := CuesRead.total limits line' rs'
  refine ⟨cues, outs, .append_of_denotes hcues (.inl hclosed) (fun cue hcue ↦ ?_)
    (.refused hcue houts)⟩
  exact Nat.le_trans (length_payload_le hcues hcue) (by omega)

/-- An attempt is refused after some cues only for the first fault of the lines. -/
theorem CuesRead.firstFault {cues : List Cue} {v : Violation} {outs : List (Except Violation Cue)}
    (h : CuesRead limits 2 lines (cues.map .ok ++ .error v :: outs))
    (hlines : .error .overlong ∉ lines) (hlength : lines.length ≤ limits.maxPayloadLines.toNat) :
    FirstFault lines v := by
  obtain ⟨texts, rest, rfl, hclosed, hcues, -, hrest⟩ := h.exists_of_append
  rw [List.length_append] at hlength
  cases hrest with
  | refused hcue =>
    obtain ⟨blanks, rest, rfl, hblanks, hnone, hfault⟩ := hcue.blockFault
      (fun h ↦ hlines (List.mem_append_right _ h)) (by omega)
    have hclosed := hclosed.resolve_right fun h ↦ hfault.ne_nil (List.append_eq_nil_iff.mp h).2
    refine ⟨texts ++ blanks, rest, by simp, hclosed.append hblanks, ⟨cues, ?_⟩, ?_⟩
    · rwa [hclosed.blocks_append, hnone, List.append_nil]
    · have hline : (texts ++ blanks).length + 3 = 2 + texts.length + blanks.length + 1 := by
        rw [List.length_append]
        omega
      rwa [hline]

end Documents

namespace Document

variable {σ : Type} [Source σ] {source : σ} {bytes : List UInt8} {header : Header}

/-- Without limits, a stream whose header is read comes out as its lines after the header do. -/
theorem read_unlimited_of_cuesRead (hsource : Source.Delivers source bytes)
    (hlength : bytes.length < UInt64.size)
    (hheader : ∃ s, (Session.ofSource source .unlimited).readHeader = .ok header s)
    {outs : List (Except Violation Cue)} (houts : CuesRead .unlimited 2 (cueLines bytes) outs) :
    read source .unlimited = ((outs.mapM id).mapError .violation).map (Document.mk header) := by
  obtain ⟨s, hok⟩ := hheader
  obtain ⟨hphase, rest, line, rs, rfl, hheader, hs⟩ :=
    Session.headerRead_of_readHeader hsource hok
  rw [List.length_append] at hlength
  rw [cueLines_preamble_append (by omega)] at houts
  obtain ⟨rfl, hline⟩ := hheader.eq_drop
  refine read_of_cuesRead hok hphase hs ?_
  rcases hline with hnothing | rfl
  · -- the stream ends in the header, and no line is counted after it
    rw [hnothing] at houts ⊢
    obtain rfl := houts.eq_nil
    exact .ended (.ended line)
  · exact houts

/-- Without limits, a document whose header is read is read as the cues that the blocks after the
header are, if each of them is one, and is refused for the first fault of a block otherwise. -/
theorem read_unlimited_iff (hsource : Source.Delivers source bytes)
    (hlength : bytes.length < UInt64.size)
    (hheader : ∃ s, (Session.ofSource source .unlimited).readHeader = .ok header s) :
    (∀ d, read source .unlimited = .ok d ↔ d.header = header ∧ AreCues (cueLines bytes) d.cues) ∧
      ∀ e, read source .unlimited = .error e ↔
        ∃ v, e = .violation v ∧ FirstFault (cueLines bytes) v := by
  have hread := @read_unlimited_of_cuesRead _ _ _ _ _ hsource hlength hheader
  have hlines : (cueLines bytes).length ≤ Limits.unlimited.maxPayloadLines.toNat :=
    Nat.le_trans (length_cueLines_le bytes) (Nat.le_of_lt_succ hlength)
  obtain ⟨outs, houts⟩ := CuesRead.total .unlimited 2 (cueLines bytes)
  constructor
  · intro d
    constructor
    · intro hd
      rw [hread houts] at hd
      cases hcues : outs.mapM id with
      | error v =>
        rw [hcues] at hd
        cases hd
      | ok cues =>
        rw [hcues] at hd
        cases hd
        rw [mapM_id_eq_ok_iff.mp hcues] at houts
        obtain ⟨texts, htexts, hdenotes, -⟩ := houts.denotes
        exact ⟨rfl, texts, htexts, hdenotes⟩
    · rintro ⟨rfl, hcues⟩
      rw [hread (hcues.cuesRead hlines), mapM_id_eq_ok_iff.mpr rfl]
      rfl
  · intro e
    constructor
    · intro he
      rw [hread houts] at he
      cases hcues : outs.mapM id with
      | ok cues =>
        rw [hcues] at he
        cases he
      | error v =>
        rw [hcues] at he
        cases he
        obtain ⟨cues, more, rfl⟩ := exists_of_mapM_id_eq_error hcues
        exact ⟨v, rfl, houts.firstFault (overlong_notMem_cueLines bytes) hlines⟩
    · rintro ⟨v, rfl, hfault⟩
      obtain ⟨cues, more, hmore⟩ := hfault.cuesRead hlines
      rw [hread hmore, mapM_id_append_error]
      rfl

/-- Two blocks that are cues, with all endings of lines among them. -/
theorem areCues_sample :
    AreCues (cueLines (Text.encode "WEBVTT\n\nA\r\n1.5 --> 2\nHello\r\r0:1 --> 0:2 a:b\nB\n-->"))
      [⟨"A", ⟨0, 0, 1, 500⟩, ⟨0, 0, 2, 0⟩, [], ["Hello"]⟩,
        ⟨"", ⟨0, 0, 1, 0⟩, ⟨0, 0, 2, 0⟩, [⟨"a", "b"⟩], ["B", "-->"]⟩] := by
  have hsource := Slice.delivers_ofString
    "WEBVTT\n\nA\r\n1.5 --> 2\nHello\r\r0:1 --> 0:2 a:b\nB\n-->"
  have hread : ∃ d, d.cues =
      [⟨"A", ⟨0, 0, 1, 500⟩, ⟨0, 0, 2, 0⟩, [], ["Hello"]⟩,
        ⟨"", ⟨0, 0, 1, 0⟩, ⟨0, 0, 2, 0⟩, [⟨"a", "b"⟩], ["B", "-->"]⟩] ∧
      read (Slice.ofString "WEBVTT\n\nA\r\n1.5 --> 2\nHello\r\r0:1 --> 0:2 a:b\nB\n-->")
        .unlimited = .ok d := ⟨⟨{}, _⟩, rfl, by decide +kernel⟩
  obtain ⟨d, hcues, hread⟩ := hread
  obtain ⟨rest, line, rs, hbytes, haccepted, -⟩ := (read_eq_ok_iff hsource).mp hread
  obtain ⟨s, hok, -⟩ := Session.readHeader_of_headerRead (hbytes ▸ hsource) haccepted
  have hiff := read_unlimited_iff hsource (by decide +kernel) ⟨s, hok⟩
  exact hcues ▸ ((hiff.1 d).mp hread).2

end Document

end WebVTT
