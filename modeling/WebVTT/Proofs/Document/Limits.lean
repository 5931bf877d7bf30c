import WebVTT.Proofs.Cue.Blocks
import WebVTT.Proofs.Document.Excess

/-!
# What limits do to a document

Limits refuse documents and do nothing else (`Document.read_limits`). Under limits a document comes
out as it does without, unless one of the lines that are read without limits exceeds one; then it is
refused for the first such line. This holds line by line (`scan_limited`).
-/

namespace WebVTT

/-! ## Going through lines under limits -/

/-- What maps to an error is that error. -/
theorem map_eq_error_iff {ε α β : Type} {f : α → β} {result : Except ε α} {e : ε} :
    result.map f = .error e ↔ result = .error e := by
  cases result <;> simp [Except.map]

/-- What is an error after errors are mapped is one that maps to it. -/
theorem mapError_eq_error_iff {ε δ α : Type} {f : ε → δ} {result : Except ε α} {d : δ} :
    result.mapError f = .error d ↔ ∃ e, result = .error e ∧ f e = d := by
  cases result <;> simp [Except.mapError]

/-- What is found under limits is what is found without, or the violation of a line beyond a limit if
there is one. -/
def Scanned.Limited (full limited : Scanned) : Option Violation → Prop
  | none => limited = full
  | some v => limited.1 = .error v

/-- A cue found before makes no difference. -/
theorem Scanned.Limited.after {full limited : Scanned} {excess : Option Violation}
    (h : full.Limited limited excess) (cue? : Option Cue) :
    (full.after cue?).Limited (limited.after cue?) excess := by
  cases excess with
  | none => exact congrArg (Scanned.after cue?) h
  | some v =>
    have h : limited.1 = .error v := h
    show limited.1.map _ = _
    rw [h]
    rfl

section Scan

variable {limits : Limits} {before ls : List Line} {l : Line} {stage : Stage} {v : Violation}

/-- A line that exceeds a limit is refused for that. -/
theorem scan_of_excess (hfits : stage.Fits before) (hl : l.ending ≠ none ∨ l.content ≠ [])
    (hexcess : Line.excess? limits before l = some v) (rs : List LineRead) :
    (scan limits stage before.length (l.reads limits.maxLineLength.toNat ++ rs)).1 = .error v := by
  unfold Line.excess? at hexcess
  split at hexcess
  · next hlong =>
    cases hexcess
    rw [Line.reads_of_lt hlong]
    rfl
  next hlong =>
  split at hexcess
  · next hmany =>
    cases hexcess
    rw [Line.reads_of_le (Nat.le_of_not_lt hlong) hl]
    unfold LineRead.ofBytes
    cases htext : Text.decode l.content with
    | none =>
      rw [Line.ordinal, if_pos (.inr htext)] at hmany
      cases hmany
    | some text =>
      rw [hfits.ordinal_eq htext] at hmany
      show (scan limits stage before.length (.ok text :: rs)).1 = _
      rw [scan_of_lt hmany]
  · cases hexcess

/-- A line that exceeds no limit leads where it does whatever the limits. -/
theorem scan_of_not_excess (hfits : stage.Fits before) (hl : l.ending ≠ none ∨ l.content ≠ [])
    (hexcess : Line.excess? limits before l = none) (rs : List LineRead) :
    scan limits stage before.length (l.reads limits.maxLineLength.toNat ++ rs) =
      match stage.nextLine before l with
      | .error v => (.error v, before.length + 1)
      | .ok (cue?, stage) => (scan limits stage (before ++ [l]).length rs).after cue? := by
  obtain ⟨hlength, hordinal⟩ := Line.excess?_eq_none_iff.mp hexcess
  rw [Line.reads_of_le hlength hl, List.length_append]
  unfold LineRead.ofBytes Stage.nextLine
  cases htext : Text.decode l.content with
  | none => rfl
  | some text =>
    rw [hfits.ordinal_eq htext] at hordinal
    exact scan_cons _ _ hordinal

/-- Lines of a stream after these that can be counted, and so can their bytes. -/
structure Countable (before ls : List Line) : Prop where
  length_le : before.length + ls.length ≤ UInt64.size
  content_lt : ∀ l ∈ ls, l.content.length < UInt64.size
  ending_or_content : ∀ l ∈ ls, l.ending ≠ none ∨ l.content ≠ []

theorem Countable.cons (h : Countable before (l :: ls)) :
    (l.ending ≠ none ∨ l.content ≠ []) ∧ Line.excess? .unlimited before l = none ∧
      Countable (before ++ [l]) ls := by
  obtain ⟨hlength, hcontent, hending⟩ := h
  rw [List.length_cons] at hlength
  obtain ⟨hl, hcontent⟩ := List.forall_mem_cons.mp hcontent
  obtain ⟨hl', hending⟩ := List.forall_mem_cons.mp hending
  refine ⟨hl', Line.excess?_unlimited hl (by omega), ?_, hcontent, hending⟩
  rw [List.length_append, List.length_singleton]
  omega

/-- Without limits, no line is refused for exceeding one. -/
theorem category_of_scan_unlimited (hfits : stage.Fits before) (hls : Countable before ls)
    (h : (scan .unlimited stage before.length
      (ls.flatMap (Line.reads Limits.unlimited.maxLineLength.toNat))).1 = .error v) :
    v.category ≠ .resource := by
  induction ls generalizing before stage with
  | nil =>
    rw [Stage.category_of_finish (map_eq_error_iff.mp h)]
    nofun
  | cons l ls ih =>
    obtain ⟨hl, hexcess, hls⟩ := hls.cons
    rw [List.flatMap_cons, scan_of_not_excess hfits hl hexcess] at h
    cases hnext : stage.nextLine before l with
    | error v =>
      rw [hnext] at h
      cases h
      exact Stage.category_of_nextLine hnext
    | ok next =>
      rw [hnext] at h
      exact ih (hfits.nextLine hnext) hls (map_eq_error_iff.mp h)

/-- Under limits, lines come out as they do without, unless one that is read without exceeds a
limit. -/
theorem scan_limited (limits : Limits) (hfits : stage.Fits before) (hls : Countable before ls)
    {full : Scanned} (hfull : scan .unlimited stage before.length
      (ls.flatMap (Line.reads Limits.unlimited.maxLineLength.toNat)) = full) :
    full.Limited
      (scan limits stage before.length (ls.flatMap (Line.reads limits.maxLineLength.toNat)))
      (Line.firstExcess? limits before (ls.take (full.2 - before.length))) := by
  induction ls generalizing before stage full with
  | nil =>
    subst hfull
    rw [List.flatMap_nil, List.flatMap_nil, List.take_nil]
    show scan limits stage before.length [] = scan .unlimited stage before.length []
    rw [scan, scan]
  | cons l ls ih =>
    obtain ⟨hl, hunlimited, hls⟩ := hls.cons
    rw [List.flatMap_cons, scan_of_not_excess hfits hl hunlimited] at hfull
    rw [List.flatMap_cons]
    cases hnext : stage.nextLine before l with
    | error v =>
      -- nothing after the line is read, with or without limits
      rw [hnext] at hfull
      subst hfull
      rw [Nat.add_sub_cancel_left, List.take_succ_cons, List.take_zero, Line.firstExcess?]
      cases hexcess : Line.excess? limits before l with
      | some v => exact scan_of_excess hfits hl hexcess _
      | none =>
        rw [scan_of_not_excess hfits hl hexcess, hnext]
        rfl
    | ok next =>
      obtain ⟨cue?, stage'⟩ := next
      rw [hnext] at hfull
      dsimp only at hfull
      have hlater := ih (hfits.nextLine hnext) hls rfl
      -- the lines that are read without limits are this one and those after it
      obtain ⟨n, hn⟩ := Nat.exists_eq_add_of_le (le_scan .unlimited stage' (before ++ [l]).length
        (ls.flatMap (Line.reads Limits.unlimited.maxLineLength.toNat)))
      have hread : full.2 - before.length = n + 1 := by
        rw [← hfull, Scanned.after, hn, List.length_append, List.length_singleton]
        omega
      rw [hread, List.take_succ_cons, Line.firstExcess?]
      cases hexcess : Line.excess? limits before l with
      | some v => exact scan_of_excess hfits hl hexcess _
      | none =>
        rw [hn, Nat.add_sub_cancel_left] at hlater
        rw [scan_of_not_excess hfits hl hexcess, hnext, Option.none_or, ← hfull]
        exact hlater.after cue?

end Scan

/-! ## Documents -/

namespace Document

variable {σ : Type} [Source σ] {source : σ} {bytes : List UInt8} {limits : Limits} {d : Document}

/-- A document that is read under some limits is read under others exactly if it keeps to them. -/
theorem read_eq_ok_iff_of_read (hsource : Source.Delivers source bytes)
    (hread : read source limits = .ok d) (limits' : Limits) :
    read source limits' = .ok d ↔
      (∀ l ∈ Line.split (body bytes), l.content.length ≤ limits'.maxLineLength.toNat) ∧
        ∀ cue ∈ d.cues, cue.payload.length ≤ limits'.maxPayloadLines.toNat := by
  constructor
  · intro hread'
    obtain ⟨rest, line, rs, rfl, hheader, hcues⟩ := (read_eq_ok_iff hsource).mp hread'
    obtain ⟨texts, rfl, -, hpayload⟩ := hcues.denotes
    obtain ⟨lines, hlines, -, -⟩ := hheader.exists_texts
    rw [body_preamble_append]
    exact ⟨(reads_eq_map_ok_iff.mp hlines).1, hpayload⟩
  · rintro ⟨hlength, hpayload⟩
    obtain ⟨rest, line, rs, rfl, hheader, hcues⟩ := (read_eq_ok_iff hsource).mp hread
    obtain ⟨texts, rfl, hdenotes, -⟩ := hcues.denotes
    obtain ⟨lines, hlines, -, -⟩ := hheader.exists_texts
    rw [body_preamble_append] at hlength
    have hlines' : reads limits'.maxLineLength.toNat rest = lines.map .ok :=
      reads_eq_map_ok_iff.mpr ⟨hlength, (reads_eq_map_ok_iff.mp hlines).2⟩
    rw [hlines] at hheader
    refine (read_eq_ok_iff hsource).mpr ⟨rest, line, texts.map .ok, rfl, ?_, ?_⟩
    · exact hlines' ▸ hheader.of_ok limits'
    · exact .of_denotes hdenotes hpayload

/-- What is read under limits is read without. -/
theorem read_unlimited_of_read (hsource : Source.Delivers source bytes)
    (hread : read source limits = .ok d) : read source .unlimited = .ok d := by
  obtain ⟨hlength, hpayload⟩ := (read_eq_ok_iff_of_read hsource hread limits).mp hread
  refine (read_eq_ok_iff_of_read hsource hread .unlimited).mpr ⟨fun l hl ↦ ?_, fun cue hcue ↦ ?_⟩
  · exact Nat.le_trans (hlength l hl) (Nat.le_of_lt_succ limits.maxLineLength.toNat_lt)
  · exact Nat.le_trans (hpayload cue hcue) (Nat.le_of_lt_succ limits.maxPayloadLines.toNat_lt)

/-- A stream without a preamble is refused for the same reason whatever the limits, and before its
first line. -/
theorem preamble_or_read_refused (hsource : Source.Delivers source bytes) :
    (∃ hasBom rest, bytes = preamble hasBom ++ rest) ∨
      ∃ v : Violation, v.category ≠ .resource ∧
        ∀ limits, read source limits = .error (.violation v) ∧ linesRead source limits = 0 := by
  refine (LineStream.preamble_or_refused (σ := σ) bytes).imp_right ?_
  rintro ⟨v, hv, hrefused⟩
  refine ⟨v, hv, fun limits ↦ ?_⟩
  obtain ⟨t, rest, hread, ht⟩ := hrefused _ limits 0 (LineStream.at_ofSource hsource)
  exact ht.line_eq ▸ read_of_refused hread

/-- The lines of a stream that is not too long can be counted. -/
theorem countable_split {rest : List UInt8} (hlength : rest.length < UInt64.size) :
    Countable [] (Line.split rest) where
  length_le := by
    have hsplit := Line.length_split_le rest
    rw [List.length_nil]
    omega
  content_lt _ hl := Nat.lt_of_le_of_lt (Line.length_content_le hl) hlength
  ending_or_content _ := Line.ending_ne_none_or_content_ne_nil

/-- Without limits, no document is refused for exceeding one. -/
theorem category_of_read_unlimited (hsource : Source.Delivers source bytes)
    (hlength : bytes.length < UInt64.size) {e : Error} (h : read source .unlimited = .error e) :
    e.category ≠ .resource := by
  rcases preamble_or_read_refused hsource with ⟨hasBom, rest, rfl⟩ | ⟨v, hv, hrefused⟩
  · have hrest : rest.length < UInt64.size := by
      rw [List.length_append] at hlength
      omega
    obtain ⟨header, hread, -⟩ := read_eq_scan hsource .unlimited
    rw [hread, map_eq_error_iff, mapError_eq_error_iff] at h
    obtain ⟨v, hfound, rfl⟩ := h
    exact category_of_scan_unlimited (show Stage.Fits [] .signature from rfl) (countable_split hrest)
      hfound
  · rw [(hrefused .unlimited).1] at h
    cases h
    exact hv

/-- Under limits, a document comes out as it does without, unless one of the lines that are read
without exceeds a limit; then it is refused for the first of them. -/
theorem read_limited (hsource : Source.Delivers source bytes) (hlength : bytes.length < UInt64.size)
    (limits : Limits) :
    read source limits =
      match Line.firstExcess? limits []
        ((Line.split (body bytes)).take (linesRead source .unlimited)) with
      | some v => .error (.violation v)
      | none => read source .unlimited := by
  rcases preamble_or_read_refused hsource with ⟨hasBom, rest, rfl⟩ | ⟨v, -, hrefused⟩
  · have hrest : rest.length < UInt64.size := by
      rw [List.length_append] at hlength
      omega
    have hstart : Stage.Fits [] .signature := rfl
    have hlimited := scan_limited limits hstart (countable_split hrest) rfl
    obtain ⟨header, hunlimited, hlines⟩ := read_eq_scan hsource .unlimited
    obtain ⟨header', hread, -⟩ := read_eq_scan hsource limits
    unfold reads at hunlimited hlines hread
    rw [List.length_nil, Nat.sub_zero, ← hlines] at hlimited
    rw [body_preamble_append]
    cases hexcess : Line.firstExcess? limits []
        ((Line.split rest).take (linesRead source .unlimited)) with
    | some v =>
      rw [hexcess, Scanned.Limited] at hlimited
      rw [hread, hlimited]
      rfl
    | none =>
      rw [hexcess, Scanned.Limited] at hlimited
      rw [hlimited] at hread
      -- only the header may still differ, and does not where there is a document
      cases hfound : (scan .unlimited .signature 0 ((Line.split rest).flatMap
          (Line.reads Limits.unlimited.maxLineLength.toNat))).1 with
      | ok cues =>
        rw [hfound] at hread
        exact hread.trans (read_unlimited_of_read hsource hread).symm
      | error v =>
        rw [hfound] at hread hunlimited
        exact hread.trans hunlimited.symm
  · rw [(hrefused limits).1, (hrefused .unlimited).1, (hrefused .unlimited).2, List.take_zero]
    rfl

/-- Limits only ever refuse documents for what exceeds them. Under limits, a document is read exactly
if it is without and all its lines and cues keep to the limits. What else it is refused for, it is
refused for without. And it is refused for exceeding a limit exactly if one of the lines that are
read without does, for the first of them. -/
theorem read_limits (hsource : Source.Delivers source bytes) (hlength : bytes.length < UInt64.size)
    (limits : Limits) :
    (∀ d, read source limits = .ok d ↔ read source .unlimited = .ok d ∧
      (∀ l ∈ Line.split (body bytes), l.content.length ≤ limits.maxLineLength.toNat) ∧
      ∀ cue ∈ d.cues, cue.payload.length ≤ limits.maxPayloadLines.toNat) ∧
    (∀ e, read source limits = .error e → e.category ≠ .resource →
      read source .unlimited = .error e) ∧
    ∀ v : Violation, v.category = .resource →
      (read source limits = .error (.violation v) ↔ Line.firstExcess? limits []
        ((Line.split (body bytes)).take (linesRead source .unlimited)) = some v) := by
  have hlimited := read_limited hsource hlength limits
  refine ⟨fun d ↦ ⟨fun hread ↦ ?_, fun ⟨hread, hkeeps⟩ ↦ ?_⟩, fun e hread he ↦ ?_, fun v hv ↦ ?_⟩
  · exact ⟨read_unlimited_of_read hsource hread,
      (read_eq_ok_iff_of_read hsource hread limits).mp hread⟩
  · exact (read_eq_ok_iff_of_read hsource hread limits).mpr hkeeps
  · rw [hlimited] at hread
    split at hread
    · next v hexcess =>
      cases hread
      exact absurd (Line.category_of_firstExcess? hexcess) he
    · exact hread
  · rw [hlimited]
    split
    · next v' hexcess => simp [hexcess]
    · next hnone =>
      rw [hnone]
      refine iff_of_false (fun hread ↦ ?_) nofun
      exact category_of_read_unlimited hsource hlength hread hv

/-- The third line of text of a cue that may have two, after a cue that has. -/
theorem read_limits_sample :
    read (Slice.ofString "WEBVTT\n\n1 --> 2\na\nb\n\nA\r\n3 --> 4\r\nc\rd\ne-->")
      { maxLineLength := 7, maxPayloadLines := 2 } =
        .error (.violation (.tooManyPayloadLines 11 2)) := by
  have hsource := Slice.delivers_ofString
    "WEBVTT\n\n1 --> 2\na\nb\n\nA\r\n3 --> 4\r\nc\rd\ne-->"
  have hlimits := read_limits hsource (by decide +kernel)
    { maxLineLength := 7, maxPayloadLines := 2 }
  exact (hlimits.2.2 (.tooManyPayloadLines 11 2) rfl).mpr (by decide +kernel)

end Document

end WebVTT
