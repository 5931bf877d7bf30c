import WebVTT.Proofs.Cue.Reading
import WebVTT.Proofs.Header.Reading
import WebVTT.Proofs.Session.Cases

/-!
# Reading all cues

A session is *drained* by asking for cues until there is none left, going on after every error.
`CuesRead` says what that yields for the reads of a stream, with one attempt of the grammar after the
other; each attempt but the last takes a read at least, so draining comes to an end
(`CuesRead.total`), and it yields what the grammar has (`CuesRead.drains`).
-/

namespace WebVTT

/-- What attempts at cues yield up to the end of a stream. -/
inductive CuesRead (limits : Limits) : Nat → List LineRead → List (Except Violation Cue) → Prop where
  | ended {line line' : Nat} {rs rs' : List LineRead} :
      CueRead limits line rs (.ok none) line' rs' → CuesRead limits line rs []
  | cue {line line' : Nat} {rs rs' : List LineRead} {cue : Cue}
      {outs : List (Except Violation Cue)} :
      CueRead limits line rs (.ok (some cue)) line' rs' → CuesRead limits line' rs' outs →
      CuesRead limits line rs (.ok cue :: outs)
  | refused {line line' : Nat} {rs rs' : List LineRead} {v : Violation}
      {outs : List (Except Violation Cue)} :
      CueRead limits line rs (.error v) line' rs' → CuesRead limits line' rs' outs →
      CuesRead limits line rs (.error v :: outs)

/-- A block is over after no more reads than there were. -/
theorem Closing.length_le {rs rs' : List LineRead} {closing : Nat}
    (h : Closing rs closing rs') : rs'.length ≤ rs.length := by
  cases h with
  | ended => exact Nat.le_refl _
  | blank => exact Nat.le_succ _

/-- An attempt takes a read at least, unless nothing but empty lines is left. -/
theorem CueRead.length_lt {limits : Limits} {line line' : Nat} {rs rs' : List LineRead}
    {out : Except Violation (Option Cue)} (h : CueRead limits line rs out line' rs')
    (hout : out ≠ .ok none) : rs'.length < rs.length := by
  induction h with
  | ended => exact absurd rfl hout
  | blank _ ih => exact Nat.lt_succ_of_lt (ih hout)
  | unreadable =>
    simp only [List.length_append, List.length_cons]
    omega
  | unfinished => exact Nat.succ_pos _
  | untimed =>
    simp only [List.length_cons]
    omega
  | mistimed hopening =>
    obtain ⟨first, more, rfl, -⟩ := hopening.exists_cons
    simp only [List.map_cons, List.length_append, List.length_cons]
    omega
  | overfull hopens =>
    have hpos := hopens.length_pos
    simp only [List.length_append, List.length_map]
    omega
  | textless hopens hclosing | cue hopens _ _ _ hclosing =>
    have hpos := hopens.length_pos
    have hle := hclosing.length_le
    simp only [List.length_append, List.length_map]
    omega

/-- Draining comes to an end. -/
theorem CuesRead.total (limits : Limits) (line : Nat) (rs : List LineRead) :
    ∃ outs, CuesRead limits line rs outs := by
  obtain ⟨out, line', rs', h⟩ := CueRead.total limits line rs
  match out with
  | .ok none => exact ⟨[], .ended h⟩
  | .ok (some c) =>
    have hshorter := h.length_lt (by simp)
    obtain ⟨outs, houts⟩ := CuesRead.total limits line' rs'
    exact ⟨.ok c :: outs, .cue h houts⟩
  | .error v =>
    have hshorter := h.length_lt (by simp)
    obtain ⟨outs, houts⟩ := CuesRead.total limits line' rs'
    exact ⟨.error v :: outs, .refused h houts⟩
termination_by rs.length

/-- An empty line before them changes nothing about cues but their lines. -/
theorem CuesRead.blank {limits : Limits} {line : Nat} {rs : List LineRead}
    {outs : List (Except Violation Cue)} (h : CuesRead limits (line + 1) rs outs) :
    CuesRead limits line (.ok "" :: rs) outs := by
  cases h with
  | ended hend => exact .ended hend.blank
  | cue hcue hmore => exact .cue hcue.blank hmore
  | refused hcue hmore => exact .refused hcue.blank hmore

/-- Nothing comes of nothing. -/
theorem CuesRead.eq_nil {limits : Limits} {line : Nat} {outs : List (Except Violation Cue)}
    (h : CuesRead limits line [] outs) : outs = [] := by
  cases h with
  | ended => rfl
  | cue h | refused h => exact absurd (h.length_lt (by simp)) (Nat.not_lt_zero _)

/-! ## Sessions -/

namespace Session

variable {σ : Type} [Source σ] {s t : Session σ}

/-- Asking for cues until there is none left, going on after every error, yields these results. -/
inductive Drains : Session σ → List (Except Error Cue) → Prop where
  | ended {s t : Session σ} : nextCue s = .ok none t → Drains s []
  | cue {s t : Session σ} {cue : Cue} {results : List (Except Error Cue)} :
      nextCue s = .ok (some cue) t → Drains t results → Drains s (.ok cue :: results)
  | refused {s t : Session σ} {e : Error} {results : List (Except Error Cue)} :
      nextCue s = .error e t → Drains t results → Drains s (.error e :: results)

/-- Draining yields nothing else. -/
theorem Drains.unique {results results' : List (Except Error Cue)} (h : Drains s results)
    (h' : Drains s results') : results = results' := by
  induction h generalizing results' with
  | ended hnext => cases h' <;> simp_all
  | cue hnext _ ih =>
    cases h' with
    | ended hnext' => simp_all
    | refused hnext' => simp_all
    | cue hnext' hrest =>
      rw [hnext] at hnext'
      cases hnext'
      rw [ih hrest]
  | refused hnext _ ih =>
    cases h' with
    | ended hnext' => simp_all
    | cue hnext' => simp_all
    | refused hnext' hrest =>
      rw [hnext] at hnext'
      cases hnext'
      rw [ih hrest]

/-- A header that the grammar accepts is read. -/
theorem readHeader_of_headerRead {source : σ} {limits : Limits} {hasBom : Bool}
    {rest : List UInt8} {description : String} {line : Nat} {rs : List LineRead}
    (hsource : Source.Delivers source (preamble hasBom ++ rest))
    (hheader : HeaderRead limits (reads limits.maxLineLength.toNat rest) (.ok description) line rs) :
    ∃ s, readHeader (ofSource source limits) = .ok ⟨hasBom, description⟩ s ∧ s.phase = .atCues ∧
      s.stream.Awaits limits line rs := by
  obtain ⟨t, hread, ht⟩ := (LineStream.at_ofSource hsource).readHeader hheader
  refine ⟨⟨t.note (.headerAccepted ⟨hasBom, description⟩), .atCues⟩, ?_, rfl, ht.note _⟩
  unfold readHeader ofSource
  dsimp only
  rw [hread]
  rfl

/-- A header that is read is one that the grammar accepts. -/
theorem headerRead_of_readHeader {source : σ} {limits : Limits} {bytes : List UInt8}
    {header : Header} (hsource : Source.Delivers source bytes)
    (hok : readHeader (ofSource source limits) = .ok header s) :
    s.phase = .atCues ∧ ∃ rest line rs, bytes = preamble header.hasBom ++ rest ∧
      HeaderRead limits (reads limits.maxLineLength.toNat rest) (.ok header.description) line rs ∧
      s.stream.Awaits limits line rs := by
  obtain ⟨t, hread, rfl⟩ := exists_of_readHeader_ofSource hok
  obtain ⟨rest, line, rs, hbytes, hheader, ht⟩ :=
    (LineStream.at_ofSource hsource).headerRead_of_readHeader hread
  exact ⟨rfl, rest, line, rs, hbytes, hheader, ht.note _⟩

/-- Once the header is read, the next cue comes out as the grammar has it. -/
theorem nextCue_of_cueRead {limits : Limits} {line line' : Nat} {rs rs' : List LineRead}
    {out : Except Violation (Option Cue)} (hphase : s.phase = .atCues)
    (hs : s.stream.Awaits limits line rs) (h : CueRead limits line rs out line' rs') :
    ∃ t, t.phase = .atCues ∧ t.stream.Awaits limits line' rs' ∧
      nextCue s = match out with
        | .ok cue? => .ok cue? t
        | .error v => .error (.violation v) t := by
  obtain ⟨u, hread, hu⟩ := hs.readCue h
  unfold nextCue
  rw [hphase]
  dsimp only
  rw [hread]
  match out with
  | .ok none => exact ⟨_, rfl, hu.note _, rfl⟩
  | .ok (some c) => exact ⟨_, rfl, hu.note _, rfl⟩
  | .error v => exact ⟨_, rfl, hu.note _, rfl⟩

end Session

/-- Draining yields what the grammar has. -/
theorem CuesRead.drains {σ : Type} [Source σ] {s : Session σ} {limits : Limits} {line : Nat}
    {rs : List LineRead} {outs : List (Except Violation Cue)} (h : CuesRead limits line rs outs)
    (hphase : s.phase = .atCues) (hs : s.stream.Awaits limits line rs) :
    s.Drains (outs.map (Except.mapError .violation)) := by
  induction h generalizing s with
  | ended h =>
    obtain ⟨t, -, -, hnext⟩ := Session.nextCue_of_cueRead hphase hs h
    exact .ended hnext
  | cue h _ ih =>
    obtain ⟨t, hphase, ht, hnext⟩ := Session.nextCue_of_cueRead hphase hs h
    exact .cue hnext (ih hphase ht)
  | refused h _ ih =>
    obtain ⟨t, hphase, ht, hnext⟩ := Session.nextCue_of_cueRead hphase hs h
    exact .refused hnext (ih hphase ht)

end WebVTT
