import WebVTT.Document
import WebVTT.Proofs.Header.Reading
import WebVTT.Proofs.Session.Drain

/-!
# Reading a document follows the grammar

A document is a header and what draining yields after it, up to the first error. So it is read
exactly if both grammars accept, and the first refusal among the cues is the error otherwise.
-/

namespace WebVTT

/-! ## Results up to the first error -/

section Results

variable {ε α : Type}

/-- Results come off together if each does. -/
theorem mapM_id_eq_ok_iff {results : List (Except ε α)} {as : List α} :
    results.mapM id = .ok as ↔ results = as.map .ok := by
  induction results generalizing as with
  | nil => cases as <;> simp [pure, Except.pure]
  | cons r results ih =>
    rw [List.mapM_cons]
    cases r with
    | error e => cases as <;> simp [bind, Except.bind]
    | ok a =>
      cases hrest : results.mapM id with
      | error e =>
        have hne : ∀ bs : List α, results ≠ bs.map .ok := by
          intro bs hbs
          rw [ih.mpr hbs] at hrest
          cases hrest
        cases as <;> simp [bind, Except.bind, hne]
      | ok bs =>
        have hbs : results = bs.map .ok := ih.mp hrest
        cases as with
        | nil => simp [bind, Except.bind, pure, Except.pure]
        | cons b as =>
          simp only [bind, Except.bind, pure, Except.pure, id_eq, Except.ok.injEq,
            List.cons.injEq, List.map_cons, ← ih, hrest]

/-- Results fail together with the first that does. -/
theorem mapM_id_append_error (as : List α) (e : ε) (more : List (Except ε α)) :
    (as.map Except.ok ++ Except.error e :: more).mapM id = .error e := by
  induction as with
  | nil => rfl
  | cons a as ih =>
    rw [List.map_cons, List.cons_append, List.mapM_cons, ih]
    rfl

/-- Results that do not all come off have a first that does not. -/
theorem exists_of_mapM_id_eq_error {results : List (Except ε α)} {e : ε}
    (h : results.mapM id = .error e) :
    ∃ (as : List α) (more : List (Except ε α)), results = as.map .ok ++ .error e :: more := by
  induction results with
  | nil => cases h
  | cons r results ih =>
    rw [List.mapM_cons] at h
    cases r with
    | error e' =>
      cases h
      exact ⟨[], results, rfl⟩
    | ok a =>
      cases hrest : results.mapM id with
      | ok bs =>
        rw [hrest] at h
        cases h
      | error e' =>
        rw [hrest] at h
        cases h
        obtain ⟨as, more, rfl⟩ := ih hrest
        exact ⟨a :: as, more, rfl⟩

end Results

/-! ## Cues -/

namespace Cues

variable {σ : Type} [Source σ] {c d : Cues σ}

/-- A walk that yields nothing more is over. -/
theorem collectAfter_of_none {found : Array (Except Error Cue)} (h : c.next = (none, d)) :
    c.collectAfter found = (found.toList, d) := by
  rw [collectAfter]
  split <;> simp_all

/-- A walk goes on with what it yields next. -/
theorem collectAfter_of_some {found : Array (Except Error Cue)} {result : Except Error Cue}
    (h : c.next = (some result, d)) :
    c.collectAfter found = d.collectAfter (found.push result) := by
  rw [collectAfter]
  split <;> simp_all

end Cues

/-- Walking over the cues of a session yields what draining it does, up to the first error. -/
theorem CuesRead.collectAfter {σ : Type} [Source σ] {s : Session σ} {limits : Limits} {line : Nat}
    {rs : List LineRead} {outs : List (Except Violation Cue)} (h : CuesRead limits line rs outs)
    (hphase : s.phase = .atCues) (hs : s.stream.Awaits limits line rs)
    (found : Array (Except Error Cue)) :
    ∃ results, (Cues.collectAfter found { session := s }).1 = found.toList ++ results ∧
      results.mapM id = (outs.mapM id).mapError .violation := by
  induction h generalizing s found with
  | ended h =>
    obtain ⟨t, -, -, hnext⟩ := Session.nextCue_of_cueRead hphase hs h
    have hover : Cues.next { session := s } = (none, { session := t, finished := true }) := by
      simp [Cues.next, hnext]
    exact ⟨[], by rw [Cues.collectAfter_of_none hover, List.append_nil], rfl⟩
  | @cue _ _ _ _ c outs h _ ih =>
    obtain ⟨t, hphase, ht, hnext⟩ := Session.nextCue_of_cueRead hphase hs h
    have hmore : Cues.next { session := s } = (some (.ok c), { session := t }) := by
      simp [Cues.next, hnext]
    obtain ⟨results, hcollect, hresults⟩ := ih hphase ht (found.push (.ok c))
    refine ⟨.ok c :: results, ?_, ?_⟩
    · rw [Cues.collectAfter_of_some hmore, hcollect]
      simp
    · rw [List.mapM_cons, List.mapM_cons, hresults]
      cases outs.mapM id <;> rfl
  | @refused _ _ _ _ v outs h _ ih =>
    -- the walk is finished by the error, while draining goes on
    obtain ⟨t, -, -, hnext⟩ := Session.nextCue_of_cueRead hphase hs h
    have hlast : Cues.next { session := s } =
        (some (.error (.violation v)), { session := t, finished := true }) := by
      simp [Cues.next, hnext]
    have hover : Cues.next { session := t, finished := true } =
        (none, { session := t, finished := true }) := rfl
    refine ⟨[.error (.violation v)], ?_, rfl⟩
    rw [Cues.collectAfter_of_some hlast, Cues.collectAfter_of_none hover]
    simp

/-! ## Documents -/

namespace Document

variable {σ : Type} [Source σ] {source : σ} {limits : Limits}

/-- A document with a header that is read comes out as its cues do, up to the first error. -/
theorem read_of_cuesRead {header : Header} {s : Session σ} {line : Nat} {rs : List LineRead}
    {outs : List (Except Violation Cue)}
    (hok : (Session.ofSource source limits).readHeader = .ok header s)
    (hphase : s.phase = .atCues) (hs : s.stream.Awaits limits line rs)
    (hcues : CuesRead limits line rs outs) :
    read source limits = ((outs.mapM id).mapError .violation).map (Document.mk header) := by
  obtain ⟨results, hcollect, hresults⟩ := hcues.collectAfter hphase hs #[]
  rw [read, hok]
  show (do
    let cues ← (Cues.collectAfter #[] { session := s }).1.mapM id
    return (⟨header, cues⟩ : Document)) = _
  rw [hcollect, List.nil_append, hresults]
  cases outs.mapM id <;> rfl

/-- A document is read exactly if its header and its cues are what the grammar makes of it. -/
theorem read_eq_ok_iff {bytes : List UInt8} {d : Document}
    (hsource : Source.Delivers source bytes) :
    read source limits = .ok d ↔ ∃ rest line rs, bytes = preamble d.header.hasBom ++ rest ∧
      HeaderRead limits (reads limits.maxLineLength.toNat rest) (.ok d.header.description) line rs ∧
      CuesRead limits line rs (d.cues.map .ok) := by
  constructor
  · intro hread
    cases hok : (Session.ofSource source limits).readHeader with
    | error e s =>
      rw [read, hok] at hread
      cases hread
    | ok header s =>
      obtain ⟨hphase, rest, line, rs, hbytes, hheader, hs⟩ :=
        Session.headerRead_of_readHeader hsource hok
      obtain ⟨outs, houts⟩ := CuesRead.total limits line rs
      rw [read_of_cuesRead hok hphase hs houts] at hread
      cases hcues : outs.mapM id with
      | error v =>
        rw [hcues] at hread
        cases hread
      | ok cues =>
        rw [hcues] at hread
        cases hread
        exact ⟨rest, line, rs, hbytes, hheader, mapM_id_eq_ok_iff.mp hcues ▸ houts⟩
  · rintro ⟨rest, line, rs, rfl, hheader, hcues⟩
    obtain ⟨s, hok, hphase, hs⟩ := Session.readHeader_of_headerRead hsource hheader
    rw [read_of_cuesRead hok hphase hs hcues, mapM_id_eq_ok_iff.mpr rfl]
    rfl

end Document

end WebVTT
