import WebVTT.Proofs.Document.Reading
import WebVTT.Proofs.Session.Results

/-!
# The results of a document

A document is made of the results of its session up to the first that is no cue, and that one decides
whether there is a document at all (`Document.read_of_yieldsFirst`). So all ways of getting at the
cues of a stream rest on the same results (`Session.run_eq_results`).
-/

namespace WebVTT

variable {σ : Type} [Source σ] {s : Session σ} {cues : List Cue} {e? : Option Error}

/-- A walk to the end yields the cues, and the error that finishes it. -/
theorem Session.YieldsFirst.collectAfter (h : s.YieldsFirst cues e?)
    (found : Array (Except Error Cue)) :
    (Cues.collectAfter found { session := s }).1 =
      found.toList ++ (cues.map .ok ++ e?.toList.map .error) := by
  induction h generalizing found with
  | @ended s t hnext =>
    have hover : Cues.next { session := s } = (none, { session := t, finished := true }) := by
      simp [Cues.next, hnext]
    rw [Cues.collectAfter_of_none hover]
    simp
  | @refused s t e hnext =>
    have hlast : Cues.next { session := s } =
        (some (.error e), { session := t, finished := true }) := by
      simp [Cues.next, hnext]
    have hover : Cues.next { session := t, finished := true } =
        (none, { session := t, finished := true }) := rfl
    rw [Cues.collectAfter_of_some hlast, Cues.collectAfter_of_none hover]
    simp
  | @cue s t cue cues e? hnext _ ih =>
    have hmore : Cues.next { session := s } = (some (.ok cue), { session := t }) := by
      simp [Cues.next, hnext]
    rw [Cues.collectAfter_of_some hmore, ih]
    simp

variable {source : σ} {limits : Limits} {header : Header}

/-- There is a document exactly if the cues end where the stream does. -/
theorem Document.read_of_yieldsFirst
    (hok : (Session.ofSource source limits).readHeader = .ok header s)
    (h : s.YieldsFirst cues e?) :
    read source limits = e?.elim (.ok ⟨header, cues⟩) .error := by
  have hcollect := h.collectAfter #[]
  rw [List.nil_append] at hcollect
  rw [read, hok]
  show (do
    let cues ← (Cues.collectAfter #[] { session := s }).1.mapM id
    return (⟨header, cues⟩ : Document)) = _
  rw [hcollect]
  cases e? with
  | none =>
    rw [Option.toList_none, List.map_nil, List.append_nil, mapM_id_eq_ok_iff.mpr rfl]
    rfl
  | some e =>
    rw [Option.toList_some, List.map_singleton, mapM_id_append_error]
    rfl

/-- The document is made of the cues up to the end of the stream. -/
theorem Document.read_eq_ok_iff_yieldsFirst {d : Document}
    (hok : (Session.ofSource source limits).readHeader = .ok header s) :
    read source limits = .ok d ↔ d.header = header ∧ s.YieldsFirst d.cues none := by
  constructor
  · intro hread
    obtain ⟨cues, e?, h⟩ := Session.YieldsFirst.total s
    rw [read_of_yieldsFirst hok h] at hread
    cases e? with
    | none =>
      cases hread
      exact ⟨rfl, h⟩
    | some e => cases hread
  · rintro ⟨rfl, h⟩
    exact read_of_yieldsFirst hok h

/-- The document is refused for the first error. -/
theorem Document.read_eq_error_iff_yieldsFirst {e : Error}
    (hok : (Session.ofSource source limits).readHeader = .ok header s) :
    read source limits = .error e ↔ ∃ cues, s.YieldsFirst cues (some e) := by
  constructor
  · intro hread
    obtain ⟨cues, e?, h⟩ := Session.YieldsFirst.total s
    rw [read_of_yieldsFirst hok h] at hread
    cases e? with
    | none => cases hread
    | some e =>
      cases hread
      exact ⟨cues, h⟩
  · rintro ⟨cues, h⟩
    exact read_of_yieldsFirst hok h

/-- After a header that is read, asking for cues for ever gives a stream of results. Calls in any
order hand on just these results, each once and in order, whatever the records hold that are to be
filled and wherever walks are begun; a walk that is finished reads nothing. There is a document
exactly if the results are cues up to the end of the stream, and then it is made of these; otherwise
the first error among them refuses it, as an error in the header does. -/
theorem Session.run_eq_results (source : σ) (limits : Limits) :
    match readHeader (ofSource source limits) with
    | .error e _ => Document.read source limits = .error e
    | .ok header s =>
      (∀ calls, Cues.run calls { session := s } =
        ((Cursor.run s.results calls {}).1.map fun answer ↦ (answer.1, (asked^[answer.2] s).line),
          (Cursor.run s.results calls {}).2.walk s)) ∧
      (∀ d, Document.read source limits = .ok d ↔
        d.header = header ∧ ∀ k ≤ d.cues.length, s.results k = .ok d.cues[k]?) ∧
      ∀ e, Document.read source limits = .error e ↔ ∃ cues : List Cue,
        (∀ k < cues.length, s.results k = .ok cues[k]?) ∧ s.results cues.length = .error e := by
  cases hok : readHeader (ofSource source limits) with
  | error e s =>
    dsimp only
    rw [Document.read, hok]
  | ok header s =>
    obtain ⟨t, -, rfl⟩ := exists_of_readHeader_ofSource hok
    refine ⟨fun calls ↦ Cursor.run_walk rfl calls {}, fun d ↦ ?_, fun e ↦ ?_⟩
    · rw [Document.read_eq_ok_iff_yieldsFirst hok, YieldsFirst.none_iff]
    · rw [Document.read_eq_error_iff_yieldsFirst hok]
      exact exists_congr fun cues ↦ YieldsFirst.some_iff

end WebVTT
