import WebVTT.Proofs.Session.Drain

/-!
# An empty line ends all trouble

Whatever is wrong with the lines up to an empty one, it has no effect on what comes after: draining a
stream yields what draining it up to an empty line does, and then what draining the rest does on its
own, with line numbers that count the lines before (`yields_append`).

This is two facts about the grammar. No rule of it takes a line beyond an empty one, so every attempt
at a cue before the last empty line stays what it is when lines are added (`CueRead.append`); and
every rule counts lines from where it starts, so it can start anywhere (`CueRead.raise`).
-/

namespace WebVTT

/-- The violation so many lines further down. -/
def Violation.raise (k : Nat) : Violation → Violation
  | unexpectedEnd line => unexpectedEnd (line + k)
  | invalidSignatureLine line => invalidSignatureLine (line + k)
  | missingHeaderSeparator line => missingHeaderSeparator (line + k)
  | missingTimings line => missingTimings (line + k)
  | invalidTimings line reason => invalidTimings (line + k) reason
  | emptyPayload line => emptyPayload (line + k)
  | invalidUtf8 line => invalidUtf8 (line + k)
  | lineTooLong line limit => lineTooLong (line + k) limit
  | tooManyPayloadLines line limit => tooManyPayloadLines (line + k) limit
  | v => v

/-- The error so many lines further down. -/
def Error.raise (k : Nat) : Error → Error
  | .source failure => .source failure
  | .violation v => .violation (v.raise k)

/-! ## Starting anywhere -/

section Raise

variable {limits : Limits} {line line' : Nat} {rs rs' : List LineRead}

theorem LineFault.raise_violation (f : LineFault) (limits : Limits) (line k : Nat) :
    (f.violation limits line).raise k = f.violation limits (line + k) := by
  cases f <;> rfl

/-- An attempt counts lines from where it starts. -/
theorem CueRead.raise {out : Except Violation (Option Cue)}
    (h : CueRead limits line rs out line' rs') (k : Nat) :
    CueRead limits (line + k) rs (out.mapError (Violation.raise k)) (line' + k) rs' := by
  induction h with
  | ended line => exact .ended (line + k)
  | blank _ ih =>
    rw [Nat.add_right_comm] at ih
    exact .blank ih
  | @unreadable line ls f rs hbegun =>
    have hread : CueRead limits (line + k) (ls.map .ok ++ .error f :: rs) _ _ rs :=
      .unreadable hbegun
    simpa [Except.mapError, LineFault.raise_violation, Nat.add_right_comm] using hread
  | @unfinished line identifier hne harrow =>
    have hread : CueRead limits (line + k) _ _ _ _ := .unfinished hne harrow
    simpa [Except.mapError, Violation.raise, Nat.add_right_comm] using hread
  | @untimed line identifier text rs hne harrow harrow' =>
    have hread : CueRead limits (line + k) _ _ _ rs := .untimed hne harrow harrow'
    simpa [Except.mapError, Violation.raise, Nat.add_right_comm] using hread
  | @mistimed line ls identifier text reason rs hopening hparse =>
    have hread : CueRead limits (line + k) _ _ _ rs := .mistimed hopening hparse
    simpa [Except.mapError, Violation.raise, Nat.add_right_comm] using hread
  | @overfull line ls payload identifier timings rs hopens hpayload hlength =>
    have hread : CueRead limits (line + k) _ _ _ rs := .overfull hopens hpayload hlength
    simpa [Except.mapError, Violation.raise, Nat.add_right_comm] using hread
  | @textless line closing ls identifier timings rs rs' hopens hclosing =>
    have hread : CueRead limits (line + k) _ _ _ rs' := .textless hopens hclosing
    simpa [Except.mapError, Violation.raise, Nat.add_right_comm] using hread
  | @cue line closing ls payload identifier timings rs rs' hopens hpayload hne hlength hclosing =>
    have hread : CueRead limits (line + k) _ _ _ rs' := .cue hopens hpayload hne hlength hclosing
    simpa [Except.mapError, Nat.add_right_comm] using hread

/-- Draining counts lines from where it starts. -/
theorem CuesRead.raise {outs : List (Except Violation Cue)} (h : CuesRead limits line rs outs)
    (k : Nat) :
    CuesRead limits (line + k) rs (outs.map (Except.mapError (Violation.raise k))) := by
  induction h with
  | ended h => exact .ended (h.raise k)
  | cue h _ ih => exact .cue (h.raise k) ih
  | refused h _ ih => exact .refused (h.raise k) ih

end Raise

/-! ## Adding lines -/

/-- Lines of text do not end with an empty one. -/
theorem Payload.not_readsClosed {texts : List String} (h : Payload texts) (hne : texts ≠ []) :
    ¬ReadsClosed (texts.map .ok) := by
  intro hclosed
  have hlast : (texts.map Except.ok).getLast? = some (.ok (texts.getLast hne) : LineRead) := by
    rw [List.getLast?_map, List.getLast?_eq_some_getLast hne]
    rfl
  exact h _ (List.getLast_mem hne) (Except.ok.inj (hclosed _ hlast))

/-- Lines of text before the end of closed reads are followed by something. -/
theorem Payload.ne_nil_of_readsClosed {texts : List String} {rs : List LineRead}
    (h : Payload texts) (hne : texts ≠ []) (hclosed : ReadsClosed (texts.map .ok ++ rs)) :
    rs ≠ [] := by
  rintro rfl
  rw [List.append_nil] at hclosed
  exact h.not_readsClosed hne hclosed

theorem Closing.counted_eq {rs rs' : List LineRead} {closing : Nat} (h : Closing rs closing rs') :
    counted rs = closing + counted rs' := by
  cases h <;> simp

/-- A block that is over before the end of a stream is over there in a longer one. -/
theorem Closing.append {rs rs' : List LineRead} {closing : Nat} (h : Closing rs closing rs')
    (hne : rs ≠ []) (more : List LineRead) : Closing (rs ++ more) closing (rs' ++ more) := by
  cases h with
  | ended => exact absurd rfl hne
  | blank => exact .blank

theorem Closing.readsClosed {rs rs' : List LineRead} {closing : Nat} (h : Closing rs closing rs')
    (hclosed : ReadsClosed rs) : ReadsClosed rs' := by
  cases h with
  | ended => exact hclosed
  | blank => exact @ReadsClosed.of_append [.ok ""] _ hclosed

section Append

variable {limits : Limits} {line line' : Nat} {rs rs' : List LineRead}

/-- An attempt that finds something never looks beyond an empty line at the end, and leaves the
number of the line after it as it is. -/
theorem CueRead.append {out : Except Violation (Option Cue)}
    (h : CueRead limits line rs out line' rs') (hout : out ≠ .ok none) (hclosed : ReadsClosed rs)
    (more : List LineRead) :
    CueRead limits line (rs ++ more) out line' (rs' ++ more) ∧ ReadsClosed rs' ∧
      line' + counted rs' = line + counted rs := by
  induction h with
  | ended => exact absurd rfl hout
  | blank _ ih =>
    obtain ⟨hread, hleft, hline⟩ := ih hout (@ReadsClosed.of_append [.ok ""] _ hclosed)
    refine ⟨.blank hread, hleft, ?_⟩
    rw [counted_cons_ok, hline, Nat.add_assoc]
  | @unreadable line ls f rs hbegun =>
    refine ⟨?_, @ReadsClosed.of_append [.error f] _ hclosed.of_append, ?_⟩
    · rw [List.append_assoc]
      exact .unreadable hbegun
    · simp only [counted_append, counted_map_ok, counted_cons_error]
      omega
  | @unfinished line identifier hne =>
    exact absurd (Except.ok.inj (hclosed (.ok identifier) rfl)) hne
  | @untimed line identifier text rs hne harrow harrow' =>
    refine ⟨.untimed hne harrow harrow',
      @ReadsClosed.of_append [.ok identifier, .ok text] _ hclosed, ?_⟩
    simp only [counted_cons_ok]
    omega
  | mistimed hopening hparse =>
    refine ⟨?_, hclosed.of_append, ?_⟩
    · rw [List.append_assoc]
      exact .mistimed hopening hparse
    · simp only [counted_append, counted_map_ok]
      omega
  | overfull hopens hpayload hlength =>
    refine ⟨?_, hclosed.of_append, ?_⟩
    · rw [List.append_assoc]
      exact .overfull hopens hpayload hlength
    · simp only [counted_append, counted_map_ok, List.length_append]
      omega
  | textless hopens hclosing =>
    have hne := hopens.payload.ne_nil_of_readsClosed (List.ne_nil_of_length_pos hopens.length_pos)
      hclosed
    refine ⟨?_, hclosing.readsClosed hclosed.of_append, ?_⟩
    · rw [List.append_assoc]
      exact .textless hopens (hclosing.append hne more)
    · simp only [counted_append, counted_map_ok, hclosing.counted_eq]
      omega
  | cue hopens hpayload hnonempty hlength hclosing =>
    have hne := (hopens.payload.append hpayload).ne_nil_of_readsClosed (by simp [hnonempty]) hclosed
    refine ⟨?_, hclosing.readsClosed hclosed.of_append, ?_⟩
    · rw [List.append_assoc]
      exact .cue hopens hpayload hnonempty hlength (hclosing.append hne more)
    · simp only [counted_append, counted_map_ok, List.length_append, hclosing.counted_eq]
      omega

/-- Where nothing but empty lines is found, what comes after is found as if nothing had come
before. -/
theorem CuesRead.append_of_none {more : List LineRead} {outs : List (Except Violation Cue)}
    (h : CueRead limits line rs (.ok none) line' rs')
    (hmore : CuesRead limits (line + counted rs) more outs) :
    CuesRead limits line (rs ++ more) outs := by
  generalize hout : (.ok none : Except Violation (Option Cue)) = out at h
  induction h with
  | ended => exact hmore
  | blank _ ih =>
    rw [counted_cons_ok, ← Nat.add_assoc] at hmore
    exact .blank (ih hmore hout)
  | _ => cases hout

/-- Draining goes on beyond an empty line as if nothing had come before. -/
theorem CuesRead.append {more : List LineRead} {outs outs' : List (Except Violation Cue)}
    (h : CuesRead limits line rs outs) (hclosed : ReadsClosed rs)
    (hmore : CuesRead limits (line + counted rs) more outs') :
    CuesRead limits line (rs ++ more) (outs ++ outs') := by
  induction h with
  | ended hend => exact .append_of_none hend hmore
  | cue hcue _ ih =>
    obtain ⟨hread, hleft, hline⟩ := hcue.append (by simp) hclosed more
    exact .cue hread (ih hleft (hline ▸ hmore))
  | refused hcue _ ih =>
    obtain ⟨hread, hleft, hline⟩ := hcue.append (by simp) hclosed more
    exact .refused hread (ih hleft (hline ▸ hmore))

end Append

/-! ## Streams -/

/-- A header whose second line is empty and ends with a line feed is read alike whatever follows. -/
theorem HeaderRead.append {limits : Limits} {bytes : List UInt8} {l : Line} {description : String}
    {line : Nat} {rs : List LineRead} (hsplit : Line.split bytes = [l, ⟨[], some .lf⟩])
    (h : HeaderRead limits (reads limits.maxLineLength.toNat bytes) (.ok description) line rs)
    (more : List UInt8) :
    HeaderRead limits (reads limits.maxLineLength.toNat (bytes ++ more)) (.ok description) 2
      (reads limits.maxLineLength.toNat more) := by
  have hblank : Line.reads limits.maxLineLength.toNat ⟨[], some .lf⟩ = [.ok ""] :=
    Line.reads_of_le (Nat.zero_le _) (.inl (Option.some_ne_none _))
  have hreads : reads limits.maxLineLength.toNat bytes =
      l.reads limits.maxLineLength.toNat ++ [.ok ""] := by
    simp [reads, hsplit, hblank]
  have hl : l.ending ≠ none ∨ l.content ≠ [] :=
    Line.ending_ne_none_or_content_ne_nil (hsplit ▸ List.mem_cons_self)
  have hlast : (Line.split bytes).getLast? = some ⟨[], some .lf⟩ := by rw [hsplit]; rfl
  rw [reads_append_of_lf hlast]
  by_cases hlength : l.content.length ≤ limits.maxLineLength.toNat
  · rw [Line.reads_of_le hlength hl] at hreads
    rw [hreads] at h ⊢
    cases hfirst : LineRead.ofBytes l.content with
    | error f =>
      rw [hfirst] at h
      cases h
    | ok text =>
      rw [hfirst] at h
      cases h with
      | complete htext => exact .complete htext
  · rw [hreads, Line.reads_of_lt (Nat.lt_of_not_le hlength)] at h
    cases h

namespace Session

/-- What reading the header of a source and draining the session then yields. -/
def Yields {σ : Type} [Source σ] (source : σ) (limits : Limits) (header : Header)
    (results : List (Except Error Cue)) : Prop :=
  ∃ s, readHeader (ofSource source limits) = .ok header s ∧ s.Drains results

/-- A session yields nothing else. -/
theorem Yields.unique {σ : Type} [Source σ] {source : σ} {limits : Limits}
    {header header' : Header} {results results' : List (Except Error Cue)}
    (h : Yields source limits header results) (h' : Yields source limits header' results') :
    header = header' ∧ results = results' := by
  obtain ⟨s, hread, hdrains⟩ := h
  obtain ⟨s', hread', hdrains'⟩ := h'
  rw [hread] at hread'
  cases hread'
  exact ⟨rfl, hdrains.unique hdrains'⟩

/-- A session yields what the grammar has. -/
theorem yields_of_cuesRead {σ : Type} [Source σ] {source : σ} {limits : Limits} {hasBom : Bool}
    {rest : List UInt8} {description : String} {line : Nat} {rs : List LineRead}
    {outs : List (Except Violation Cue)}
    (hsource : Source.Delivers source (preamble hasBom ++ rest))
    (hheader : HeaderRead limits (reads limits.maxLineLength.toNat rest) (.ok description) line rs)
    (hcues : CuesRead limits line rs outs) :
    Yields source limits ⟨hasBom, description⟩ (outs.map (Except.mapError .violation)) := by
  obtain ⟨s, hread, hphase, hs⟩ := readHeader_of_headerRead hsource hheader
  exact ⟨s, hread, hcues.drains hphase hs⟩

section Yields

variable {η γ β ω : Type} [Source η] [Source γ] [Source β] [Source ω]
variable {h : η} {g : γ} {b : β} {gb : ω} {H G B : List UInt8} {limits : Limits}

/-- After a header with its empty line, complete lines of which the last is empty have no effect on
what comes after them but that they are counted: draining yields what it does for these lines, and
then what it does where they are left out, with the lines of its errors raised by their number. -/
theorem yields_append {header : Header} {s : Session η} (hh : Source.Delivers h H)
    (hheader : readHeader (ofSource h limits) = .ok header s)
    (hseparator : ∃ l, Line.split H = [l, ⟨[], some .lf⟩])
    (hlast : (Line.split G).getLast? = some ⟨[], some .lf⟩)
    (hg : Source.Delivers g (H ++ G)) (hb : Source.Delivers b (H ++ B))
    (hgb : Source.Delivers gb (H ++ G ++ B)) :
    ∃ resultsG resultsB, Yields g limits header resultsG ∧ Yields b limits header resultsB ∧
      Yields gb limits header (resultsG ++
        resultsB.map (Except.mapError (Error.raise (Line.split G).length))) := by
  obtain ⟨-, lines, line, rs, rfl, haccepted, -⟩ := headerRead_of_readHeader hh hheader
  obtain ⟨l, hsplit⟩ := hseparator
  obtain ⟨l', hlines⟩ := Line.exists_split_eq_cons (unbroken_preamble _) hsplit (by simp)
  have hcomplete := haccepted.append hlines
  obtain ⟨outsG, houtsG⟩ := CuesRead.total limits 2 (reads limits.maxLineLength.toNat G)
  obtain ⟨outsB, houtsB⟩ := CuesRead.total limits 2 (reads limits.maxLineLength.toNat B)
  have hboth : CuesRead limits 2 (reads limits.maxLineLength.toNat (G ++ B))
      (outsG ++ outsB.map (Except.mapError (Violation.raise (Line.split G).length))) := by
    rw [reads_append_of_lf hlast]
    refine houtsG.append (readsClosed_reads hlast) ?_
    rw [counted_reads hlast]
    exact houtsB.raise (Line.split G).length
  rw [List.append_assoc] at hg hb hgb
  rw [List.append_assoc] at hgb
  refine ⟨_, _, yields_of_cuesRead hg (hcomplete G) houtsG,
    yields_of_cuesRead hb (hcomplete B) houtsB, ?_⟩
  have hyields := yields_of_cuesRead hgb (hcomplete (G ++ B)) hboth
  have hraise : ∀ out : Except Violation Cue,
      (out.mapError (Violation.raise (Line.split G).length)).mapError Error.violation =
        (out.mapError Error.violation).mapError (Error.raise (Line.split G).length) := by
    intro out
    cases out <;> rfl
  simpa [Function.comp_def, hraise] using hyields

/-- A line that is no text, an empty line, and a cue. -/
theorem yields_append_sample :
    ∃ resultsG resultsB,
      Yields (Script.mk ((Text.encode "WEBVTT\n\n" ++ [0xFF, 10, 10]).map .byte)) {} {} resultsG ∧
      Yields (Script.mk ((Text.encode "WEBVTT\n\n" ++ Text.encode "0:1 --> 0:2\nC").map .byte)) {} {}
        resultsB ∧
      Yields (Script.mk ((Text.encode "WEBVTT\n\n" ++ [0xFF, 10, 10] ++
        Text.encode "0:1 --> 0:2\nC").map .byte)) {} {}
        (resultsG ++ resultsB.map (Except.mapError (Error.raise 2))) := by
  have hh := Slice.delivers_ofString "WEBVTT\n\n"
  have hreads : reads 65536 (Text.encode "\n\n") = [.ok "", .ok ""] := by decide +kernel
  have haccepted : HeaderRead {} (reads 65536 (Text.encode "\n\n")) (.ok "") 2 [] :=
    hreads ▸ .complete ⟨by simp, rfl⟩
  have hbytes : Text.encode "WEBVTT\n\n" = preamble false ++ Text.encode "\n\n" := by
    decide +kernel
  obtain ⟨s, hheader, -⟩ := readHeader_of_headerRead (hbytes ▸ hh) haccepted
  have hseparator : ∃ l, Line.split (Text.encode "WEBVTT\n\n") = [l, ⟨[], some .lf⟩] :=
    ⟨⟨Text.encode "WEBVTT", some .lf⟩, by decide +kernel⟩
  exact yields_append hh hheader hseparator (by decide +kernel) (Script.delivers _)
    (Script.delivers _) (Script.delivers _)

end Yields

end Session

end WebVTT
