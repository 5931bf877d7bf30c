import WebVTT.Proofs.LineStream.Reading

/-!
# Asking for all lines

Asking for lines until there is none, and going on after every error, takes a stream piece by piece
(`LineStream.Drains`). Every call takes one piece of a line and yields what that piece is read as, with
the number of the line, so it is known beforehand which calls there are: `Line.calls` has them line by
line, and no byte of the stream is in two of them or in none.
-/

namespace WebVTT

/-- One call for a line. -/
structure LineCall where
  /-- The bytes of the stream that the call takes. -/
  taken : List UInt8
  /-- What the call yields. -/
  result : Except Error String

namespace LineCall

/-- The call that takes a piece of line `k`. -/
def ofPiece (limits : Limits) (k : Nat) (p : Line.Piece) : LineCall where
  taken := p.bytes
  result := p.read.mapError fun f ↦ .violation (f.violation limits k)

/-- Whether a call takes the last piece of a line: it does unless the line is too long. -/
def isLast (c : LineCall) : Bool :=
  match c.result with
  | .error (.violation (.lineTooLong ..)) => false
  | _ => true

/-- The last piece of a line counts as a line. -/
theorem countP_isLast_map_ofPiece (limits : Limits) (k : Nat) (ps : List Line.Piece) :
    (ps.map (ofPiece limits k)).countP isLast = counted (ps.map Line.Piece.read) := by
  induction ps with
  | nil => rfl
  | cons p ps ih =>
    have hlast : (if isLast (ofPiece limits k p) then 1 else 0) = p.read.counted := by
      obtain ⟨_, f | text⟩ := p
      · cases f <;> rfl
      · rfl
    rw [List.map_cons, List.countP_cons, ih, hlast, Nat.add_comm]
    rfl

end LineCall

namespace Line

/-- The calls that take these lines, the first of which is line `k`. -/
def calls (limits : Limits) (k : Nat) (ls : List Line) : List LineCall :=
  (ls.zipIdx k).flatMap fun (l, k) ↦
    (l.pieces limits.maxLineLength.toNat).map (.ofPiece limits k)

theorem calls_cons (limits : Limits) (k : Nat) (l : Line) (ls : List Line) :
    calls limits k (l :: ls) =
      (l.pieces limits.maxLineLength.toNat).map (.ofPiece limits k) ++
        calls limits (k + 1) ls := by
  rw [calls, List.zipIdx_cons, List.flatMap_cons]
  rfl

/-- The calls take the lines as a whole. -/
theorem flatMap_taken_calls (limits : Limits) (k : Nat) (ls : List Line) :
    (calls limits k ls).flatMap LineCall.taken = ls.flatMap bytes := by
  induction ls generalizing k with
  | nil => rfl
  | cons l ls ih =>
    rw [calls_cons, List.flatMap_append, ih, List.flatMap_cons, List.flatMap_map,
      ← flatMap_bytes_pieces limits.maxLineLength.toNat l.content l.ending]
    rfl

theorem countP_isLast_calls (limits : Limits) (k : Nat) (ls : List Line) :
    (calls limits k ls).countP LineCall.isLast =
      counted (ls.flatMap (reads limits.maxLineLength.toNat)) := by
  induction ls generalizing k with
  | nil => rfl
  | cons l ls ih =>
    rw [calls_cons, List.countP_append, ih, LineCall.countP_isLast_map_ofPiece, map_read_pieces,
      List.flatMap_cons, counted_append]

end Line

namespace LineStream

variable {σ : Type} [Source σ] {s t u : LineStream σ} {limits : Limits} {line : Nat}
  {bytes rest : List UInt8} {calls calls' : List LineCall} {result result' : Except Error String}

/-! ## Calls -/

/-- How a call comes out that yields something and leaves the stream at `t`. -/
def yielded (result : Except Error String) (t : LineStream σ) :
    EStateM.Result Error (LineStream σ) (Option String) :=
  match result with
  | .ok text => .ok (some text) t
  | .error e => .error e t

omit [Source σ] in
theorem yielded_inj (h : yielded result s = yielded result' t) : result = result' ∧ s = t := by
  cases result <;> cases result' <;> cases h <;> exact ⟨rfl, rfl⟩

omit [Source σ] in
theorem yielded_ne_none : yielded result s ≠ .ok none t := by
  cases result <;> nofun

/-- Between the one stream and the other, these bytes have been taken of what is to come, and no
others. -/
def Consumes (s : LineStream σ) (bytes : List UInt8) (t : LineStream σ) : Prop :=
  ∃ rest, s.At s.limits s.line (bytes ++ rest) ∧ t.At t.limits t.line rest

/-- Asking for lines, whether they are refused or not, makes these calls and leads to `t`. -/
inductive Asks : LineStream σ → List LineCall → LineStream σ → Prop where
  | nil (s : LineStream σ) : Asks s [] s
  | call {s t u : LineStream σ} {taken : List UInt8} {result : Except Error String}
      {calls : List LineCall} : readLine s = yielded result t → s.Consumes taken t →
      Asks t calls u → Asks s (⟨taken, result⟩ :: calls) u

/-- Asking for lines until there is none makes these calls, and leaves the stream at `t`. -/
def Drains (s : LineStream σ) (calls : List LineCall) (t : LineStream σ) : Prop :=
  ∃ u, Asks s calls u ∧ readLine u = .ok none t

theorem Asks.append (h : Asks s calls t) (h' : Asks t calls' u) : Asks s (calls ++ calls') u := by
  induction h with
  | nil => exact h'
  | call hread htaken _ ih => exact .call hread htaken (ih h')

/-! ## One outcome only -/

theorem At.unique {limits' : Limits} {line' : Nat} {bytes' : List UInt8}
    (h : s.At limits line bytes) (h' : s.At limits' line' bytes') : bytes = bytes' := by
  obtain ⟨-, -, rest, rfl, hrest⟩ := h
  obtain ⟨-, -, rest', rfl, hrest'⟩ := h'
  rw [hrest.unique hrest']

theorem Consumes.unique {taken taken' : List UInt8} (h : s.Consumes taken t)
    (h' : s.Consumes taken' t) : taken = taken' := by
  obtain ⟨rest, hs, ht⟩ := h
  obtain ⟨rest', hs', ht'⟩ := h'
  obtain rfl := ht.unique ht'
  exact List.append_cancel_right (hs.unique hs')

/-- Draining makes no other calls, and leads to no other place. -/
theorem Drains.unique {t' : LineStream σ} (h : Drains s calls t) (h' : Drains s calls' t') :
    calls = calls' ∧ t = t' := by
  obtain ⟨u, hasks, hend⟩ := h
  obtain ⟨u', hasks', hend'⟩ := h'
  induction hasks generalizing calls' with
  | nil s =>
    cases hasks' with
    | nil =>
      cases hend.symm.trans hend'
      exact ⟨rfl, rfl⟩
    | call hread' => exact absurd (hread'.symm.trans hend) yielded_ne_none
  | call hread htaken _ ih =>
    cases hasks' with
    | nil => exact absurd (hread.symm.trans hend') yielded_ne_none
    | call hread' htaken' hmore' =>
      obtain ⟨rfl, rfl⟩ := yielded_inj (hread.symm.trans hread')
      obtain ⟨rfl, rfl⟩ := ih hend hmore'
      exact ⟨by rw [htaken.unique htaken'], rfl⟩

/-! ## Line by line -/

/-- A read of the next line is a call. -/
theorem Asks.of_result {r : LineRead} {taken : List UInt8} (hs : s.At limits line (taken ++ rest))
    (hread : readLine s = Reading.result (r.outcome limits line) t)
    (ht : t.At limits (line + r.counted) rest) (hmore : Asks t calls u) :
    Asks s (.ofPiece limits (line + 1) ⟨taken, r⟩ :: calls) u := by
  have htaken : s.Consumes taken t := by
    refine ⟨rest, ?_, ?_⟩
    · rwa [hs.limits_eq, hs.line_eq]
    · rwa [ht.limits_eq, ht.line_eq]
  refine .call (hread.trans ?_) htaken hmore
  cases r <;> rfl

/-- A line is taken piece by piece, and counts if it has a last piece. -/
theorem At.exists_asks {content : List UInt8} {ending : Option Ending}
    (hcontent : Line.Unbroken content) (hending : ∀ e ∈ ending, e.OverBefore rest)
    (hend : ending = none → rest = [])
    (h : s.At limits line (Line.bytes ⟨content, ending⟩ ++ rest)) :
    ∃ t, Asks s ((Line.pieces limits.maxLineLength.toNat ⟨content, ending⟩).map
        (.ofPiece limits (line + 1))) t ∧
      t.At limits (line + counted (Line.reads limits.maxLineLength.toNat ⟨content, ending⟩))
        rest := by
  induction content using Line.pieces_induction limits.maxLineLength.toNat generalizing s with
  | within content hlength =>
    by_cases hl : ending ≠ none ∨ content ≠ []
    · obtain ⟨t, htake, ht⟩ := h.takeLine_of_le hcontent hending hend hl hlength
      obtain ⟨u, hread, hu⟩ := ht.readLine_of_take htake
      rw [Line.pieces_of_le hlength hl, Line.reads_of_le hlength hl]
      exact ⟨u, .of_result h hread hu (.nil u), hu⟩
    · obtain ⟨rfl, rfl⟩ : ending = none ∧ content = [] := by simpa using hl
      rw [Line.pieces_empty, ← Line.map_read_pieces, Line.pieces_empty]
      exact ⟨s, .nil s, h⟩
  | beyond content hlength ih =>
    rw [Line.bytes, List.append_assoc] at h
    obtain ⟨t, hread, ht⟩ := h.readLine_of_lt hcontent hlength
    have ht' : t.At limits line
        (Line.bytes ⟨content.drop (limits.maxLineLength.toNat + 1), ending⟩ ++ rest) := by
      rwa [Line.bytes, List.append_assoc]
    obtain ⟨u, hasks, hu⟩ := ih (hcontent.drop _) ht'
    rw [Line.pieces_of_lt hlength, Line.reads_of_lt hlength, counted_cons_error, LineFault.counted,
      Nat.zero_add]
    refine ⟨u, .of_result ?_ hread ht hasks, hu⟩
    rwa [← List.append_assoc, List.take_append_drop]

/-- Draining takes a stream line by line. -/
theorem At.exists_drains (h : s.At limits line bytes) :
    ∃ t, Drains s (Line.calls limits (line + 1) (Line.split bytes)) t ∧
      t.At limits (line + counted (reads limits.maxLineLength.toNat bytes)) [] := by
  induction bytes using Line.split_induction generalizing s line with
  | nil =>
    obtain ⟨t, hread, ht⟩ := h.readLine_nil
    exact ⟨t, ⟨s, .nil s, hread⟩, ht⟩
  | unended content hcontent hne =>
    have h : s.At limits line (Line.bytes ⟨content, none⟩ ++ []) := by simpa [Line.bytes] using h
    have hnone : ∀ e' ∈ (none : Option Ending), e'.OverBefore [] := by
      rintro e' ⟨⟩
    obtain ⟨t, hasks, ht⟩ := At.exists_asks hcontent hnone (fun _ ↦ rfl) h
    obtain ⟨u, hread, hu⟩ := ht.readLine_nil
    rw [reads_of_unbroken hcontent, Line.split_of_unbroken hcontent hne, Line.calls_cons]
    exact ⟨u, ⟨t, hasks.append (.nil t), hread⟩, hu⟩
  | ended content e rest hcontent he ih =>
    rw [← List.append_assoc] at h
    have he' : ∀ e' ∈ some e, e'.OverBefore rest := by
      rintro _ ⟨⟩
      exact he
    obtain ⟨t, hasks, ht⟩ := At.exists_asks hcontent he' (absurd · (Option.some_ne_none e)) h
    have hline : counted (Line.reads limits.maxLineLength.toNat ⟨content, some e⟩) = 1 :=
      Line.counted_reads (Option.some_ne_none e)
    rw [hline] at ht
    obtain ⟨u, ⟨v, hmore, hread⟩, hu⟩ := ih ht
    rw [reads_append hcontent he, counted_append, hline, ← Nat.add_assoc,
      Line.split_append hcontent he, Line.calls_cons]
    exact ⟨u, ⟨v, hasks.append hmore, hread⟩, hu⟩

/-- Asking a finite stream for all lines comes to an end, after just the calls that take its lines
piece by piece. The lines that have then been counted are the last pieces, and every byte of the
stream has been taken once, as part of its own line. -/
theorem drains_iff {source : σ} (hsource : Source.Delivers source bytes) (limits : Limits) :
    ∃ t : LineStream σ,
      (∀ calls u, Drains { source, limits } calls u ↔
        calls = Line.calls limits 1 (Line.split bytes) ∧ u = t) ∧
      t.line = (Line.calls limits 1 (Line.split bytes)).countP LineCall.isLast ∧
      (Line.calls limits 1 (Line.split bytes)).flatMap LineCall.taken = bytes ∧
      ∀ l ∈ Line.split bytes,
        (l.pieces limits.maxLineLength.toNat).flatMap Line.Piece.bytes = l.bytes := by
  have hstart : At { source, limits } limits 0 bytes := at_ofSource hsource
  obtain ⟨t, hdrains, ht⟩ := hstart.exists_drains
  refine ⟨t, fun calls u ↦ ⟨fun h ↦ h.unique hdrains, ?_⟩, ?_, ?_, ?_⟩
  · rintro ⟨rfl, rfl⟩
    exact hdrains
  · rw [ht.line_eq, Line.countP_isLast_calls, Nat.zero_add]
    rfl
  · rw [Line.flatMap_taken_calls, Line.flatMap_bytes_split]
  · exact fun l _ ↦ Line.flatMap_bytes_pieces _ l.content l.ending

/-- Of lines of at most one byte: `abc` is given up once and its rest is a line, a byte that is no
text counts, and `de` at the end is given up and leaves nothing. -/
theorem drains_sample :
    ∃ t, Drains
        { source := Script.mk ([97, 98, 99, 13, 10, 255, 10, 100, 101].map .byte)
          limits := { maxLineLength := 1 } }
      [⟨[97, 98], .error (.violation (.lineTooLong 1 1))⟩, ⟨[99, 13, 10], .ok "c"⟩,
        ⟨[255, 10], .error (.violation (.invalidUtf8 2))⟩,
        ⟨[100, 101], .error (.violation (.lineTooLong 3 1))⟩] t ∧
      t.line = 2 := by
  obtain ⟨t, hdrains, hline, -⟩ := drains_iff
    (Script.delivers [97, 98, 99, 13, 10, 255, 10, 100, 101]) { maxLineLength := 1 }
  refine ⟨t, (hdrains _ _).mpr ⟨?_, rfl⟩, hline.trans ?_⟩
  · rfl
  · decide +kernel

end LineStream

end WebVTT
