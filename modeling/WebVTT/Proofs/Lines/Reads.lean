import WebVTT.Proofs.Lines.Basic
import WebVTT.Proofs.Text.Encoding

/-!
# What reading makes of lines

Lines are read under a limit on their length. A line that keeps to it is read once, as a text or as
bytes that are none. A longer one is given up where it exceeds the limit, as often as it does, and
what is left then is read as if it were the whole line; only where the stream ends is nothing left to
read (`Line.reads`). The bytes that each read takes are all of the line (`Line.flatMap_bytes_pieces`).

Where all lines keep to the limit there is one read for each (`reads_eq_map`).
-/

namespace WebVTT

/-- Why a line cannot be read. -/
inductive LineFault where
  /-- The line is not UTF-8. -/
  | undecodable
  /-- The line is longer than allowed. -/
  | overlong
deriving DecidableEq, Repr

namespace LineFault

/-- What is reported of a fault on this line. -/
def violation (limits : Limits) (line : Nat) : LineFault → Violation
  | undecodable => .invalidUtf8 line
  | overlong => .lineTooLong line limits.maxLineLength

/-- How many lines a fault completes: an overlong line goes on. -/
def counted : LineFault → Nat
  | undecodable => 1
  | overlong => 0

end LineFault

/-- What a read makes of a line. -/
abbrev LineRead := Except LineFault String

namespace LineRead

/-- How many lines a read completes. -/
def counted : LineRead → Nat
  | .ok _ => 1
  | .error f => f.counted

/-- What is handed on of a read after so many lines. -/
def outcome (limits : Limits) (line : Nat) : LineRead → Except Violation (Option String)
  | .ok text => .ok (some text)
  | .error f => .error (f.violation limits (line + 1))

/-- The read of a line of these bytes that is not too long. -/
def ofBytes (bytes : List UInt8) : LineRead :=
  match Text.decode bytes with
  | some text => .ok text
  | none => .error .undecodable

theorem ofBytes_eq_ok_iff {bytes : List UInt8} {text : String} :
    ofBytes bytes = .ok text ↔ Text.decode bytes = some text := by
  unfold ofBytes
  split
  · next h => simp [h]
  · next h => simp [h]

end LineRead

namespace Line

/-- All reads of a line under a limit. -/
def reads (limit : Nat) (l : Line) : List LineRead :=
  List.replicate (l.content.length / (limit + 1)) (.error .overlong) ++
    if l.ending = none ∧ l.content.length % (limit + 1) = 0 then []
    else [.ofBytes (l.content.drop (l.content.length / (limit + 1) * (limit + 1)))]

/-- Bytes that are taken of a line at once, and what is read of them. -/
structure Piece where
  /-- The bytes, with those of the ending if it is taken. -/
  bytes : List UInt8
  /-- What is read of the bytes. -/
  read : LineRead

/-- The pieces in which a line is read under a limit. Where the stream ends, what is left of the line
is no piece if it is empty. -/
def pieces (limit : Nat) (l : Line) : List Piece :=
  (List.range (l.content.length / (limit + 1))).map (fun j ↦
      ⟨(l.content.drop (j * (limit + 1))).take (limit + 1), .error .overlong⟩) ++
    if l.ending = none ∧ l.content.length % (limit + 1) = 0 then []
    else
      let left := l.content.drop (l.content.length / (limit + 1) * (limit + 1))
      [⟨bytes ⟨left, l.ending⟩, .ofBytes left⟩]

variable {limit : Nat} {l : Line}

/-- Each piece is read once. -/
theorem map_read_pieces (limit : Nat) (l : Line) :
    (l.pieces limit).map Piece.read = l.reads limit := by
  have hlong : (Piece.read ∘ fun j ↦ ⟨(l.content.drop (j * (limit + 1))).take (limit + 1),
      .error .overlong⟩) = fun _ ↦ Except.error LineFault.overlong := rfl
  rw [pieces, reads, List.map_append, List.map_map, hlong, List.map_const', List.length_range]
  split <;> rfl

/-- A line within the limit is one piece. -/
theorem pieces_of_le (hlength : l.content.length ≤ limit) (hl : l.ending ≠ none ∨ l.content ≠ []) :
    l.pieces limit = [⟨l.bytes, .ofBytes l.content⟩] := by
  have hdiv : l.content.length / (limit + 1) = 0 := Nat.div_eq_of_lt (by omega)
  have hmod : l.content.length % (limit + 1) = l.content.length := Nat.mod_eq_of_lt (by omega)
  have hlast : ¬(l.ending = none ∧ l.content.length = 0) := by
    rintro ⟨hending, hempty⟩
    exact hl.elim (· hending) (· (List.eq_nil_of_length_eq_zero hempty))
  rw [pieces, hdiv, hmod, if_neg hlast]
  simp

/-- A line beyond the limit begins with a piece that is too long by a byte, and the rest of it is in
pieces as a line of its own. -/
theorem pieces_of_lt (hlength : limit < l.content.length) :
    l.pieces limit = ⟨l.content.take (limit + 1), .error .overlong⟩ ::
      pieces limit ⟨l.content.drop (limit + 1), l.ending⟩ := by
  have hdiv : l.content.length / (limit + 1) =
      (l.content.length - (limit + 1)) / (limit + 1) + 1 :=
    Nat.div_eq_sub_div (by omega) (by omega)
  have hmod : l.content.length % (limit + 1) = (l.content.length - (limit + 1)) % (limit + 1) :=
    Nat.mod_eq_sub_mod (by omega)
  have hstart : ∀ j, limit + 1 + j * (limit + 1) = (j + 1) * (limit + 1) := by
    intro j
    rw [Nat.add_mul, Nat.one_mul, Nat.add_comm]
  simp only [pieces, List.length_drop, List.drop_drop, hdiv, hmod, hstart, List.range_succ_eq_map,
    List.map_cons, List.map_map, List.cons_append, Nat.zero_mul, List.drop_zero]
  rfl

theorem pieces_empty : pieces limit ⟨[], none⟩ = [] := by
  simp [pieces]

/-- What holds of lines within the limit, and of a line beyond it if it holds of the rest of it,
holds of every line. -/
theorem pieces_induction {P : List UInt8 → Prop} (limit : Nat)
    (within : ∀ content, content.length ≤ limit → P content)
    (beyond : ∀ content, limit < content.length → P (content.drop (limit + 1)) → P content)
    (content : List UInt8) : P content := by
  by_cases hlength : content.length ≤ limit
  · exact within content hlength
  · have hlength := Nat.lt_of_not_le hlength
    have hshorter : (content.drop (limit + 1)).length < content.length := by
      rw [List.length_drop]
      omega
    exact beyond content hlength (pieces_induction limit within beyond _)
termination_by content.length

/-- The pieces of a line are all of it. -/
theorem flatMap_bytes_pieces (limit : Nat) (content : List UInt8) (ending : Option Ending) :
    (pieces limit ⟨content, ending⟩).flatMap Piece.bytes = bytes ⟨content, ending⟩ := by
  induction content using pieces_induction limit with
  | within content hlength =>
    by_cases hl : ending ≠ none ∨ content ≠ []
    · rw [pieces_of_le hlength hl]
      simp
    · obtain ⟨rfl, rfl⟩ : ending = none ∧ content = [] := by simpa using hl
      rw [pieces_empty]
      rfl
  | beyond content hlength ih =>
    rw [pieces_of_lt hlength, List.flatMap_cons, ih]
    simp only [bytes, ← List.append_assoc, List.take_append_drop]

/-- A line within the limit is read once. -/
theorem reads_of_le (hlength : l.content.length ≤ limit)
    (hl : l.ending ≠ none ∨ l.content ≠ []) : l.reads limit = [.ofBytes l.content] := by
  rw [← map_read_pieces, pieces_of_le hlength hl]
  rfl

/-- A line beyond the limit is given up, and the rest of it is read as a line. -/
theorem reads_of_lt (hlength : limit < l.content.length) :
    l.reads limit =
      .error .overlong :: reads limit ⟨l.content.drop (limit + 1), l.ending⟩ := by
  rw [← map_read_pieces, pieces_of_lt hlength, List.map_cons, map_read_pieces]

end Line

/-- All reads of a stream under a limit. -/
def reads (limit : Nat) (bytes : List UInt8) : List LineRead :=
  (Line.split bytes).flatMap (Line.reads limit)

@[simp] theorem reads_nil (limit : Nat) : reads limit [] = [] := rfl

theorem reads_append {limit : Nat} {content : List UInt8} {e : Ending} {rest : List UInt8}
    (hcontent : Line.Unbroken content) (he : e.OverBefore rest) :
    reads limit (content ++ (e.bytes ++ rest)) =
      Line.reads limit ⟨content, some e⟩ ++ reads limit rest := by
  simp [reads, Line.split_append hcontent he]

theorem reads_of_unbroken {limit : Nat} {content : List UInt8} (hcontent : Line.Unbroken content) :
    reads limit content = Line.reads limit ⟨content, none⟩ := by
  cases content with
  | nil => simp [Line.reads]
  | cons b content => simp [reads, Line.split_of_unbroken hcontent]

/-- No line is made of nothing. -/
theorem Line.ending_ne_none_or_content_ne_nil {bytes : List UInt8} {l : Line}
    (hl : l ∈ split bytes) : l.ending ≠ none ∨ l.content ≠ [] := by
  induction bytes using split_induction with
  | nil => cases hl
  | unended content hcontent hne =>
    rw [split_of_unbroken hcontent hne, List.mem_singleton] at hl
    exact .inr (hl ▸ hne)
  | ended content e rest hcontent he ih =>
    rw [split_append hcontent he, List.mem_cons] at hl
    rcases hl with rfl | hl
    · exact .inl (Option.some_ne_none e)
    · exact ih hl

/-- A stream whose lines keep to the limit is read line by line. -/
theorem reads_eq_map {limit : Nat} {bytes : List UInt8}
    (h : ∀ l ∈ Line.split bytes, l.content.length ≤ limit) :
    reads limit bytes = (Line.split bytes).map fun l ↦ .ofBytes l.content := by
  rw [reads, List.map_eq_flatMap]
  refine List.flatMap_congr fun l hl ↦ ?_
  exact Line.reads_of_le (h l hl) (Line.ending_ne_none_or_content_ne_nil hl)

/-- Whether two lists have the same images depends only on which of their elements do. -/
theorem map_eq_map_congr {α β γ δ : Type} {f : α → γ} {g : β → γ} {f' : α → δ} {g' : β → δ}
    (h : ∀ a b, f a = g b ↔ f' a = g' b) {as : List α} {bs : List β} :
    as.map f = bs.map g ↔ as.map f' = bs.map g' := by
  induction as generalizing bs with
  | nil => simp
  | cons a as ih =>
    cases bs with
    | nil => simp
    | cons b bs => simp only [List.map_cons, List.cons.injEq, h, ih]

/-- Every read of a stream yields a text exactly if every line keeps to the limit and is one. -/
theorem reads_eq_map_ok_iff {limit : Nat} {bytes : List UInt8} {texts : List String} :
    reads limit bytes = texts.map .ok ↔
      (∀ l ∈ Line.split bytes, l.content.length ≤ limit) ∧
        (Line.split bytes).map (fun l ↦ Text.decode l.content) = texts.map some := by
  have hofBytes : (Line.split bytes).map (fun l ↦ LineRead.ofBytes l.content) = texts.map .ok ↔
      (Line.split bytes).map (fun l ↦ Text.decode l.content) = texts.map some :=
    map_eq_map_congr fun _ _ ↦ LineRead.ofBytes_eq_ok_iff
  constructor
  · intro h
    have hlength : ∀ l ∈ Line.split bytes, l.content.length ≤ limit := by
      intro l hl
      by_contra hlt
      have hread : .error .overlong ∈ reads limit bytes := by
        refine List.mem_flatMap.mpr ⟨l, hl, ?_⟩
        rw [Line.reads_of_lt (by omega)]
        exact List.mem_cons_self
      rw [h] at hread
      simp at hread
    exact ⟨hlength, hofBytes.mp (reads_eq_map hlength ▸ h)⟩
  · rintro ⟨hlength, hdecode⟩
    rw [reads_eq_map hlength]
    exact hofBytes.mpr hdecode

/-- What follows a line feed is read as if nothing had come before. -/
theorem reads_append_of_lf {limit : Nat} {p content : List UInt8}
    (h : (Line.split p).getLast? = some ⟨content, some .lf⟩) (q : List UInt8) :
    reads limit (p ++ q) = reads limit p ++ reads limit q := by
  rw [reads, Line.split_append_of_lf h, List.flatMap_append]
  rfl

/-! ## Counting lines -/

/-- The lines completed by reads. -/
def counted : List LineRead → Nat
  | [] => 0
  | r :: rs => LineRead.counted r + counted rs

@[simp] theorem counted_nil : counted [] = 0 := rfl

@[simp] theorem counted_cons_ok (text : String) (rs : List LineRead) :
    counted (.ok text :: rs) = 1 + counted rs := rfl

@[simp] theorem counted_cons_error (f : LineFault) (rs : List LineRead) :
    counted (.error f :: rs) = f.counted + counted rs := rfl

@[simp] theorem counted_append (rs rs' : List LineRead) :
    counted (rs ++ rs') = counted rs + counted rs' := by
  induction rs with
  | nil => rw [List.nil_append, counted_nil, Nat.zero_add]
  | cons r rs ih => rw [List.cons_append, counted, ih, counted, Nat.add_assoc]

/-- Every line of text is counted. -/
@[simp] theorem counted_map_ok (texts : List String) :
    counted (texts.map .ok) = texts.length := by
  induction texts with
  | nil => rfl
  | cons text texts ih => rw [List.map_cons, counted_cons_ok, ih, List.length_cons, Nat.add_comm]

/-- However long a line with an ending is, it counts once. -/
theorem Line.counted_reads {limit : Nat} {l : Line} (h : l.ending ≠ none) :
    counted (l.reads limit) = 1 := by
  have hoverlong : ∀ n, counted (List.replicate n (.error .overlong)) = 0 := by
    intro n
    induction n with
    | zero => rfl
    | succ n ih => rw [List.replicate_succ, counted_cons_error, ih, LineFault.counted]
  have hlast : ∀ bytes, counted [.ofBytes bytes] = 1 := by
    intro bytes
    unfold LineRead.ofBytes
    split <;> rfl
  rw [reads, if_neg (fun hnone ↦ h hnone.1), counted_append, hoverlong, hlast]

/-- Reading a stream counts its lines, if the last one has an ending. -/
theorem counted_reads {limit : Nat} {bytes content : List UInt8} {e : Ending}
    (h : (Line.split bytes).getLast? = some ⟨content, some e⟩) :
    counted (reads limit bytes) = (Line.split bytes).length := by
  have hendings : ∀ l ∈ Line.split bytes, l.ending ≠ none := by
    intro l hl hending
    rw [Line.getLast?_of_ending_eq_none hl hending] at h
    cases h
    cases hending
  unfold reads
  generalize Line.split bytes = ls at hendings
  induction ls with
  | nil => rfl
  | cons l ls ih =>
    obtain ⟨hl, hls⟩ := List.forall_mem_cons.mp hendings
    rw [List.flatMap_cons, counted_append, Line.counted_reads hl, ih hls, List.length_cons,
      Nat.add_comm]

/-! ## The last read -/

/-- Reads end with an empty line, or there are none. -/
def ReadsClosed (rs : List LineRead) : Prop := ∀ r ∈ rs.getLast?, r = .ok ""

theorem ReadsClosed.of_append {rs rs' : List LineRead} (h : ReadsClosed (rs ++ rs')) :
    ReadsClosed rs' := by
  intro r hr
  apply h r
  rw [List.getLast?_append, Option.mem_def.mp hr]
  rfl

/-- A stream that ends with an empty line is read that way. -/
theorem readsClosed_reads {limit : Nat} {bytes : List UInt8} {e : Ending}
    (h : (Line.split bytes).getLast? = some ⟨[], some e⟩) : ReadsClosed (reads limit bytes) := by
  obtain ⟨ls, hls⟩ := List.getLast?_eq_some_iff.mp h
  have hblank : Line.reads limit ⟨[], some e⟩ = [.ok ""] :=
    Line.reads_of_le (Nat.zero_le limit) (.inl (Option.some_ne_none e))
  rw [reads, hls, List.flatMap_append, List.flatMap_singleton, hblank]
  simp [ReadsClosed]

end WebVTT
