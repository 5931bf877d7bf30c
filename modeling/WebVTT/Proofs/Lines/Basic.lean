import Mathlib.Data.List.Basic
import WebVTT.LineStream.Line

/-!
# The lines of a stream

`Line.split` cuts bytes into lines and keeps what ended each, so that no byte is lost
(`flatMap_bytes_split`). A carriage return ends a line together with a line feed right after it;
what is left after the last ending is a line only if it is not empty.

Everything about `split` goes by the lines themselves: `split_induction` takes the first line off,
and `split_append` and `split_of_unbroken` say what `split` makes of it.
-/

namespace WebVTT

open LineStream (lineFeed carriageReturn)

/-- What ends a line, where the stream does not. -/
inductive Ending where
  | lf
  | cr
  | crlf
deriving DecidableEq, Repr

namespace Ending

/-- The bytes of an ending. -/
def bytes : Ending → List UInt8
  | lf => [lineFeed]
  | cr => [carriageReturn]
  | crlf => [carriageReturn, lineFeed]

/-- Whether an ending is over where `rest` begins. A carriage return is not if a line feed comes
next. -/
def OverBefore (e : Ending) (rest : List UInt8) : Prop := e = cr → rest.head? ≠ some lineFeed

theorem overBefore_nil (e : Ending) : e.OverBefore [] := fun _ h ↦ nomatch h

theorem overBefore_lf (rest : List UInt8) : lf.OverBefore rest := fun h ↦ nomatch h

theorem overBefore_crlf (rest : List UInt8) : crlf.OverBefore rest := fun h ↦ nomatch h

/-- An ending is over before whatever begins a stream before which it is over. -/
theorem OverBefore.mono {e : Ending} {p rest : List UInt8} (h : e.OverBefore rest)
    (hp : p <+: rest) : e.OverBefore p := by
  intro he hlf
  obtain ⟨more, rfl⟩ := hp
  cases p with
  | nil => cases hlf
  | cons b p => exact h he hlf

/-- What follows a stream that is not empty has no say in whether an ending before is over. -/
theorem OverBefore.append {e : Ending} {rest : List UInt8} (h : e.OverBefore rest)
    (hne : rest ≠ []) (more : List UInt8) : e.OverBefore (rest ++ more) := by
  intro he
  obtain ⟨b, rest, rfl⟩ := List.exists_cons_of_ne_nil hne
  exact h he

end Ending

/-- A line as it stands in a stream. -/
structure Line where
  /-- The bytes before the ending. -/
  content : List UInt8
  /-- What ends the line, if not the end of the stream. -/
  ending : Option Ending
deriving DecidableEq, Repr

namespace Line

/-- The bytes of a line, its ending included. -/
def bytes (l : Line) : List UInt8 := l.content ++ (l.ending.map Ending.bytes).getD []

/-- The lines of a stream. -/
def split : List UInt8 → List Line
  | [] => []
  | b :: rest =>
    if b = lineFeed then
      ⟨[], some .lf⟩ :: split rest
    else if b = carriageReturn then
      match rest with
      | [] => [⟨[], some .cr⟩]
      | c :: more =>
        if c = lineFeed then ⟨[], some .crlf⟩ :: split more
        else ⟨[], some .cr⟩ :: split (c :: more)
    else
      match split rest with
      | [] => [⟨[b], none⟩]
      | l :: ls => ⟨b :: l.content, l.ending⟩ :: ls

/-- Bytes none of which ends a line. -/
def Unbroken (content : List UInt8) : Prop :=
  ∀ b ∈ content, ¬(b = lineFeed ∨ b = carriageReturn)

theorem unbroken_nil : Unbroken [] := fun _ h ↦ nomatch h

theorem unbroken_cons {b : UInt8} {content : List UInt8} :
    Unbroken (b :: content) ↔ ¬(b = lineFeed ∨ b = carriageReturn) ∧ Unbroken content :=
  List.forall_mem_cons

theorem Unbroken.mono {p content : List UInt8} (h : Unbroken content) (hp : p <+: content) :
    Unbroken p := fun b hb ↦ h b (hp.subset hb)

theorem Unbroken.drop {content : List UInt8} (h : Unbroken content) (n : Nat) :
    Unbroken (content.drop n) := fun b hb ↦ h b (List.mem_of_mem_drop hb)

/-! ## Taking the first line off -/

@[simp] theorem split_nil : split [] = [] := rfl

/-- A byte that ends no line goes to the front of the first line. -/
theorem split_cons_of_unbroken {b : UInt8} (rest : List UInt8)
    (hb : ¬(b = lineFeed ∨ b = carriageReturn)) :
    split (b :: rest) = match split rest with
      | [] => [⟨[b], none⟩]
      | l :: ls => ⟨b :: l.content, l.ending⟩ :: ls := by
  obtain ⟨hlf, hcr⟩ := not_or.mp hb
  rw [split.eq_def]
  simp only [hlf, hcr, if_false]

/-- An ending alone is that of an empty line. -/
theorem split_ending {e : Ending} {rest : List UInt8} (he : e.OverBefore rest) :
    split (e.bytes ++ rest) = ⟨[], some e⟩ :: split rest := by
  cases e with
  | lf =>
    rw [Ending.bytes, List.singleton_append, split.eq_def]
    rfl
  | crlf =>
    rw [Ending.bytes, List.cons_append, List.singleton_append, split.eq_def]
    rfl
  | cr =>
    cases rest with
    | nil => rfl
    | cons c more =>
      have hc : c ≠ lineFeed := fun h ↦ he rfl (by simp [h])
      rw [Ending.bytes, List.singleton_append, split.eq_def]
      simp [hc, show carriageReturn ≠ lineFeed by decide]

/-- The first line of a stream goes up to the first ending. -/
theorem split_append {content : List UInt8} {e : Ending} {rest : List UInt8}
    (hcontent : Unbroken content) (he : e.OverBefore rest) :
    split (content ++ (e.bytes ++ rest)) = ⟨content, some e⟩ :: split rest := by
  induction content with
  | nil => exact split_ending he
  | cons b content ih =>
    obtain ⟨hb, hcontent⟩ := unbroken_cons.mp hcontent
    rw [List.cons_append, split_cons_of_unbroken _ hb, ih hcontent]

/-- A stream without an ending is a single line, unless it is empty. -/
theorem split_of_unbroken {content : List UInt8} (hcontent : Unbroken content)
    (hne : content ≠ []) : split content = [⟨content, none⟩] := by
  induction content with
  | nil => exact absurd rfl hne
  | cons b content ih =>
    obtain ⟨hb, hcontent⟩ := unbroken_cons.mp hcontent
    rw [split_cons_of_unbroken _ hb]
    cases content with
    | nil => rfl
    | cons c content => rw [ih hcontent (List.cons_ne_nil _ _)]

/-- A stream either has no ending or has a first one. -/
theorem unbroken_or_exists_ending (bytes : List UInt8) :
    Unbroken bytes ∨ ∃ content e rest, Unbroken content ∧ e.OverBefore rest ∧
      bytes = content ++ (Ending.bytes e ++ rest) := by
  induction bytes with
  | nil => exact .inl unbroken_nil
  | cons b bytes ih =>
    by_cases hlf : b = lineFeed
    · exact .inr ⟨[], .lf, bytes, unbroken_nil, Ending.overBefore_lf _, by simp [hlf, Ending.bytes]⟩
    by_cases hcr : b = carriageReturn
    · right
      by_cases hnext : bytes.head? = some lineFeed
      · obtain ⟨more, rfl⟩ := List.head?_eq_some_iff.mp hnext
        exact ⟨[], .crlf, more, unbroken_nil, Ending.overBefore_crlf _,
          by simp [hcr, Ending.bytes]⟩
      · exact ⟨[], .cr, bytes, unbroken_nil, fun _ ↦ hnext, by simp [hcr, Ending.bytes]⟩
    have hb : ¬(b = lineFeed ∨ b = carriageReturn) := not_or.mpr ⟨hlf, hcr⟩
    rcases ih with hbytes | ⟨content, e, rest, hcontent, he, rfl⟩
    · exact .inl (unbroken_cons.mpr ⟨hb, hbytes⟩)
    · exact .inr ⟨b :: content, e, rest, unbroken_cons.mpr ⟨hb, hcontent⟩, he, rfl⟩

/-- What holds of the empty stream and of a line without ending, and of a stream if it holds of
what follows its first line, holds of every stream. -/
theorem split_induction {P : List UInt8 → Prop} (nil : P [])
    (unended : ∀ content, Unbroken content → content ≠ [] → P content)
    (ended : ∀ content e rest, Unbroken content → Ending.OverBefore e rest → P rest →
      P (content ++ (e.bytes ++ rest))) (bytes : List UInt8) : P bytes := by
  rcases unbroken_or_exists_ending bytes with hbytes | ⟨content, e, rest, hcontent, he, hbytes⟩
  · by_cases hne : bytes = []
    · exact hne ▸ nil
    · exact unended bytes hbytes hne
  · have hshorter : rest.length < bytes.length := by
      have hending : 0 < e.bytes.length := by cases e <;> decide
      simp only [hbytes, List.length_append]
      omega
    exact hbytes ▸ ended content e rest hcontent he (split_induction nil unended ended rest)
termination_by bytes.length

/-! ## All lines -/

/-- The lines of a stream are all of it. -/
theorem flatMap_bytes_split (bytes : List UInt8) : (split bytes).flatMap Line.bytes = bytes := by
  induction bytes using split_induction with
  | nil => rfl
  | unended content hcontent hne => simp [split_of_unbroken hcontent hne, Line.bytes]
  | ended content e rest hcontent he ih => simp [split_append hcontent he, Line.bytes, ih]

/-- Only the empty stream has no line. -/
theorem split_eq_nil_iff {bytes : List UInt8} : split bytes = [] ↔ bytes = [] := by
  constructor
  · intro h
    rw [← flatMap_bytes_split bytes, h]
    rfl
  · rintro rfl
    rfl

/-- There are no more lines than bytes. -/
theorem length_split_le (bytes : List UInt8) : (split bytes).length ≤ bytes.length := by
  induction bytes using split_induction with
  | nil => exact Nat.le_refl _
  | unended content hcontent hne =>
    rw [split_of_unbroken hcontent hne]
    exact List.length_pos_iff.mpr hne
  | ended content e rest hcontent he ih =>
    have hending : 0 < e.bytes.length := by cases e <;> decide
    simp only [split_append hcontent he, List.length_append, List.length_cons]
    omega

/-- No line is longer than the stream. -/
theorem length_content_le {bytes : List UInt8} {l : Line} (hl : l ∈ split bytes) :
    l.content.length ≤ bytes.length := by
  have hlength := (List.sublist_flatten_of_mem (List.mem_map_of_mem (f := Line.bytes) hl)).length_le
  rw [← List.flatMap_def, flatMap_bytes_split, Line.bytes, List.length_append] at hlength
  omega

/-- Bytes put before a stream that end no line change its first line only. -/
theorem tail_split_append {p : List UInt8} (hp : Unbroken p) (rest : List UInt8) :
    (split (p ++ rest)).tail = (split rest).tail := by
  induction p with
  | nil => rfl
  | cons b p ih =>
    obtain ⟨hb, hp⟩ := unbroken_cons.mp hp
    rw [List.cons_append, split_cons_of_unbroken _ hb, ← ih hp]
    cases split (p ++ rest) <;> rfl

/-- Without bytes before it that end no line, a stream has the same lines after the first. -/
theorem exists_split_eq_cons {p rest : List UInt8} {l : Line} {ls : List Line} (hp : Unbroken p)
    (hsplit : split (p ++ rest) = l :: ls) (hne : ls ≠ []) : ∃ l', split rest = l' :: ls := by
  have htail := tail_split_append hp rest
  rw [hsplit, List.tail_cons] at htail
  cases hrest : split rest with
  | nil =>
    rw [hrest] at htail
    exact absurd htail hne
  | cons l' ls' =>
    rw [hrest, List.tail_cons] at htail
    exact ⟨l', congrArg _ htail.symm⟩

/-- Streams put together have the lines of both, if the last line of the first is over there. -/
theorem split_append_of_over {p q : List UInt8}
    (h : ∀ l ∈ (split p).getLast?, ∃ e : Ending, l.ending = some e ∧ e.OverBefore q) :
    split (p ++ q) = split p ++ split q := by
  induction p using split_induction with
  | nil => rfl
  | unended content hcontent hne =>
    obtain ⟨e, he, -⟩ := h ⟨content, none⟩ (by simp [split_of_unbroken hcontent hne])
    cases he
  | ended content e rest hcontent he ih =>
    rw [split_append hcontent he] at h ⊢
    rw [List.append_assoc, List.append_assoc]
    by_cases hrest : rest = []
    · subst hrest
      obtain ⟨e', he', hover⟩ := h ⟨content, some e⟩ (by simp)
      cases he'
      exact split_append hcontent hover
    · have hlines : split rest ≠ [] := fun h ↦ hrest (split_eq_nil_iff.mp h)
      rw [split_append hcontent (he.append hrest q), List.cons_append]
      refine congrArg _ (ih fun l hl ↦ h l ?_)
      rwa [List.getLast?_cons_of_ne_nil hlines]

/-- A line feed is over wherever it stands. -/
theorem split_append_of_lf {p : List UInt8} {content : List UInt8}
    (h : (split p).getLast? = some ⟨content, some .lf⟩) (q : List UInt8) :
    split (p ++ q) = split p ++ split q := by
  refine split_append_of_over fun l hl ↦ ?_
  obtain rfl := Option.some.inj (h.symm.trans hl)
  exact ⟨.lf, rfl, Ending.overBefore_lf q⟩

/-- Only the last line of a stream can be without ending. -/
theorem getLast?_of_ending_eq_none {bytes : List UInt8} {l : Line} (hl : l ∈ split bytes)
    (hending : l.ending = none) : (split bytes).getLast? = some l := by
  induction bytes using split_induction with
  | nil => cases hl
  | unended content hcontent hne =>
    rw [split_of_unbroken hcontent hne] at hl ⊢
    rw [List.mem_singleton.mp hl]
    rfl
  | ended content e rest hcontent he ih =>
    rw [split_append hcontent he] at hl ⊢
    rcases List.mem_cons.mp hl with rfl | hl
    · cases hending
    · rw [List.getLast?_cons_of_ne_nil (List.ne_nil_of_mem hl), ih hl]

end Line

end WebVTT
