import Mathlib.Data.List.Chain
import WebVTT.Proofs.Lines.Reads

/-!
# Lines are read as they were written

Texts on one line each may be written with any ending after each of them. They are read as these
texts (`reads_written`), with one exception to be avoided: the ending of an empty line must not turn
the carriage return before it into the first half of an ending (`Separated`).
-/

namespace WebVTT

/-- The text has no character that ends a line. -/
def OneLine (text : String) : Prop := ∀ c ∈ text.toList, c ≠ '\n' ∧ c ≠ '\r'

instance : DecidablePred OneLine :=
  fun text ↦ List.decidableBAll (fun c ↦ c ≠ '\n' ∧ c ≠ '\r') text.toList

/-- A line to be written: its text, and what is to end it. -/
structure WrittenLine where
  text : String
  ending : Ending
deriving DecidableEq, Repr

theorem oneLine_empty : OneLine "" := fun _ h ↦ nomatch h

theorem OneLine.append {s t : String} (hs : OneLine s) (ht : OneLine t) : OneLine (s ++ t) := by
  unfold OneLine
  rw [String.toList_append]
  exact List.forall_mem_append.mpr ⟨hs, ht⟩

namespace WrittenLine

/-- The bytes of a line to be written. -/
def bytes (l : WrittenLine) : List UInt8 := Text.encode l.text ++ l.ending.bytes

/-- The line that is meant to be read. -/
def line (l : WrittenLine) : Line := ⟨Text.encode l.text, some l.ending⟩

/-- The second line cannot be taken for a part of the ending of the first. -/
def Separated (l m : WrittenLine) : Prop := l.ending = .cr → m.text = "" → m.ending ≠ .lf

end WrittenLine

/-- The bytes of a text without line ends have none. -/
theorem OneLine.unbroken {text : String} (h : OneLine text) :
    Line.Unbroken (Text.encode text) := by
  intro b hb hends
  have hlow : b < 128 := by rcases hends with rfl | rfl <;> decide
  obtain ⟨c, hc, hnat⟩ := Text.exists_mem_of_mem_encode hb hlow
  rcases hends with rfl | rfl
  · exact (h c hc).1 (Char.toNat_inj.mp hnat)
  · exact (h c hc).2 (Char.toNat_inj.mp hnat)

/-- The ending of a line is over where a line begins that is separate from it. -/
theorem WrittenLine.Separated.overBefore {l m : WrittenLine} (h : l.Separated m)
    (hm : OneLine m.text) (rest : List UInt8) : l.ending.OverBefore (m.bytes ++ rest) := by
  intro hcr
  by_cases hempty : m.text = ""
  · have hending := h hcr hempty
    rw [bytes, hempty, Text.encode_empty, List.nil_append]
    cases hm : m.ending with
    | lf => exact absurd hm hending
    | cr => exact fun h ↦ absurd (Option.some.inj h) (by decide)
    | crlf => exact fun h ↦ absurd (Option.some.inj h) (by decide)
  · have hne : Text.encode m.text ≠ [] := fun h ↦ hempty (Text.encode_eq_nil_iff.mp h)
    obtain ⟨b, more, hbytes⟩ := List.exists_cons_of_ne_nil hne
    have hb := hm.unbroken b (hbytes ▸ List.mem_cons_self)
    rw [bytes, hbytes]
    exact fun h ↦ hb (.inl (Option.some.inj h))

/-- Written lines are split as they were written. -/
theorem split_written {ls : List WrittenLine} (hls : ∀ l ∈ ls, OneLine l.text)
    (hseparated : ls.IsChain WrittenLine.Separated) :
    Line.split (ls.flatMap WrittenLine.bytes) = ls.map WrittenLine.line := by
  induction ls with
  | nil => rfl
  | cons l ls ih =>
    obtain ⟨hl, hls⟩ := List.forall_mem_cons.mp hls
    obtain ⟨hnext, hseparated⟩ := List.isChain_cons.mp hseparated
    have hover : l.ending.OverBefore (ls.flatMap WrittenLine.bytes) := by
      cases ls with
      | nil => exact Ending.overBefore_nil _
      | cons m ls => exact (hnext m rfl).overBefore (hls m List.mem_cons_self) _
    rw [List.flatMap_cons, WrittenLine.bytes, List.append_assoc,
      Line.split_append hl.unbroken hover, ih hls hseparated]
    rfl

/-- Written lines are read as their texts under every limit that they keep to. -/
theorem reads_written {limit : Nat} {ls : List WrittenLine} (hls : ∀ l ∈ ls, OneLine l.text)
    (hseparated : ls.IsChain WrittenLine.Separated)
    (hlength : ∀ l ∈ ls, (Text.encode l.text).length ≤ limit) :
    reads limit (ls.flatMap WrittenLine.bytes) = (ls.map WrittenLine.text).map .ok := by
  rw [reads_eq_map_ok_iff, split_written hls hseparated]
  constructor
  · intro line hline
    obtain ⟨l, hl, rfl⟩ := List.mem_map.mp hline
    exact hlength l hl
  · simp [WrittenLine.line]

end WebVTT
