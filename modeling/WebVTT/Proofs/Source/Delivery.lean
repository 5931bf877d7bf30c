import Mathlib.Logic.Function.Iterate
import WebVTT.Proofs.Text.Encoding
import WebVTT.Source.Script
import WebVTT.Source.Slice

/-!
# Finite streams of bytes

A source `Delivers` bytes if it yields just these, one a pull, and then its end for ever. What a
reader makes of a finite stream depends on the bytes alone, so it is stated for every source that
delivers them; bytes in memory are one (`Slice.delivers`), a script of bytes is another.
-/

namespace WebVTT

namespace Source

variable {σ : Type} [Source σ]

/-- The source once it has been pulled from. -/
def pulled (s : σ) : σ := (next s).2

/-- The source yields these bytes, one a pull, and then its end for ever. -/
def Delivers (s : σ) (bytes : List UInt8) : Prop :=
  ∀ k, (next (pulled^[k] s)).1 = (bytes[k]?).elim .ended .byte

namespace Delivers

variable {s : σ} {b : UInt8} {bytes : List UInt8}

theorem next_cons (h : Delivers s (b :: bytes)) :
    (next s).1 = .byte b ∧ Delivers (next s).2 bytes := by
  refine ⟨h 0, fun k ↦ ?_⟩
  show (next (pulled^[k] (pulled s))).1 = _
  rw [← Function.iterate_succ_apply, h (k + 1), List.getElem?_cons_succ]

theorem next_nil (h : Delivers s []) : (next s).1 = .ended ∧ Delivers (next s).2 [] := by
  refine ⟨h 0, fun k ↦ ?_⟩
  show (next (pulled^[k] (pulled s))).1 = _
  rw [← Function.iterate_succ_apply, h (k + 1)]
  rfl

/-- What is true of sources and bytes as long as each pull yields the next byte, or the end after
the last, is true of deliveries only. -/
theorem of_step {P : σ → List UInt8 → Prop}
    (cons : ∀ s b bytes, P s (b :: bytes) → (next s).1 = .byte b ∧ P (next s).2 bytes)
    (nil : ∀ s, P s [] → (next s).1 = .ended ∧ P (next s).2 []) (h : P s bytes) :
    Delivers s bytes := by
  intro k
  induction k generalizing s bytes with
  | zero =>
    cases bytes with
    | nil => exact (nil s h).1
    | cons b bytes => exact (cons s b bytes h).1
  | succ k ih =>
    rw [Function.iterate_succ_apply]
    cases bytes with
    | nil => exact ih (nil s h).2
    | cons b bytes => exact ih (cons s b bytes h).2

/-- A source delivers one stream only. -/
theorem unique {bytes' : List UInt8} (h : Delivers s bytes) (h' : Delivers s bytes') :
    bytes = bytes' := by
  refine List.ext_getElem? fun k ↦ ?_
  have hk := (h k).symm.trans (h' k)
  cases hb : bytes[k]? <;> cases hb' : bytes'[k]? <;> simp_all

end Delivers

end Source

/-! ## Sources that deliver -/

theorem Slice.toList_remaining (s : Slice) :
    s.remaining.data.toList = s.bytes.data.toList.drop s.position := by
  have hsize : s.bytes.size = s.bytes.data.toList.length := by simp
  rw [remaining, ByteArray.data_extract, Array.toList_extract, List.extract_eq_take_drop, hsize]
  exact List.take_of_length_le (by simp)

/-- Bytes in memory are delivered from the position on. -/
theorem Slice.delivers (s : Slice) : Source.Delivers s s.remaining.data.toList := by
  refine Source.Delivers.of_step
    (P := fun (s : Slice) bytes ↦ bytes = s.bytes.data.toList.drop s.position)
    ?_ ?_ s.toList_remaining
  · intro s b bytes h
    have hposition : s.position < s.bytes.size := by
      have hlength := congrArg List.length h
      simp only [List.length_cons, List.length_drop, Array.length_toList] at hlength
      show s.position < s.bytes.data.size
      omega
    show (Slice.next s).1 = _ ∧ bytes = (Slice.next s).2.bytes.data.toList.drop
      (Slice.next s).2.position
    rw [List.drop_eq_getElem_cons (by simpa using hposition), List.cons.injEq] at h
    rw [Slice.next, dif_pos hposition]
    exact ⟨congrArg Event.byte h.1.symm, h.2⟩
  · intro s h
    have hposition : ¬s.position < s.bytes.size := by
      have hlength := congrArg List.length h
      simp only [List.length_nil, List.length_drop, Array.length_toList] at hlength
      show ¬s.position < s.bytes.data.size
      omega
    show (Slice.next s).1 = _ ∧ [] = (Slice.next s).2.bytes.data.toList.drop
      (Slice.next s).2.position
    rw [Slice.next, dif_neg hposition]
    exact ⟨rfl, h⟩

/-- A text in memory is delivered in UTF-8. -/
theorem Slice.delivers_ofString (text : String) :
    Source.Delivers (Slice.ofString text) (Text.encode text) := by
  have h := (Slice.ofString text).delivers
  rwa [Slice.toList_remaining] at h

/-- A script of bytes delivers them. -/
theorem Script.delivers (bytes : List UInt8) :
    Source.Delivers (Script.mk (bytes.map .byte)) bytes := by
  refine Source.Delivers.of_step (P := fun s bytes ↦ s = ⟨bytes.map .byte⟩) ?_ ?_ rfl
  · rintro _ b bytes rfl
    exact ⟨rfl, rfl⟩
  · rintro _ rfl
    exact ⟨rfl, rfl⟩

end WebVTT
