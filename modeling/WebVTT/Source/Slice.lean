import WebVTT.Source.Basic

/-!
# Bytes in memory

A `Slice` walks over bytes that are all there already. It never fails, and its end is final.
-/

namespace WebVTT

/-- Bytes in memory, and how many of them have been delivered. -/
structure Slice where
  /-- All bytes, delivered ones included. -/
  bytes : ByteArray
  /-- How many bytes have been delivered. -/
  position : Nat := 0
  /-- No more bytes are delivered than there are. -/
  position_le : position ≤ bytes.size := by omega

namespace Slice

/-- The source of the UTF-8 form of a text. -/
def ofString (text : String) : Slice := { bytes := text.toUTF8 }

/-- The bytes not delivered yet. -/
def remaining (s : Slice) : ByteArray := s.bytes.extract s.position s.bytes.size

/-- The next byte, or the end once all have been delivered. -/
def next (s : Slice) : Event × Slice :=
  if h : s.position < s.bytes.size then
    (.byte s.bytes[s.position], { s with position := s.position + 1, position_le := h })
  else
    (.ended, s)

instance : Source Slice where
  next := next
  size s := s.bytes.size - s.position
  size_next_le s := by
    unfold next
    split
    · next h =>
      simp only [Event.weight_byte]
      omega
    · exact Nat.le_refl _

end Slice

end WebVTT
