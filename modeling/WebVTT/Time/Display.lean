import WebVTT.Time.Basic

/-!
# The text of a time

A time is written `HH:MM:SS.mmm`. Each number has at least the width shown, filled with zeros, and
more digits where it needs them.
-/

namespace WebVTT.Time

/-- The decimal digits of a number, with zeros in front up to a width. -/
def padded (width : Nat) (n : UInt32) : List Char :=
  (Nat.toDigits 10 n.toNat).leftpad width '0'

/-- The characters of the text of a time. -/
def chars (t : Time) : List Char :=
  padded 2 t.hours ++ ':' :: padded 2 t.minutes ++ ':' :: padded 2 t.seconds ++
    '.' :: padded 3 t.milliseconds

/-- The text of a time, such as `00:01:02.500`. -/
def display (t : Time) : String := String.ofList t.chars

instance : ToString Time := ⟨display⟩

end WebVTT.Time
