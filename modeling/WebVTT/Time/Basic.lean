/-!
# Cue times

A `Time` is an offset into the media: hours, minutes, seconds and milliseconds, each a 32-bit word
and stored as given, so minutes may well be 60 or more. Its `presentation` is the offset in
milliseconds. Arithmetic goes through presentations, saturates at both ends, and ends in a time
whose minutes, seconds and milliseconds are in range; comparison looks at the stored fields.
-/

namespace WebVTT

/-- An offset into the media. -/
structure Time where
  /-- Whole hours. -/
  hours : UInt32 := 0
  /-- Minutes past the hour, usually below 60. -/
  minutes : UInt32 := 0
  /-- Seconds past the minute, usually below 60. -/
  seconds : UInt32 := 0
  /-- Milliseconds past the second, usually below 1000. -/
  milliseconds : UInt32 := 0
deriving DecidableEq, Repr, Inhabited

namespace Time

/-- The start of the media. -/
def zero : Time := ⟨0, 0, 0, 0⟩

/-- The last time whose minutes, seconds and milliseconds are in range. -/
def max : Time := ⟨4294967295, 59, 59, 999⟩

/-! ## Milliseconds -/

/-- The offset in milliseconds. The largest is below 2 ^ 54, so it always fits. -/
def presentation (t : Time) : Int64 :=
  Int64.ofNat (t.hours.toNat * 3600000 + t.minutes.toNat * 60000 + t.seconds.toNat * 1000
    + t.milliseconds.toNat)

/-- The time at an offset in milliseconds: `zero` for what lies before the start, and `max` for
what needs more hours than fit. -/
def ofPresentation (offset : Int64) : Time :=
  let n := offset.toInt.toNat
  if n / 3600000 < 4294967296 then
    { hours := UInt32.ofNat (n / 3600000)
      minutes := UInt32.ofNat (n % 3600000 / 60000)
      seconds := UInt32.ofNat (n % 60000 / 1000)
      milliseconds := UInt32.ofNat (n % 1000) }
  else
    max

/-- The time at the same offset whose minutes, seconds and milliseconds are in range. -/
def normalize (t : Time) : Time := ofPresentation t.presentation

/-! ## Arithmetic -/

/-- Later by so many milliseconds; the sum of offsets saturates. -/
instance : HAdd Time Int64 Time where
  hAdd t d := ofPresentation (Int64.ofIntClamp (t.presentation.toInt + d.toInt))

/-- Earlier by so many milliseconds; the difference of offsets saturates. -/
instance : HSub Time Int64 Time where
  hSub t d := ofPresentation (Int64.ofIntClamp (t.presentation.toInt - d.toInt))

/-- The milliseconds from the second time to the first, negative if the first is earlier. -/
instance : HSub Time Time Int64 where
  hSub t s := t.presentation - s.presentation

/-! ## Order

Hours count most, then minutes, seconds and milliseconds.
-/

instance : Ord Time where
  compare s t :=
    (compare s.hours t.hours).then <| (compare s.minutes t.minutes).then <|
      (compare s.seconds t.seconds).then <| compare s.milliseconds t.milliseconds

instance : LT Time := ltOfOrd
instance : LE Time := leOfOrd
instance : Max Time := maxOfLe
instance : Min Time := minOfLe

end Time

end WebVTT
