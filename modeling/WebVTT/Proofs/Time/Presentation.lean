import WebVTT.Time.Basic

/-!
# Times as numbers

`Time.offset` is the offset of a time in milliseconds as a natural number. The presentation of a time
is its offset, whatever the stored fields are (`Time.toInt_presentation`): the largest offset is far
below what a 64-bit word holds. Times whose fields are in range have different offsets
(`Time.eq_of_offset`).
-/

namespace WebVTT.Time

/-- The offset in milliseconds, with no bound on it. -/
def offset (t : Time) : Nat :=
  t.hours.toNat * 3600000 + t.minutes.toNat * 60000 + t.seconds.toNat * 1000 + t.milliseconds.toNat

/-- Minutes and seconds are those of a clock, and milliseconds are less than a second. -/
structure Normalized (t : Time) : Prop where
  minutes_lt : t.minutes.toNat < 60
  seconds_lt : t.seconds.toNat < 60
  milliseconds_lt : t.milliseconds.toNat < 1000

/-- The offset goes from hours to milliseconds as a clock does. -/
theorem offset_mk (hours minutes seconds milliseconds : UInt32) :
    offset { hours, minutes, seconds, milliseconds } =
      1000 * (60 * (60 * hours.toNat + minutes.toNat) + seconds.toNat) + milliseconds.toNat := by
  simp only [offset]
  omega

/-- Fields of 32 bits make no offset of 54 bits. -/
theorem offset_lt (t : Time) : t.offset < Nat.pow 2 54 := by
  have hhours := t.hours.toNat_lt
  have hminutes := t.minutes.toNat_lt
  have hseconds := t.seconds.toNat_lt
  have hmilliseconds := t.milliseconds.toNat_lt
  show t.offset < 18014398509481984
  unfold offset
  omega

theorem toInt_presentation (t : Time) : t.presentation.toInt = t.offset :=
  Int64.toInt_ofNat_of_lt (Nat.lt_trans t.offset_lt (by decide))

/-- Times in range are told apart by their offsets. -/
theorem eq_of_offset {s t : Time} (hs : s.Normalized) (ht : t.Normalized)
    (h : s.offset = t.offset) : s = t := by
  obtain ⟨hminutes, hseconds, hmilliseconds⟩ := hs
  obtain ⟨hminutes', hseconds', hmilliseconds'⟩ := ht
  unfold offset at h
  have hhours : s.hours = t.hours := UInt32.toNat_inj.mp (by omega)
  have hminutes : s.minutes = t.minutes := UInt32.toNat_inj.mp (by omega)
  have hseconds : s.seconds = t.seconds := UInt32.toNat_inj.mp (by omega)
  have hmilliseconds : s.milliseconds = t.milliseconds := UInt32.toNat_inj.mp (by omega)
  cases s
  cases t
  rw [mk.injEq]
  exact ⟨hhours, hminutes, hseconds, hmilliseconds⟩

end WebVTT.Time
