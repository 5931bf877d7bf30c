import Mathlib.Data.UInt
import WebVTT.Proofs.Time.Parsing

/-!
# Times in order

Times in range are the milliseconds from zero up to the last time there is, one for one and in the same
order (`Time.ofPresentation_order`). The fields of such a time are the digits of its offset in a mixed
radix, so to compare them one after the other is to compare offsets (`Time.compare_then`). Whatever is
outside the range comes to the nearer end of it.
-/

namespace WebVTT.Time

variable {s t : Time}

/-! ## From milliseconds to times -/

/-- The nearest number of milliseconds that a time in range can have. -/
def clamp (n : Int) : Int := Max.max 0 (Min.min n max.presentation.toInt)

theorem toInt_presentation_max : max.presentation.toInt = 15461882265599999 := by decide

theorem clamp_eq (n : Int) : clamp n = Max.max 0 (Min.min n 15461882265599999) := by
  rw [clamp, toInt_presentation_max]

/-- Milliseconds below the limit on hours are split into fields, none of which loses a digit. -/
theorem toNat_ofPresentation {v : Int64} (h : v.toInt.toNat / 3600000 < 4294967296) :
    (ofPresentation v).hours.toNat = v.toInt.toNat / 3600000 ∧
      (ofPresentation v).minutes.toNat = v.toInt.toNat % 3600000 / 60000 ∧
      (ofPresentation v).seconds.toNat = v.toInt.toNat % 60000 / 1000 ∧
      (ofPresentation v).milliseconds.toNat = v.toInt.toNat % 1000 := by
  unfold ofPresentation
  dsimp only
  rw [if_pos h]
  refine ⟨UInt32.toNat_ofNat_of_lt' h, ?_, ?_, ?_⟩ <;>
    exact UInt32.toNat_ofNat_of_lt' (show _ < 4294967296 by omega)

theorem ofPresentation_eq_max {v : Int64} (h : ¬v.toInt.toNat / 3600000 < 4294967296) :
    ofPresentation v = max := if_neg h

/-- The time at an offset is in range. -/
theorem normalized_ofPresentation (v : Int64) : (ofPresentation v).Normalized := by
  by_cases h : v.toInt.toNat / 3600000 < 4294967296
  · obtain ⟨-, hminutes, hseconds, hmilliseconds⟩ := toNat_ofPresentation h
    exact ⟨by omega, by omega, by omega⟩
  · rw [ofPresentation_eq_max h]
    exact ⟨by decide, by decide, by decide⟩

/-- The time at an offset is at this offset, or as near to it as there is a time. -/
theorem presentation_ofPresentation (v : Int64) :
    (ofPresentation v).presentation.toInt = clamp v.toInt := by
  rw [toInt_presentation, clamp_eq]
  by_cases h : v.toInt.toNat / 3600000 < 4294967296
  · obtain ⟨hhours, hminutes, hseconds, hmilliseconds⟩ := toNat_ofPresentation h
    rw [offset, hhours, hminutes, hseconds, hmilliseconds]
    omega
  · rw [ofPresentation_eq_max h, show max.offset = 15461882265599999 by decide]
    omega

/-- The times in range are those that their offsets give back. -/
theorem ofPresentation_presentation_iff : ofPresentation t.presentation = t ↔ t.Normalized := by
  constructor
  · intro h
    rw [← h]
    exact normalized_ofPresentation _
  · intro h
    have hoffset := presentation_ofPresentation t.presentation
    refine eq_of_offset (normalized_ofPresentation _) h ?_
    rw [toInt_presentation, toInt_presentation, clamp_eq] at hoffset
    have hle : t.offset ≤ 15461882265599999 := by
      obtain ⟨hminutes, hseconds, hmilliseconds⟩ := h
      have hhours := t.hours.toNat_lt
      unfold offset
      omega
    omega

/-! ## Comparing times -/

/-- Of two numbers with two digits each the one with the larger first digit is larger, whatever the
last digits are. -/
theorem compare_then {r x y p q : Nat} (hp : p < r) (hq : q < r) :
    (compare x y).then (compare p q) = compare (x * r + p) (y * r + q) := by
  rcases Nat.lt_trichotomy x y with h | rfl | h
  · have hlt : x * r + p < y * r + q := by
      have := Nat.mul_le_mul_right r (Nat.succ_le_of_lt h)
      rw [Nat.succ_mul] at this
      omega
    rw [Nat.compare_eq_lt.mpr h, Nat.compare_eq_lt.mpr hlt]
    rfl
  · rw [Nat.compare_eq_eq.mpr rfl]
    show compare p q = _
    simp only [Nat.compare_eq_ite_lt, Nat.add_lt_add_iff_left]
  · have hgt : y * r + q < x * r + p := by
      have := Nat.mul_le_mul_right r (Nat.succ_le_of_lt h)
      rw [Nat.succ_mul] at this
      omega
    rw [Nat.compare_eq_gt.mpr h, Nat.compare_eq_gt.mpr hgt]
    rfl

/-- Times in range compare as their offsets do. -/
theorem compare_eq_compare_offset (hs : s.Normalized) (ht : t.Normalized) :
    compare s t = compare s.offset t.offset := by
  obtain ⟨hminutes, hseconds, hmilliseconds⟩ := hs
  obtain ⟨hminutes', hseconds', hmilliseconds'⟩ := ht
  show (compare s.hours t.hours).then ((compare s.minutes t.minutes).then
    ((compare s.seconds t.seconds).then (compare s.milliseconds t.milliseconds))) = _
  simp only [UInt32.compare_eq_toNat_compare_toNat]
  rw [compare_then hmilliseconds hmilliseconds',
    compare_then (r := 60000) (by omega) (by omega), compare_then (r := 3600000) (by omega) (by omega)]
  simp only [offset, Nat.add_assoc]

theorem presentation_lt_iff : s.presentation < t.presentation ↔ s.offset < t.offset := by
  rw [Int64.lt_iff_toInt_lt, toInt_presentation, toInt_presentation, Int.ofNat_lt]

theorem presentation_le_iff : s.presentation ≤ t.presentation ↔ s.offset ≤ t.offset := by
  rw [Int64.le_iff_toInt_le, toInt_presentation, toInt_presentation, Int.ofNat_le]

theorem presentation_inj : s.presentation = t.presentation ↔ s.offset = t.offset := by
  rw [← Int64.toInt_inj, toInt_presentation, toInt_presentation, Int.natCast_inj]

theorem compare_presentation :
    compare s.presentation t.presentation = compare s.offset t.offset := by
  show compareOfLessAndEq _ _ = compareOfLessAndEq _ _
  unfold compareOfLessAndEq
  simp only [presentation_lt_iff, presentation_inj]

/-! ## Times from texts -/

/-- A text gives the time, on its own or as the start or the stop of a cue. -/
inductive Parsed : Time → Prop where
  | alone (text : String) {t : Time} : Time.parse text = .ok t → Parsed t
  | start (line : String) {timings : Timings} : Timings.parse line = .ok timings →
      Parsed timings.start
  | stop (line : String) {timings : Timings} : Timings.parse line = .ok timings →
      Parsed timings.stop

theorem Parsed.normalized (h : t.Parsed) : t.Normalized := by
  cases h with
  | alone text hparse => exact (Scan.denotes_of_parse hparse).1
  | start line hparse => exact (Timings.readable_of_parse hparse).1.normalized
  | stop line hparse => exact (Timings.readable_of_parse hparse).2.1.normalized

/-- Every 64-bit number of milliseconds gives a time in range, which has this presentation or the
nearest one there is, and the times in range are those that their presentations give back. Times in
range, and all times from texts are, compare as their presentations do and are told apart by them. -/
theorem ofPresentation_order :
    (∀ v : Int64, (ofPresentation v).Normalized ∧
        (ofPresentation v).presentation.toInt = clamp v.toInt) ∧
      (∀ t : Time, ofPresentation t.presentation = t ↔ t.Normalized) ∧
      (∀ s t : Time, s.Normalized → t.Normalized →
        compare s t = compare s.presentation t.presentation ∧
          (s < t ↔ s.presentation < t.presentation) ∧ (s ≤ t ↔ s.presentation ≤ t.presentation) ∧
          (s = t ↔ s.presentation = t.presentation)) ∧
      ∀ t : Time, t.Parsed → t.Normalized := by
  refine ⟨fun v ↦ ⟨normalized_ofPresentation v, presentation_ofPresentation v⟩,
    fun t ↦ ofPresentation_presentation_iff, fun s t hs ht ↦ ?_, fun t ↦ Parsed.normalized⟩
  have hcompare := compare_eq_compare_offset hs ht
  refine ⟨hcompare.trans compare_presentation.symm, ?_, ?_, ?_⟩
  · rw [presentation_lt_iff, ← Nat.compare_eq_lt, ← hcompare]
    rfl
  · rw [presentation_le_iff, ← Nat.isLE_compare, ← hcompare]
    rfl
  · rw [presentation_inj]
    exact ⟨congrArg offset, eq_of_offset hs ht⟩

/-- The last number of milliseconds, two times that differ in every field, and one from a text. -/
theorem ofPresentation_order_sample :
    (ofPresentation Int64.maxValue).presentation.toInt = clamp Int64.maxValue.toInt ∧
      ofPresentation (presentation ⟨0, 0, 61, 0⟩) ≠ ⟨0, 0, 61, 0⟩ ∧
      (⟨0, 59, 59, 999⟩ : Time) < ⟨1, 0, 0, 0⟩ ∧
      (⟨4294967295, 59, 59, 999⟩ : Time).Normalized ∧ (⟨0, 1, 1, 500⟩ : Time).Normalized := by
  obtain ⟨hnearest, hback, horder, hparsed⟩ := ofPresentation_order
  have hlt := (horder ⟨0, 59, 59, 999⟩ ⟨1, 0, 0, 0⟩ ⟨by decide, by decide, by decide⟩
    ⟨by decide, by decide, by decide⟩).2.1
  refine ⟨(hnearest _).2, ?_, hlt.mpr (by decide), (hback _).mp (by decide),
    hparsed _ (.alone " 61.5" (by decide +kernel))⟩
  rw [ne_eq, hback]
  exact fun h ↦ absurd h.seconds_lt (by decide)

end WebVTT.Time
