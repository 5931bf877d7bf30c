import Mathlib.Data.List.TakeWhile
import WebVTT.Proofs.Timings.Writing

/-!
# What is read of a timings line

Whatever a timings line is, what is read of it is in order: the times are those of a clock with hours
within the limit on numbers, and every setting has a name and a value, and stands in the line as it is
(`Timings.readable_of_parse`). A scan takes characters off the front, so what one leaves is a suffix
of what it was given.
-/

namespace WebVTT

/-- A setting as it stands in a line. -/
def Setting.text (s : Setting) : String := s.name ++ ":" ++ s.value

theorem Setting.toList_text (s : Setting) : s.text.toList = s.name.toList ++ ':' :: s.value.toList := by
  simp [text]

namespace Scan

variable {text rest : List Char}

theorem of_eq_ok {α : Type} {scan : Scan α} {a : α} (h : scan.of text = .ok a) :
    ∃ rest, scan text = .ok a rest := by
  unfold of at h
  split at h
  · cases h
    exact ⟨_, ‹_›⟩
  · cases h

/-! ## Times -/

/-- Hours, minutes and seconds are in range, in whichever form they are written. -/
theorem clock_eq_ok {hours minutes seconds : UInt32}
    (h : clock text = .ok (hours, minutes, seconds) rest) :
    hours.toNat ≤ 2147483647 ∧ minutes.toNat < 60 ∧ seconds.toNat < 60 ∧ rest <:+ text := by
  obtain ⟨ds, rfl, -, hhours, hminutes, hseconds⟩ := exists_of_clock h
  exact ⟨hhours, hminutes, hseconds, List.suffix_append ds rest⟩

/-- A fraction is less than a second, whatever its number of digits. -/
theorem fraction_eq_ok {n : UInt32} (h : fraction text = .ok n rest) :
    n.toNat < 1000 ∧ rest <:+ text := by
  obtain ⟨ds, rfl, hds⟩ := exists_of_fraction h
  exact ⟨hds.lt, List.suffix_append ds rest⟩

/-- A timestamp that is taken is a time that can be written. -/
theorem timestamp_eq_ok {t : Time} (h : timestamp text = .ok t rest) :
    t.Readable ∧ rest <:+ text := by
  obtain ⟨u, hclock, hfraction⟩ := exists_clock_of_timestamp h
  obtain ⟨hhours, hminutes, hseconds, hu⟩ := clock_eq_ok hclock
  obtain ⟨hmilliseconds, hrest⟩ := fraction_eq_ok hfraction
  refine ⟨⟨hhours, hminutes, hseconds, hmilliseconds⟩, ?_⟩
  exact (hrest.trans hu).trans (List.dropWhile_suffix _)

/-! ## Settings -/

/-- A setting that is taken has a name and a value, and stands at the front of the text. -/
theorem setting_eq_ok {s : Setting} (h : setting text = .ok s rest) :
    s.Readable ∧ text = s.text.toList ++ rest := by
  unfold setting at h
  split at h
  · next more hmore =>
    dsimp only at h
    split at h
    · cases h
    next hname =>
    split at h
    · cases h
    split at h
    · cases h
    next hvalue =>
    cases h
    refine ⟨⟨?_, ?_, ?_, ?_⟩, ?_⟩
    · simpa using hname
    · simpa using hvalue
    · rw [String.toList_ofList]
      exact fun c hc ↦ List.mem_takeWhile_imp hc
    · rw [String.toList_ofList]
      exact fun c hc ↦ List.mem_takeWhile_imp hc
    · rw [Setting.toList_text, String.toList_ofList, String.toList_ofList, List.append_assoc,
        List.cons_append, List.takeWhile_append_dropWhile, ← hmore,
        List.takeWhile_append_dropWhile]
  · cases h

/-- Every setting that is taken can be written, and stands in the text. -/
theorem settingsAfter_eq_ok {found : Array Setting} {ss : List Setting}
    (h : settingsAfter found text = .ok ss rest) :
    ∀ s ∈ ss, s ∈ found ∨ s.Readable ∧ s.text.toList <:+: text := by
  fun_induction settingsAfter found text with
  | case1 found text hempty =>
    cases h
    exact fun s hs ↦ .inl (Array.mem_toList_iff.mp hs)
  | case2 found text hne s left hsetting ih =>
    obtain ⟨hreadable, htext⟩ := setting_eq_ok hsetting
    have hblanks : text.dropWhile isBlank <:+ text := List.dropWhile_suffix _
    have hleft : left <:+ text.dropWhile isBlank := ⟨_, htext.symm⟩
    intro s' hs'
    rcases ih h s' hs' with hfound | ⟨hreadable', hpart⟩
    · rcases Array.mem_push.mp hfound with hfound | rfl
      · exact .inl hfound
      · exact .inr ⟨hreadable, .trans ⟨[], left, by rw [htext, List.nil_append]⟩ hblanks.isInfix⟩
    · exact .inr ⟨hreadable', hpart.trans (hleft.trans hblanks).isInfix⟩
  | case3 => cases h

end Scan

namespace Timings

/-- What comes after an arrow is the end of the line. -/
theorem isSuffix_of_splitArrow {passed text head tail : List Char}
    (h : splitArrow passed text = some (head, tail)) : tail <:+ text := by
  fun_induction splitArrow passed text with
  | case1 passed rest =>
    cases h
    exact ⟨['-', '-', '>'], rfl⟩
  | case2 passed c rest _ ih => exact (ih h).trans (List.suffix_cons c rest)
  | case3 => cases h

/-- What stands before an arrow is a time. -/
theorem scanHead_eq_ok {text rest : List Char} {start : Time} (h : scanHead text = .ok start rest) :
    start.Readable := by
  obtain ⟨time, t, htime, h⟩ := Scan.ok_of_bind h
  rw [Scan.bind_blanks, Scan.bind_get] at h
  split at h
  · cases h
    exact (Scan.timestamp_eq_ok htime).1
  · cases h

/-- What comes after an arrow is a time and settings. -/
theorem scanTail_eq_ok {text rest : List Char} {stop : Time} {settings : List Setting}
    (h : scanTail text = .ok (stop, settings) rest) :
    stop.Readable ∧ ∀ s ∈ settings, s.Readable ∧ s.text.toList <:+: text := by
  obtain ⟨time, t, htime, h⟩ := Scan.ok_of_bind h
  obtain ⟨taken, u, hsettings, h⟩ := Scan.ok_of_bind h
  cases h
  obtain ⟨hstop, ht⟩ := Scan.timestamp_eq_ok htime
  refine ⟨hstop, fun s hs ↦ ?_⟩
  rcases Scan.settingsAfter_eq_ok hsettings s hs with hnone | ⟨hreadable, hpart⟩
  · simp at hnone
  · exact ⟨hreadable, hpart.trans ht.isInfix⟩

/-- The times of a line that is parsed are in range, and its settings stand in it. -/
theorem readable_of_parse {line : String} {t : Timings} (h : parse line = .ok t) :
    t.start.Readable ∧ t.stop.Readable ∧
      ∀ s ∈ t.settings, s.Readable ∧ s.text.toList <:+: line.toList := by
  unfold parse at h
  split at h
  · cases h
  next head tail hsplit =>
  have htail : tail <:+ line.toList := isSuffix_of_splitArrow hsplit
  cases hhead : scanHead.of head with
  | error reason =>
    rw [hhead] at h
    cases h
  | ok start =>
    cases hrest : scanTail.of tail with
    | error reason =>
      rw [hhead, hrest] at h
      cases h
    | ok rest =>
      rw [hhead, hrest] at h
      cases h
      obtain ⟨_, hhead⟩ := Scan.of_eq_ok hhead
      obtain ⟨_, hrest⟩ := Scan.of_eq_ok hrest
      obtain ⟨hstop, hsettings⟩ := scanTail_eq_ok hrest
      refine ⟨scanHead_eq_ok hhead, hstop, fun s hs ↦ ?_⟩
      obtain ⟨hreadable, hpart⟩ := hsettings s hs
      exact ⟨hreadable, hpart.trans htail.isInfix⟩

end Timings

end WebVTT
