import WebVTT.Proofs.Timings.Locality

/-!
# Times as texts

A text is a time exactly if it is a timestamp with blanks around it, and the time is the one in range
that has the offset written (`Time.parse_iff_denotes`). In particular a time that has been written in
full is read as itself or not at all, and it is read exactly if its fields are in range and its hours
are within the limit on numbers (`Time.parse_display`).
-/

namespace WebVTT

open Timestamp (Denotes)

theorem Time.Readable.normalized {t : Time} (h : t.Readable) : t.Normalized :=
  ⟨h.minutes_lt, h.seconds_lt, h.milliseconds_lt⟩

/-! ## Timestamps with blanks around them -/

namespace Scan

variable {text : String} {t : Time} {n : Nat}

/-- A time that is parsed was written, and is in range. -/
theorem denotes_of_parse (h : Time.parse text = .ok t) :
    t.Normalized ∧ Denotes text.toList t.offset := by
  obtain ⟨rest, htime, hblanks⟩ := exists_of_parse h
  obtain ⟨p, htext, hp⟩ := exists_of_timestamp htime
  refine ⟨(timestamp_eq_ok htime).1.normalized, ?_⟩
  rw [htext]
  exact hp.append (List.dropWhile_eq_nil_iff.mp hblanks)

/-- What was written is parsed. -/
theorem exists_parse_of_denotes (h : Denotes text.toList n) :
    ∃ t, Time.parse text = .ok t ∧ t.offset = n := by
  unfold Time.parse
  generalize text.toList = chars at h
  cases h with
  | @mk before clock fraction after s ms hbefore hclock hfraction hafter =>
    have hnext : ∀ c ∈ after.head?, isBlank c :=
      fun c hc ↦ hafter c (List.mem_of_mem_head? hc)
    obtain ⟨t, htime, hoffset⟩ := timestamp_of_denotes hbefore hclock hfraction hnext
    refine ⟨t, ?_, hoffset⟩
    rw [of_loneTimestamp, htime]
    dsimp only
    rw [List.dropWhile_eq_nil_iff.mpr hafter]

end Scan

/-- A text is a time exactly if it is a timestamp with blanks around it, and it is the time in range
that has the offset written. Any other text is refused. -/
theorem Time.parse_iff_denotes (text : String) :
    (∀ t, Time.parse text = .ok t ↔
        t.Normalized ∧ ∃ n : Nat, Denotes text.toList n ∧ t.presentation.toInt = n) ∧
      ((∃ fault, Time.parse text = .error fault) ↔ ∀ n, ¬Denotes text.toList n) := by
  refine ⟨fun t ↦ ⟨?_, ?_⟩, ?_⟩
  · intro h
    obtain ⟨hrange, hdenotes⟩ := Scan.denotes_of_parse h
    exact ⟨hrange, t.offset, hdenotes, t.toInt_presentation⟩
  · rintro ⟨hrange, n, hdenotes, hoffset⟩
    obtain ⟨u, hparse, hu⟩ := Scan.exists_parse_of_denotes hdenotes
    rw [t.toInt_presentation, Int.natCast_inj] at hoffset
    rw [eq_of_offset hrange (Scan.denotes_of_parse hparse).1 (hoffset.trans hu.symm), hparse]
  · constructor
    · rintro ⟨fault, h⟩ n hdenotes
      obtain ⟨u, hparse, -⟩ := Scan.exists_parse_of_denotes hdenotes
      cases h.symm.trans hparse
    · intro hnone
      cases h : Time.parse text with
      | ok t => exact absurd (Scan.denotes_of_parse h).2 (hnone _)
      | error fault => exact ⟨fault, rfl⟩

/-- Zeros do not count against the limit on numbers, and seconds on their own may be any number. -/
example : Time.parse "\t00000000002147483647.5 " = .ok ⟨596523, 14, 7, 500⟩ ∧
    Time.parse "2147483648" = .error .numberOverflow := by decide +kernel

/-! ## Times that have been written -/

namespace Scan

variable {rest left : List Char}

/-- If a written number is taken, it is as itself. -/
theorem eq_of_number_padded {width : Nat} {n m : UInt32} (hrest : ∀ c ∈ rest.head?, ¬c.isDigit)
    (h : number (Time.padded width n ++ rest) = .ok m left) : m = n ∧ left = rest := by
  have hdigits : ∀ c ∈ Time.padded width n, c.isDigit := fun c ↦ Time.isDigit_of_mem_padded
  obtain ⟨hvalue, -, hleft⟩ := number_eq_ok h
  rw [takeWhile_append_of_head hdigits hrest, Time.ofDigitChars_padded] at hvalue
  rw [dropWhile_append_of_head hdigits hrest] at hleft
  exact ⟨UInt32.toNat_inj.mp hvalue, hleft⟩

/-- If written hours, minutes and seconds are taken, it is as themselves. -/
theorem eq_of_clock_padded {t : Time} {hours minutes seconds : UInt32}
    (hrest : ∀ c ∈ rest.head?, ¬c.isDigit)
    (h : clock (Time.padded 2 t.hours ++ ':' :: (Time.padded 2 t.minutes ++
      ':' :: (Time.padded 2 t.seconds ++ rest))) = .ok (hours, minutes, seconds) left) :
    (hours, minutes, seconds) = (t.hours, t.minutes, t.seconds) ∧ left = rest := by
  have hseparator := @not_of_head?_cons Char.isDigit ':' (by decide)
  obtain ⟨first, u, hfirst, h⟩ := ok_of_bind h
  obtain ⟨rfl, rfl⟩ := eq_of_number_padded (hseparator _) hfirst
  rw [bind_of_ok (accept_self _ _), if_pos rfl] at h
  obtain ⟨second, v, hsecond, h⟩ := ok_of_bind h
  obtain ⟨rfl, rfl⟩ := eq_of_number_padded (hseparator _) hsecond
  rw [bind_of_ok (accept_self _ _)] at h
  split at h
  · cases h
  rw [if_pos rfl] at h
  obtain ⟨third, w, hthird, h⟩ := ok_of_bind h
  obtain ⟨hseconds, hleft⟩ := eq_of_number_padded hrest hthird
  split at h
  · cases h
  · cases h
    exact ⟨by rw [hseconds], hleft⟩

/-- If written milliseconds are taken, it is as themselves: there are three digits of them at least. -/
theorem eq_of_fraction_padded {n m : UInt32} (hrest : ∀ c ∈ rest.head?, ¬c.isDigit)
    (h : fraction ('.' :: (Time.padded 3 n ++ rest)) = .ok m left) : m = n ∧ left = rest := by
  have hplaces : 3 ≤ (Time.padded 3 n).length := by
    rw [Time.padded, List.length_leftpad]
    exact Nat.le_max_left _ _
  rw [fraction, bind_of_ok (accept_self _ _), if_pos rfl, bind_get,
    takeWhile_append_of_head (fun c ↦ Time.isDigit_of_mem_padded) hrest] at h
  obtain ⟨value, u, hvalue, h⟩ := ok_of_bind h
  generalize (Time.padded 3 n).length = places at h hplaces
  rcases Nat.eq_or_lt_of_le hplaces with rfl | hmore
  · cases h
    exact eq_of_number_padded hrest hvalue
  · obtain ⟨_, rfl⟩ := Nat.exists_eq_add_of_le' hmore
    cases h

/-- If a written time is taken, it is as itself. -/
theorem eq_of_timestamp_chars {t u : Time} (h : timestamp t.chars = .ok u left) : u = t := by
  have hstart : t.chars.dropWhile isBlank = t.chars := by
    refine @dropWhile_append_of_head isBlank [] _ (List.forall_mem_nil _)
      fun c (hc : c ∈ t.chars.head?) hblank ↦ ?_
    rw [← List.append_nil t.chars] at hc
    exact not_isDigit_of_isBlank hblank (isDigit_of_head?_chars hc)
  have hpoint := @not_of_head?_cons Char.isDigit '.' (by decide)
  obtain ⟨v, hclock, hfraction⟩ := exists_clock_of_timestamp h
  rw [hstart, ← List.append_nil t.chars, chars_append] at hclock
  obtain ⟨htime, rfl⟩ := eq_of_clock_padded (hpoint _) hclock
  have hend : ∀ c ∈ ([] : List Char).head?, ¬c.isDigit := by
    rintro c ⟨⟩
  obtain ⟨hmilliseconds, -⟩ := eq_of_fraction_padded hend hfraction
  obtain ⟨hhours, hminutes, hseconds⟩ :
      u.hours = t.hours ∧ u.minutes = t.minutes ∧ u.seconds = t.seconds := by simpa using htime
  cases t
  cases u
  rw [Time.mk.injEq]
  exact ⟨hhours, hminutes, hseconds, hmilliseconds⟩

end Scan

/-- A time that has been written is read as itself or refused. It is read exactly if its minutes,
seconds and milliseconds are in range and its hours are within the limit on numbers. -/
theorem Time.parse_display (t : Time) :
    (∀ u, Time.parse t.display = .ok u ↔ u = t ∧ t.Readable) ∧
      ((∃ fault, Time.parse t.display = .error fault) ↔ ¬t.Readable) := by
  have hread : ∀ u, Time.parse t.display = .ok u ↔ u = t ∧ t.Readable := by
    intro u
    constructor
    · intro h
      obtain ⟨rest, htime, -⟩ := Scan.exists_of_parse h
      rw [display, String.toList_ofList] at htime
      obtain rfl := Scan.eq_of_timestamp_chars htime
      exact ⟨rfl, (Scan.timestamp_eq_ok htime).1⟩
    · rintro ⟨rfl, ht⟩
      have htime := @Scan.timestamp_chars u [] [] nofun ht nofun
      rw [List.nil_append, List.append_nil] at htime
      unfold Time.parse
      rw [display, String.toList_ofList, Scan.of_loneTimestamp, htime]
      rfl
  refine ⟨hread, ?_⟩
  cases h : Time.parse t.display with
  | ok u => exact iff_of_false nofun (not_not.mpr ((hread u).mp h).2)
  | error fault =>
    refine iff_of_true ⟨fault, rfl⟩ fun ht ↦ ?_
    cases h.symm.trans ((hread t).mpr ⟨rfl, ht⟩)

/-- Hours may be too many, and a fourth digit of milliseconds is not cut off. -/
example : Time.parse (Time.display ⟨2147483648, 0, 0, 0⟩) = .error .numberOverflow ∧
    Time.parse (Time.display ⟨0, 0, 0, 1000⟩) = .error .fractionTooLong := by decide +kernel

end WebVTT
