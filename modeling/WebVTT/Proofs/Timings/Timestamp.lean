import Mathlib.Data.List.TakeWhile
import WebVTT.Proofs.Time.Presentation
import WebVTT.Proofs.Timings.Numbers
import WebVTT.Timings.Timestamp

/-!
# The grammar of timestamps

What a timestamp is, and what it denotes, is said here without a scan. One, two or three numbers with
colons between them give seconds (`Timestamp.Clock`), and a point with one to three digits after it
gives milliseconds (`Timestamp.Fraction`). A scan that comes off has taken such a text, and such a
text is taken wherever it does not go on, so scanning and grammar agree step by step.
-/

namespace WebVTT

namespace Timestamp

/-- Digits, and the number that they denote, whatever zeros come first. It is within the limit. -/
structure Numeral (ds : List Char) (n : Nat) : Prop where
  ne_nil : ds ≠ []
  isDigit : ∀ c ∈ ds, c.isDigit
  value_eq : Nat.ofDigitChars 10 ds 0 = n
  value_le : n ≤ 2147483647

/-- Numbers with colons between them, and the seconds that they denote. -/
inductive Clock : List Char → Nat → Prop where
  /-- Seconds on their own may be 60 or more. -/
  | seconds {ds : List Char} {s : Nat} : Numeral ds s → Clock ds s
  | minutes {ds ds' : List Char} {m s : Nat} : Numeral ds m → m < 60 → Numeral ds' s → s < 60 →
      Clock (ds ++ ':' :: ds') (60 * m + s)
  | hours {ds ds' ds'' : List Char} {h m s : Nat} : Numeral ds h → Numeral ds' m → m < 60 →
      Numeral ds'' s → s < 60 → Clock (ds ++ ':' :: (ds' ++ ':' :: ds'')) (60 * (60 * h + m) + s)

/-- Nothing, or a point and tenths, hundredths or thousandths of a second, and the milliseconds that
this denotes. -/
inductive Fraction : List Char → Nat → Prop where
  | none : Fraction [] 0
  | places {ds : List Char} : ds ≠ [] → (∀ c ∈ ds, c.isDigit) → ds.length ≤ 3 →
      Fraction ('.' :: ds) (Nat.ofDigitChars 10 ds 0 * Nat.pow 10 (3 - ds.length))

/-- A timestamp with blanks around it, and the milliseconds that it denotes. -/
inductive Denotes : List Char → Nat → Prop where
  | mk {before clock fraction after : List Char} {s ms : Nat} : (∀ c ∈ before, isBlank c) →
      Clock clock s → Fraction fraction ms → (∀ c ∈ after, isBlank c) →
      Denotes (before ++ (clock ++ (fraction ++ after))) (1000 * s + ms)

variable {text ds after : List Char} {n : Nat}

/-- Three digits denote less than a thousand, and fewer digits as many tenths or hundredths. -/
theorem Fraction.lt (h : Fraction text n) : n < 1000 := by
  cases h with
  | none => decide
  | @places ds hne hds hlength =>
    calc Nat.ofDigitChars 10 ds 0 * Nat.pow 10 (3 - ds.length)
        < 10 ^ ds.length * 10 ^ (3 - ds.length) :=
          Nat.mul_lt_mul_of_pos_right (Scan.ofDigitChars_lt hds) (Nat.pow_pos (by decide))
      _ = 10 ^ 3 := by rw [← Nat.pow_add, Nat.add_sub_cancel' hlength]

/-- A clock begins with a digit. -/
theorem Clock.isDigit_of_head? (h : Clock text n) (rest : List Char) :
    ∀ c ∈ (text ++ rest).head?, c.isDigit := by
  have hnumeral : ∃ ds n more, Numeral ds n ∧ text ++ rest = ds ++ more := by
    cases h with
    | seconds hds => exact ⟨_, _, _, hds, rfl⟩
    | minutes hds => exact ⟨_, _, _, hds, List.append_assoc ..⟩
    | hours hds => exact ⟨_, _, _, hds, List.append_assoc ..⟩
  obtain ⟨ds, n, more, hds, htext⟩ := hnumeral
  obtain ⟨d, ds, rfl⟩ := List.exists_cons_of_ne_nil hds.ne_nil
  rw [htext]
  rintro _ ⟨⟩
  exact hds.isDigit d List.mem_cons_self

/-- More blanks may come behind a timestamp. -/
theorem Denotes.append (h : Denotes text n) (hafter : ∀ c ∈ after, isBlank c) :
    Denotes (text ++ after) n := by
  obtain ⟨hbefore, hclock, hfraction, hafter'⟩ := h
  simp only [List.append_assoc]
  exact .mk hbefore hclock hfraction (List.forall_mem_append.mpr ⟨hafter', hafter⟩)

end Timestamp

namespace Scan

open Timestamp

variable {text rest ds : List Char} {n : Nat}

/-- A blank is no digit. -/
theorem not_isDigit_of_isBlank {c : Char} (h : isBlank c) : ¬c.isDigit := by
  have h : c = ' ' ∨ c = '\t' := by simpa [isBlank] using h
  rcases h with rfl | rfl <;> decide

/-! ## Single characters and numbers -/

/-- What is accepted was there, and nothing else is taken. -/
theorem eq_of_accept {c : Char} {taken : Bool} (h : accept c text = .ok taken rest) :
    text = if taken then c :: rest else rest := by
  unfold accept at h
  split at h
  · cases h
    rfl
  · split at h
    · next hc =>
      cases h
      rw [hc]
      rfl
    · cases h
      rfl

theorem accept_of_head {c : Char} (h : ∀ d ∈ rest.head?, d ≠ c) :
    accept c rest = .ok false rest := by
  cases rest with
  | nil => rfl
  | cons d rest => rw [accept, if_neg (h d rfl)]

/-- A number that is taken goes up to what is no digit. -/
theorem exists_of_number {value : UInt32} (h : number text = .ok value rest) :
    ∃ ds, text = ds ++ rest ∧ Numeral ds value.toNat ∧ ∀ c ∈ rest.head?, ¬c.isDigit := by
  obtain ⟨hvalue, hlimit, rfl⟩ := number_eq_ok h
  refine ⟨text.takeWhile Char.isDigit, List.takeWhile_append_dropWhile.symm,
    ⟨?_, fun c hc ↦ List.mem_takeWhile_imp hc, hvalue.symm, hlimit⟩, ?_⟩
  · rw [number, bind_get] at h
    split at h
    · next hfirst =>
      cases text with
      | nil => cases hfirst
      | cons c text =>
        rw [List.takeWhile_cons_of_pos (show c.isDigit from hfirst)]
        exact List.cons_ne_nil _ _
    · cases h
  · intro c hc
    have hdigit := List.head?_dropWhile_not Char.isDigit text
    rw [Option.mem_def.mp hc] at hdigit
    simpa using hdigit

theorem number_of_numeral (h : Numeral ds n) (hrest : ∀ c ∈ rest.head?, ¬c.isDigit) :
    ∃ value : UInt32, number (ds ++ rest) = .ok value rest ∧ value.toNat = n := by
  obtain ⟨hne, hdigits, rfl, hlimit⟩ := h
  refine ⟨_, number_append hne hdigits hrest hlimit, UInt32.toNat_ofNat_of_lt' ?_⟩
  exact Nat.lt_of_le_of_lt hlimit (by decide)

/-! ## Clocks -/

/-- Numbers below sixty are those of a clock. -/
theorem lt_sixty {n : UInt32} (h : ¬60 ≤ n) : n.toNat < 60 :=
  Nat.lt_of_not_le fun hle ↦ h (UInt32.le_iff_toNat_le.mpr hle)

theorem not_sixty_le {n : UInt32} (h : n.toNat < 60) : ¬60 ≤ n :=
  fun hle ↦ Nat.not_le.mpr h (UInt32.le_iff_toNat_le.mp hle)

/-- Hours, minutes and seconds that are taken are in range, in whichever form they are written, and
make up what was written. -/
theorem exists_of_clock {hours minutes seconds : UInt32}
    (h : clock text = .ok (hours, minutes, seconds) rest) :
    ∃ ds, text = ds ++ rest ∧
      Clock ds (60 * (60 * hours.toNat + minutes.toNat) + seconds.toNat) ∧
      hours.toNat ≤ 2147483647 ∧ minutes.toNat < 60 ∧ seconds.toNat < 60 := by
  obtain ⟨first, t, hfirst, h⟩ := ok_of_bind h
  obtain ⟨colon, u, hcolon, h⟩ := ok_of_bind h
  obtain ⟨ds, htext, hds, -⟩ := exists_of_number hfirst
  have ht := eq_of_accept hcolon
  cases colon with
  | false =>
    cases h
    have hvalue : 60 * (60 * (first / 3600).toNat + (first / 60 % 60).toNat) +
        (first % 60).toNat = first.toNat := by
      simp only [UInt32.toNat_div, UInt32.toNat_mod, UInt32.reduceToNat]
      omega
    refine ⟨ds, by rw [htext, ht]; rfl, hvalue.symm ▸ .seconds hds, ?_, ?_, ?_⟩
    · rw [UInt32.toNat_div]
      exact Nat.le_trans (Nat.div_le_self _ _) hds.value_le
    · rw [UInt32.toNat_mod]
      exact Nat.mod_lt _ (by decide)
    · rw [UInt32.toNat_mod]
      exact Nat.mod_lt _ (by decide)
  | true =>
    rw [if_pos rfl] at h ht
    obtain ⟨second, v, hsecond, h⟩ := ok_of_bind h
    obtain ⟨hasHours, w, haccept, h⟩ := ok_of_bind h
    obtain ⟨ds', hu, hds', -⟩ := exists_of_number hsecond
    have hv := eq_of_accept haccept
    split at h
    · cases h
    next hrange =>
    have hsixty := lt_sixty hrange
    cases hasHours with
    | true =>
      rw [if_pos rfl] at h hv
      obtain ⟨third, x, hthird, h⟩ := ok_of_bind h
      obtain ⟨ds'', hw, hds'', -⟩ := exists_of_number hthird
      split at h
      · cases h
      next hrange' =>
      have hsixty' := lt_sixty hrange'
      cases h
      exact ⟨ds ++ ':' :: (ds' ++ ':' :: ds''), by simp [htext, ht, hu, hv, hw],
        .hours hds hds' hsixty hds'' hsixty', hds.value_le, hsixty, hsixty'⟩
    | false =>
      rw [if_neg (by decide)] at h
      split at h
      · cases h
      next hrange' =>
      have hsixty' := lt_sixty hrange'
      cases h
      refine ⟨ds ++ ':' :: ds', by simp [htext, ht, hu, hv], ?_, Nat.zero_le _, hsixty', hsixty⟩
      simpa using Clock.minutes hds hsixty' hds' hsixty

/-- A clock is taken as what it denotes, if it does not go on. -/
theorem clock_of_clock (h : Clock text n) (hrest : ∀ c ∈ rest.head?, ¬c.isDigit ∧ c ≠ ':') :
    ∃ hours minutes seconds, clock (text ++ rest) = .ok (hours, minutes, seconds) rest ∧
      60 * (60 * hours.toNat + minutes.toNat) + seconds.toNat = n := by
  have hcolon := @not_of_head?_cons Char.isDigit ':' (by decide)
  have hdigit : ∀ c ∈ rest.head?, ¬c.isDigit := fun c hc ↦ (hrest c hc).1
  have hend : accept ':' rest = .ok false rest := accept_of_head fun c hc ↦ (hrest c hc).2
  cases h with
  | seconds hs =>
    obtain ⟨first, hfirst, rfl⟩ := number_of_numeral hs hdigit
    refine ⟨first / 3600, first / 60 % 60, first % 60, ?_, ?_⟩
    · rw [clock, bind_of_ok hfirst, bind_of_ok hend]
      rfl
    · simp only [UInt32.toNat_div, UInt32.toNat_mod, UInt32.reduceToNat]
      omega
  | @minutes ds ds' m s hm hm60 hs hs60 =>
    obtain ⟨first, hfirst, rfl⟩ := number_of_numeral hm (hcolon (ds' ++ rest))
    obtain ⟨second, hsecond, rfl⟩ := number_of_numeral hs hdigit
    refine ⟨0, first, second, ?_, by simp⟩
    rw [List.append_assoc, List.cons_append, clock, bind_of_ok hfirst, bind_of_ok (accept_self _ _),
      if_pos rfl, bind_of_ok hsecond, bind_of_ok hend, if_neg (not_sixty_le hs60), if_neg (by decide),
      if_neg (not_sixty_le hm60)]
    rfl
  | @hours ds ds' ds'' h m s hh hm hm60 hs hs60 =>
    obtain ⟨first, hfirst, rfl⟩ := number_of_numeral hh (hcolon (ds' ++ ':' :: (ds'' ++ rest)))
    obtain ⟨second, hsecond, rfl⟩ := number_of_numeral hm (hcolon (ds'' ++ rest))
    obtain ⟨third, hthird, rfl⟩ := number_of_numeral hs hdigit
    refine ⟨first, second, third, ?_, rfl⟩
    rw [List.append_assoc, List.cons_append, List.append_assoc, List.cons_append, clock,
      bind_of_ok hfirst, bind_of_ok (accept_self _ _), if_pos rfl, bind_of_ok hsecond,
      bind_of_ok (accept_self _ _), if_neg (not_sixty_le hm60), if_pos rfl, bind_of_ok hthird,
      if_neg (not_sixty_le hs60)]
    rfl

/-! ## Fractions -/

/-- What is less than a second fits into a word. -/
theorem toNat_mul_of_lt {a b : UInt32} (h : a.toNat * b.toNat < 1000) :
    (a * b).toNat = a.toNat * b.toNat := by
  rw [UInt32.toNat_mul]
  exact Nat.mod_eq_of_lt (Nat.lt_trans h (by decide))

/-- Milliseconds that are taken are what was written after the point. -/
theorem exists_of_fraction {ms : UInt32} (h : fraction text = .ok ms rest) :
    ∃ ds, text = ds ++ rest ∧ Fraction ds ms.toNat := by
  obtain ⟨point, t, hpoint, h⟩ := ok_of_bind h
  have htext := eq_of_accept hpoint
  cases point with
  | false =>
    cases h
    exact ⟨[], htext, .none⟩
  | true =>
    rw [if_pos rfl] at h htext
    rw [bind_get] at h
    obtain ⟨value, u, hvalue, h⟩ := ok_of_bind h
    obtain ⟨ds, ht, hds, hrest⟩ := exists_of_number hvalue
    rw [ht, takeWhile_append_of_head hds.isDigit hrest] at h
    have htext : text = '.' :: ds ++ u := by rw [htext, ht, List.cons_append]
    have hbound : value.toNat < Nat.pow 10 ds.length := hds.value_eq ▸ ofDigitChars_lt hds.isDigit
    have hfraction : ds.length ≤ 3 →
        Fraction ('.' :: ds) (value.toNat * Nat.pow 10 (3 - ds.length)) :=
      fun hlength ↦ hds.value_eq ▸ .places hds.ne_nil hds.isDigit hlength
    generalize ds.length = places at h hbound hfraction
    match places with
    | 1 =>
      cases h
      have hbound : value.toNat < 10 := hbound
      have hvalue : (value * 100).toNat = value.toNat * 100 :=
        toNat_mul_of_lt (b := 100) (show value.toNat * 100 < 1000 by omega)
      exact ⟨'.' :: ds, htext, hvalue ▸ hfraction (by decide)⟩
    | 2 =>
      cases h
      have hbound : value.toNat < 100 := hbound
      have hvalue : (value * 10).toNat = value.toNat * 10 :=
        toNat_mul_of_lt (b := 10) (show value.toNat * 10 < 1000 by omega)
      exact ⟨'.' :: ds, htext, hvalue ▸ hfraction (by decide)⟩
    | 3 =>
      cases h
      exact ⟨'.' :: ds, htext, by simpa using hfraction (by decide)⟩
    | 0 => cases h
    | _ + 4 => cases h

/-- A fraction is taken as what it denotes, if it does not go on. -/
theorem fraction_of_fraction (h : Fraction text n)
    (hrest : ∀ c ∈ rest.head?, ¬c.isDigit ∧ c ≠ '.') :
    ∃ ms : UInt32, fraction (text ++ rest) = .ok ms rest ∧ ms.toNat = n := by
  cases h with
  | none =>
    refine ⟨0, ?_, rfl⟩
    rw [List.nil_append, fraction, bind_of_ok (accept_of_head fun c hc ↦ (hrest c hc).2)]
    rfl
  | @places ds hne hds hlength =>
    have hdigit : ∀ c ∈ rest.head?, ¬c.isDigit := fun c hc ↦ (hrest c hc).1
    have hbound := ofDigitChars_lt hds
    have hsmall : Nat.pow 10 ds.length ≤ 10 ^ 3 := Nat.pow_le_pow_right (by decide) hlength
    obtain ⟨value, hnumber, hvalue⟩ :=
      number_of_numeral (n := Nat.ofDigitChars 10 ds 0) ⟨hne, hds, rfl, by omega⟩ hdigit
    have hpos := List.length_pos_iff.mpr hne
    rw [List.cons_append, fraction, bind_of_ok (accept_self _ _), if_pos rfl, bind_get,
      takeWhile_append_of_head hds hdigit]
    rw [← hvalue] at hbound ⊢
    generalize ds.length = places at hlength hbound hpos
    match places with
    | 1 =>
      have hbound : value.toNat < 10 := hbound
      exact ⟨value * 100, bind_of_ok hnumber,
        toNat_mul_of_lt (b := 100) (show value.toNat * 100 < 1000 by omega)⟩
    | 2 =>
      have hbound : value.toNat < 100 := hbound
      exact ⟨value * 10, bind_of_ok hnumber,
        toNat_mul_of_lt (b := 10) (show value.toNat * 10 < 1000 by omega)⟩
    | 3 => exact ⟨value, bind_of_ok hnumber, by simp⟩

/-! ## Timestamps -/

/-- A timestamp that is taken is a clock and a fraction behind blanks. -/
theorem exists_clock_of_timestamp {t : Time} (h : timestamp text = .ok t rest) :
    ∃ u, clock (text.dropWhile isBlank) = .ok (t.hours, t.minutes, t.seconds) u ∧
      fraction u = .ok t.milliseconds rest := by
  rw [timestamp, bind_blanks] at h
  obtain ⟨⟨hours, minutes, seconds⟩, u, hclock, h⟩ := ok_of_bind h
  obtain ⟨milliseconds, v, hfraction, h⟩ := ok_of_bind h
  rw [bind_get] at h
  split at h
  · cases h
    exact ⟨u, hclock, hfraction⟩
  · split at h
    · cases h
      exact ⟨u, hclock, hfraction⟩
    · cases h

/-- A clock and a fraction behind blanks are taken up to a blank or the end. -/
theorem timestamp_of_clock {t : Time} {u : List Char}
    (hclock : clock (text.dropWhile isBlank) = .ok (t.hours, t.minutes, t.seconds) u)
    (hfraction : fraction u = .ok t.milliseconds rest) (hrest : ∀ c ∈ rest.head?, isBlank c) :
    timestamp text = .ok t rest := by
  rw [timestamp, bind_blanks, bind_of_ok hclock]
  refine (bind_of_ok hfraction).trans ?_
  rw [bind_get]
  cases rest with
  | nil => rfl
  | cons c rest =>
    dsimp only
    rw [if_pos (hrest c rfl)]
    rfl

/-- A time that is taken has the offset that was written. -/
theorem exists_of_timestamp {t : Time} (h : timestamp text = .ok t rest) :
    ∃ p, text = p ++ rest ∧ Denotes p t.offset := by
  obtain ⟨u, hclock, hfraction⟩ := exists_clock_of_timestamp h
  obtain ⟨ds, hskipped, hds, -⟩ := exists_of_clock hclock
  obtain ⟨ds', hu, hds'⟩ := exists_of_fraction hfraction
  refine ⟨text.takeWhile isBlank ++ (ds ++ (ds' ++ [])), ?_, ?_⟩
  · rw [List.append_nil, List.append_assoc, List.append_assoc, ← hu, ← hskipped,
      List.takeWhile_append_dropWhile]
  · rw [Time.offset_mk]
    exact .mk (fun c hc ↦ List.mem_takeWhile_imp hc) hds hds' (List.forall_mem_nil _)

/-- A timestamp is taken up to a blank or the end, as a time that has the offset written. -/
theorem timestamp_of_denotes {before clock fraction : List Char} {s ms : Nat}
    (hbefore : ∀ c ∈ before, isBlank c) (hclock : Clock clock s) (hfraction : Fraction fraction ms)
    (hrest : ∀ c ∈ rest.head?, isBlank c) :
    ∃ t : Time, timestamp (before ++ (clock ++ (fraction ++ rest))) = .ok t rest ∧
      t.offset = 1000 * s + ms := by
  have hafter : ∀ c ∈ rest.head?, ¬c.isDigit ∧ c ≠ '.' := by
    intro c hc
    refine ⟨not_isDigit_of_isBlank (hrest c hc), ?_⟩
    rintro rfl
    exact absurd (hrest '.' hc) (by decide)
  have hbetween : ∀ c ∈ (fraction ++ rest).head?, ¬c.isDigit ∧ c ≠ ':' := by
    cases hfraction with
    | none =>
      intro c hc
      refine ⟨(hafter c hc).1, ?_⟩
      rintro rfl
      exact absurd (hrest ':' hc) (by decide)
    | places =>
      rintro _ ⟨⟩
      decide
  have hstart : ∀ c ∈ (clock ++ (fraction ++ rest)).head?, ¬isBlank c :=
    fun c hc hblank ↦ not_isDigit_of_isBlank hblank (hclock.isDigit_of_head? _ c hc)
  obtain ⟨hours, minutes, seconds, hscan, rfl⟩ := clock_of_clock hclock hbetween
  obtain ⟨milliseconds, hscan', rfl⟩ := fraction_of_fraction hfraction hafter
  refine ⟨{ hours, minutes, seconds, milliseconds }, ?_, Time.offset_mk ..⟩
  refine timestamp_of_clock ?_ hscan' hrest
  rwa [dropWhile_append_of_head hbefore hstart]

end Scan

end WebVTT
