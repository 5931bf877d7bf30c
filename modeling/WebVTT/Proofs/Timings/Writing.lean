import WebVTT.Proofs.Timings.Timestamp
import WebVTT.Timings.Basic

/-!
# Timings lines are read as they were written

A timings line is written with both times in full, an arrow between them, and the settings after
them, each behind a blank. It is read as these times and settings (`Timings.parse_line`) whatever
the settings are, as long as they are tokens with a name and a value: later arrows do not count, and
neither do digits, points and letters of any script within a token.
-/

namespace WebVTT

/-- A time that can be read: minutes, seconds and milliseconds are those of a clock, and hours are
within the limit on numbers. -/
structure Time.Readable (t : Time) : Prop where
  hours_le : t.hours.toNat ≤ 2147483647
  minutes_lt : t.minutes.toNat < 60
  seconds_lt : t.seconds.toNat < 60
  milliseconds_lt : t.milliseconds.toNat < 1000

/-- A setting that can be read: its parts are not empty, and have neither blanks nor colons. -/
structure Setting.Readable (s : Setting) : Prop where
  name_ne : s.name ≠ ""
  value_ne : s.value ≠ ""
  name_tokens : ∀ c ∈ s.name.toList, Scan.isSettingChar c
  value_tokens : ∀ c ∈ s.value.toList, Scan.isSettingChar c

/-- The text of a setting, with a blank before it. -/
def Setting.chars (s : Setting) : List Char := ' ' :: (s.name.toList ++ ':' :: s.value.toList)

/-- A timings line as it is written. -/
def Timings.line (t : Timings) : String :=
  String.ofList (t.start.chars ++ " --> ".toList ++ t.stop.chars ++
    t.settings.flatMap Setting.chars)

namespace Scan

variable {t : Time} {rest : List Char}

/-! ## Times -/

theorem chars_append (t : Time) (rest : List Char) :
    t.chars ++ rest = Time.padded 2 t.hours ++ ':' :: (Time.padded 2 t.minutes ++
      ':' :: (Time.padded 2 t.seconds ++ '.' :: (Time.padded 3 t.milliseconds ++ rest))) := by
  simp [Time.chars]

/-- A written time begins with a digit. -/
theorem isDigit_of_head?_chars {c : Char} (hc : c ∈ (t.chars ++ rest).head?) : c.isDigit := by
  obtain ⟨d, ds, hpadded⟩ := List.exists_cons_of_ne_nil (Time.padded_ne_nil 2 t.hours)
  have hd : d.isDigit := Time.isDigit_of_mem_padded (hpadded ▸ List.mem_cons_self)
  rw [chars_append, hpadded, List.cons_append, List.head?_cons] at hc
  exact Option.some.inj hc ▸ hd

/-- Hours, minutes and seconds of a clock are taken. -/
theorem clock_padded (ht : t.Readable) (hrest : ∀ c ∈ rest.head?, ¬c.isDigit) :
    clock (Time.padded 2 t.hours ++ ':' :: (Time.padded 2 t.minutes ++
      ':' :: (Time.padded 2 t.seconds ++ rest))) = .ok (t.hours, t.minutes, t.seconds) rest := by
  have hseparator := @not_of_head?_cons Char.isDigit ':' (by decide)
  have hminutes := ht.minutes_lt
  have hseconds := ht.seconds_lt
  rw [clock, bind_of_ok (number_padded 2 ht.hours_le (hseparator _)), bind_of_ok (accept_self _ _),
    if_pos rfl, bind_of_ok (number_padded 2 (by omega) (hseparator _)),
    bind_of_ok (accept_self _ _), if_neg (not_sixty_le hminutes), if_pos rfl,
    bind_of_ok (number_padded 2 (by omega) hrest), if_neg (not_sixty_le hseconds)]
  rfl

/-- Three digits after a point are milliseconds. -/
theorem fraction_padded {n : UInt32} (hn : n.toNat < 1000) (hrest : ∀ c ∈ rest.head?, ¬c.isDigit) :
    fraction ('.' :: (Time.padded 3 n ++ rest)) = .ok n rest := by
  have hdigits : (Nat.toDigits 10 n.toNat).length ≤ 3 :=
    (Nat.length_toDigits_le_iff (by decide) (by decide)).mpr hn
  have hplaces : ((Time.padded 3 n ++ rest).takeWhile Char.isDigit).length = 3 := by
    rw [takeWhile_append_of_head (fun c ↦ Time.isDigit_of_mem_padded) hrest,
      Time.length_padded hdigits]
  rw [fraction, bind_of_ok (accept_self _ _), if_pos rfl, bind_get,
    bind_of_ok (number_padded 3 (by omega) hrest), hplaces]
  rfl

/-- A written time is a timestamp up to a blank or the end. -/
theorem timestamp_chars {before : List Char} (hbefore : ∀ c ∈ before, isBlank c) (ht : t.Readable)
    (hrest : ∀ c ∈ rest.head?, isBlank c) :
    timestamp (before ++ (t.chars ++ rest)) = .ok t rest := by
  have hpoint := @not_of_head?_cons Char.isDigit '.' (by decide)
  have hdigits : ∀ c ∈ rest.head?, ¬c.isDigit :=
    fun c hc ↦ not_isDigit_of_isBlank (hrest c hc)
  have hstart : ∀ c ∈ (t.chars ++ rest).head?, ¬isBlank c :=
    fun c hc hblank ↦ not_isDigit_of_isBlank hblank (isDigit_of_head?_chars hc)
  refine timestamp_of_clock ?_ (fraction_padded ht.milliseconds_lt hdigits) hrest
  rw [dropWhile_append_of_head hbefore hstart, chars_append]
  exact clock_padded ht (hpoint _)

/-! ## Settings -/

/-- A setting begins with no blank. -/
theorem not_isBlank_of_head?_name {s : Setting} (hs : s.Readable) :
    ∀ c ∈ (s.name.toList ++ rest).head?, ¬isBlank c := by
  intro c hc hblank
  have hne : s.name.toList ≠ [] := fun h ↦ hs.name_ne (String.toList_eq_nil_iff.mp h)
  obtain ⟨first, more, hname⟩ := List.exists_cons_of_ne_nil hne
  rw [hname, List.cons_append, List.head?_cons] at hc
  obtain rfl := Option.some.inj hc
  have htoken := hs.name_tokens first (hname ▸ List.mem_cons_self)
  simp [isSettingChar, hblank] at htoken

/-- A written setting is taken up to a blank or the end. -/
theorem setting_append {s : Setting} (hs : s.Readable) (hrest : ∀ c ∈ rest.head?, isBlank c) :
    setting (s.name.toList ++ ':' :: (s.value.toList ++ rest)) = .ok s rest := by
  have hblank : ∀ c ∈ rest.head?, ¬isSettingChar c := by
    intro c hc htoken
    simp [isSettingChar, hrest c hc] at htoken
  have hcolon := @not_of_head?_cons isSettingChar ':' (by decide)
  unfold setting
  rw [takeWhile_append_of_head hs.name_tokens (hcolon _),
    dropWhile_append_of_head hs.name_tokens (hcolon _)]
  split
  · next text htext =>
    obtain rfl := (List.cons.inj htext).2
    have hleft : rest.head? ≠ some ':' := by
      intro hcolon
      exact absurd (hrest ':' hcolon) (by decide)
    dsimp only
    rw [takeWhile_append_of_head hs.value_tokens hblank,
      dropWhile_append_of_head hs.value_tokens hblank, if_neg, if_neg hleft, if_neg]
    · rw [String.ofList_toList, String.ofList_toList]
    · simpa using hs.value_ne
    · simpa using hs.name_ne
  · next hne => exact absurd rfl (hne _)

/-- Written settings begin with a blank, if there are any. -/
theorem isBlank_of_head?_flatMap (ss : List Setting) :
    ∀ c ∈ (ss.flatMap Setting.chars).head?, isBlank c := by
  cases ss with
  | nil => simp
  | cons s ss =>
    rintro c ⟨⟩
    rfl

/-- Written settings are taken up to the end. -/
theorem settingsAfter_flatMap {ss : List Setting} (hss : ∀ s ∈ ss, s.Readable)
    (found : Array Setting) :
    settingsAfter found (ss.flatMap Setting.chars) = .ok (found.toList ++ ss) [] := by
  induction ss generalizing found with
  | nil =>
    rw [settingsAfter]
    simp
  | cons s ss ih =>
    obtain ⟨hs, hss⟩ := List.forall_mem_cons.mp hss
    have htaken := setting_append hs (isBlank_of_head?_flatMap ss)
    have hskip : ((s :: ss).flatMap Setting.chars).dropWhile isBlank =
        s.name.toList ++ ':' :: (s.value.toList ++ ss.flatMap Setting.chars) := by
      rw [List.flatMap_cons, Setting.chars, List.cons_append, List.append_assoc, List.cons_append,
        List.dropWhile_cons_of_pos (by decide)]
      exact @dropWhile_append_of_head isBlank [] _ (by simp)
        (not_isBlank_of_head?_name hs)
    rw [settingsAfter, hskip, if_neg (by simp)]
    split
    · next s' left htaken' =>
      rw [htaken] at htaken'
      cases htaken'
      rw [ih hss, Array.toList_push, List.append_assoc, List.singleton_append]
    · next fault left htaken' =>
      rw [htaken] at htaken'
      cases htaken'

end Scan

namespace Timings

/-! ## Arrows -/

/-- The first arrow is found behind characters none of which is a hyphen. -/
theorem splitArrow_append {before passed : List Char} (hbefore : '-' ∉ before) (rest : List Char) :
    splitArrow passed (before ++ '-' :: '-' :: '>' :: rest) =
      some (passed.reverse ++ before, rest) := by
  induction before generalizing passed with
  | nil => rw [List.nil_append, splitArrow, List.append_nil]
  | cons c before ih =>
    obtain ⟨hc, hbefore⟩ := List.ne_and_not_mem_of_not_mem_cons hbefore
    have hstep : splitArrow passed (c :: (before ++ '-' :: '-' :: '>' :: rest)) =
        splitArrow (c :: passed) (before ++ '-' :: '-' :: '>' :: rest) := by
      rw [splitArrow]
      rintro _ rfl
      exact absurd rfl hc
    rw [List.cons_append, hstep, ih hbefore, List.reverse_cons, List.append_assoc,
      List.singleton_append]

/-- An arrow is found wherever there is one. -/
theorem isSome_splitArrow_iff (passed text : List Char) :
    (splitArrow passed text).isSome ↔ ['-', '-', '>'] <:+: text := by
  fun_induction splitArrow passed text with
  | case1 passed rest => exact iff_of_true rfl ⟨[], rest, rfl⟩
  | case2 passed c rest hno ih =>
    rw [ih, List.infix_cons_iff]
    constructor
    · exact .inr
    · rintro (⟨more, hmore⟩ | h)
      · obtain ⟨rfl, hrest⟩ := List.cons.inj hmore
        exact absurd hrest.symm (hno more rfl)
      · exact h
  | case3 => simp

/-- A line holds an arrow wherever it holds two hyphens and a greater-than sign. -/
theorem hasArrow_iff (line : String) : hasArrow line ↔ "-->".toList <:+: line.toList :=
  isSome_splitArrow_iff [] line.toList

/-! ## Lines -/

variable {t : Timings}

/-- A written time is made of digits, colons and a point. -/
theorem forall_mem_chars {P : Char → Prop} (hdigit : ∀ c : Char, c.isDigit → P c) (hcolon : P ':')
    (hpoint : P '.') (t : Time) : ∀ c ∈ t.chars, P c := by
  have hpadded : ∀ width n, ∀ c ∈ Time.padded width n, P c :=
    fun width n c hc ↦ hdigit c (Time.isDigit_of_mem_padded hc)
  simp only [Time.chars, List.forall_mem_append, List.forall_mem_cons]
  exact ⟨⟨⟨hpadded _ _, hcolon, hpadded _ _⟩, hcolon, hpadded _ _⟩, hpoint, hpadded _ _⟩

theorem toList_line (t : Timings) :
    t.line.toList = (t.start.chars ++ [' ']) ++ '-' :: '-' :: '>' ::
      (' ' :: (t.stop.chars ++ t.settings.flatMap Setting.chars)) := by
  rw [line, String.toList_ofList]
  simp

/-- A written line is split between the times. -/
theorem splitArrow_line (t : Timings) :
    splitArrow [] t.line.toList = some (t.start.chars ++ [' '],
      ' ' :: (t.stop.chars ++ t.settings.flatMap Setting.chars)) := by
  have hhyphen : ∀ c ∈ t.start.chars, c ≠ '-' := by
    refine forall_mem_chars ?_ (by decide) (by decide) t.start
    rintro c hc rfl
    exact absurd hc (by decide)
  have hhead : '-' ∉ t.start.chars ++ [' '] := by
    simpa using fun h ↦ hhyphen '-' h rfl
  rw [toList_line, splitArrow_append hhead]
  rfl

/-- A written line has an arrow. -/
theorem hasArrow_line (t : Timings) : hasArrow t.line := by
  rw [hasArrow, splitArrow_line]
  rfl

/-- A written line says what was written. -/
theorem parse_line (hstart : t.start.Readable) (hstop : t.stop.Readable)
    (hsettings : ∀ s ∈ t.settings, s.Readable) : parse t.line = .ok t := by
  have hhead : scanHead.of (t.start.chars ++ [' ']) = .ok t.start := by
    have htime : Scan.timestamp (t.start.chars ++ [' ']) = .ok t.start [' '] :=
      @Scan.timestamp_chars _ _ [] (by simp) hstart (by rintro c ⟨⟩; rfl)
    rw [Scan.of, scanHead, Scan.bind_of_ok htime]
    rfl
  have htail : scanTail.of (' ' :: (t.stop.chars ++ t.settings.flatMap Setting.chars)) =
      .ok (t.stop, t.settings) := by
    have htime : Scan.timestamp (' ' :: (t.stop.chars ++ t.settings.flatMap Setting.chars)) =
        .ok t.stop (t.settings.flatMap Setting.chars) :=
      @Scan.timestamp_chars _ _ [' '] (by simp [isBlank]) hstop (Scan.isBlank_of_head?_flatMap _)
    have htokens : Scan.settings (t.settings.flatMap Setting.chars) = .ok t.settings [] :=
      Scan.settingsAfter_flatMap hsettings #[]
    rw [Scan.of, scanTail, Scan.bind_of_ok htime, Scan.bind_of_ok htokens]
    rfl
  rw [parse, splitArrow_line]
  dsimp only
  rw [hhead, htail]
  rfl

end Timings

end WebVTT
