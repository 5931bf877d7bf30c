import WebVTT.Proofs.Timings.Locality
import WebVTT.Proofs.Timings.Settings

/-!
# The grammar of timings lines

What a line gives is said here without a scan (`Timings.Outcome`): the first arrow cuts it in two,
the text before the arrow is a time, and the text after it is a time, a blank or the end, and
settings. What is refused is refused for the first of these that fails, and parsing a line gives
just that (`Timings.parse_eq_iff_outcome`).
-/

namespace WebVTT

namespace Timings

variable {line head tail p s : String}

/-! ## The arrow -/

/-- The first arrow of a line stands between these texts. -/
def FirstArrow (line head tail : String) : Prop :=
  line = head ++ "-->" ++ tail ∧ ¬"-->".toList <:+: head.toList

/-- The arrow found is the first. -/
theorem splitArrow_eq_some_iff {passed text before rest : List Char} :
    splitArrow passed text = some (before, rest) ↔ ∃ new, before = passed.reverse ++ new ∧
      text = new ++ '-' :: '-' :: '>' :: rest ∧ ¬['-', '-', '>'] <:+: new := by
  fun_induction splitArrow passed text with
  | case1 passed more =>
    constructor
    · rintro ⟨⟩
      refine ⟨[], by rw [List.append_nil], rfl, ?_⟩
      exact fun hinfix ↦ List.cons_ne_nil _ _ (List.infix_nil.mp hinfix)
    · rintro ⟨new, rfl, htext, hnew⟩
      rcases new with _ | ⟨a, _ | ⟨b, _ | ⟨c, new⟩⟩⟩
      · cases htext
        rw [List.append_nil]
      · simp at htext
      · simp at htext
      · obtain ⟨rfl, rfl, rfl, -⟩ : '-' = a ∧ '-' = b ∧ '>' = c ∧ _ := by simpa using htext
        exact absurd ⟨[], new, rfl⟩ hnew
  | case2 passed c more hno ih =>
    rw [ih]
    constructor
    · rintro ⟨new, rfl, rfl, hnew⟩
      refine ⟨c :: new, by simp, rfl, ?_⟩
      rw [List.infix_cons_iff]
      rintro (⟨after, hafter⟩ | hinfix)
      · obtain ⟨rfl, rfl⟩ := List.cons.inj hafter
        exact hno (after ++ '-' :: '-' :: '>' :: rest) rfl rfl
      · exact hnew hinfix
    · rintro ⟨new, rfl, htext, hnew⟩
      cases new with
      | nil =>
        obtain ⟨rfl, rfl⟩ := List.cons.inj htext
        exact absurd rfl (hno rest rfl)
      | cons d new =>
        obtain ⟨rfl, rfl⟩ := List.cons.inj htext
        exact ⟨new, by simp, rfl, fun hinfix ↦ hnew (List.infix_cons hinfix)⟩
  | case3 passed => simp

theorem FirstArrow.splitArrow_eq (h : FirstArrow line head tail) :
    splitArrow [] line.toList = some (head.toList, tail.toList) := by
  obtain ⟨rfl, hhead⟩ := h
  refine splitArrow_eq_some_iff.mpr ⟨head.toList, rfl, ?_, hhead⟩
  rw [String.toList_append, String.toList_append, List.append_assoc]
  rfl

/-- Where there is an arrow, there is a first. -/
theorem exists_firstArrow (h : "-->".toList <:+: line.toList) :
    ∃ head tail, FirstArrow line head tail := by
  have hsome := (isSome_splitArrow_iff [] line.toList).mpr h
  obtain ⟨⟨before, rest⟩, hsplit⟩ := Option.isSome_iff_exists.mp hsome
  obtain ⟨new, -, hline, hnew⟩ := splitArrow_eq_some_iff.mp hsplit
  refine ⟨String.ofList new, String.ofList rest, ?_, ?_⟩
  · rw [← String.toList_inj, hline]
    simp
  · rw [String.toList_ofList (l := new)]
    exact hnew

/-! ## The start time -/

/-- Behind a time and blanks, the text goes on with this character. -/
def Separated (head : String) (c : Char) : Prop :=
  ∃ (p : String) (t : Time) (between rest : List Char), Time.parse p = .ok t ∧
    head.toList = p.toList ++ (between ++ c :: rest) ∧ between ≠ [] ∧
    (∀ b ∈ between, isBlank b) ∧ ¬isBlank c

theorem of_scanHead (text : List Char) :
    scanHead.of text = match Scan.timestamp text with
      | .ok t rest =>
        match rest.dropWhile isBlank with
        | [] => .ok t
        | _ :: _ => .error .junkBeforeArrow
      | .error fault _ => .error fault := by
  unfold scanHead
  rw [Scan.of_bind]
  cases Scan.timestamp text with
  | ok t rest =>
    dsimp only
    unfold Scan.of
    rw [Scan.bind_blanks, Scan.bind_get]
    cases rest.dropWhile isBlank <;> rfl
  | error fault rest => rfl

/-- Text behind a time and blanks is no part of the time. -/
theorem Separated.refused {c : Char} (h : Separated head c) :
    Time.parse head = .error (.trailingCharacter c) ∧
      scanHead.of head.toList = .error .junkBeforeArrow := by
  obtain ⟨p, t, between, rest, hparse, hhead, hne, hbetween, hc⟩ := h
  obtain ⟨left, htime, hleft⟩ := Scan.exists_of_parse hparse
  have hmore : BlankNext (between ++ c :: rest) := by
    obtain ⟨b, between, rfl⟩ := List.exists_cons_of_ne_nil hne
    rintro _ ⟨⟩
    exact hbetween b List.mem_cons_self
  have hblanks : ∀ b ∈ left ++ between, isBlank b :=
    List.forall_mem_append.mpr ⟨List.dropWhile_eq_nil_iff.mp hleft, hbetween⟩
  have hdrop : (left ++ (between ++ c :: rest)).dropWhile isBlank = c :: rest := by
    rw [← List.append_assoc]
    refine Scan.dropWhile_append_of_head hblanks ?_
    rintro _ ⟨⟩
    exact hc
  unfold Time.parse
  rw [hhead, Scan.of_loneTimestamp, of_scanHead, Scan.timestamp_append htime hmore]
  dsimp only
  rw [hdrop]
  exact ⟨rfl, rfl⟩

/-- Before an arrow, and by itself, a text is the same time, or is refused for the same reason,
unless more text is separated from the time. -/
theorem of_scanHead_eq (h : ∀ c, ¬Separated head c) :
    scanHead.of head.toList = Time.parse head := by
  unfold Time.parse
  rw [Scan.of_loneTimestamp, of_scanHead]
  cases htime : Scan.timestamp head.toList with
  | error fault rest => rfl
  | ok t left =>
    dsimp only
    cases hleft : left.dropWhile isBlank with
    | nil => rfl
    | cons c rest =>
      have htime' : Scan.timestamp head.toList = .ok t (String.ofList left).toList := by
        rw [String.toList_ofList, htime]
      obtain ⟨p, rfl, -, hparse, hnext⟩ := Scan.timestamp_eq_ok_iff.mp htime'
      rw [String.toList_ofList] at hnext
      have hc := List.head?_dropWhile_not isBlank left
      rw [hleft] at hc
      refine absurd ⟨p, t, left.takeWhile isBlank, rest, hparse, ?_, ?_, ?_, ?_⟩ (h c)
      · rw [← hleft, List.takeWhile_append_dropWhile, String.toList_append, String.toList_ofList]
      · obtain ⟨b, left, rfl⟩ : ∃ b more, left = b :: more := by
          refine List.exists_cons_of_ne_nil ?_
          rintro rfl
          cases hleft
        rw [List.takeWhile_cons_of_pos (hnext b rfl)]
        exact List.cons_ne_nil _ _
      · exact fun b hb ↦ List.mem_takeWhile_imp hb
      · simpa using hc

/-- A time in its own right is one before an arrow. -/
theorem of_scanHead_eq_ok {start : Time} (h : Time.parse head = .ok start) :
    scanHead.of head.toList = .ok start := by
  rw [of_scanHead_eq, h]
  intro c hc
  cases h.symm.trans hc.refused.1

/-! ## The stop time and the settings -/

/-- The text falls into a time that does not end with a blank and into a text that is empty or
begins with one. -/
structure Stops (tail p s : String) (stop : Time) : Prop where
  tail_eq : tail = p ++ s
  last : ∀ c ∈ p.toList.getLast?, ¬isBlank c
  parse_eq : Time.parse p = .ok stop
  next : BlankNext s.toList

/-- Such a time is the timestamp at the front of the text. -/
theorem stops_iff {stop : Time} :
    Stops tail p s stop ↔ tail = p ++ s ∧ Scan.timestamp tail.toList = .ok stop s.toList := by
  constructor
  · intro h
    exact ⟨h.tail_eq, Scan.timestamp_eq_ok_iff.mpr ⟨p, h.tail_eq, h.last, h.parse_eq, h.next⟩⟩
  · rintro ⟨rfl, htime⟩
    obtain ⟨p', hp, hlast, hparse, hnext⟩ := Scan.timestamp_eq_ok_iff.mp htime
    obtain rfl : p = p' := by simpa using hp
    exact ⟨rfl, hlast, hparse, hnext⟩

theorem exists_stops {stop : Time} {rest : List Char}
    (h : Scan.timestamp tail.toList = .ok stop rest) :
    ∃ p s, Stops tail p s stop ∧ s.toList = rest := by
  have htime : Scan.timestamp tail.toList = .ok stop (String.ofList rest).toList := by
    rw [String.toList_ofList, h]
  obtain ⟨p, htail, hlast, hparse, hnext⟩ := Scan.timestamp_eq_ok_iff.mp htime
  exact ⟨p, _, ⟨htail, hlast, hparse, hnext⟩, String.toList_ofList⟩

/-- Where there is no such time, the timestamp at the front of the text is what is wrong with it. -/
theorem timestamp_of_no_stop {fault : TimingFault} (hno : ∀ p s stop, ¬Stops tail p s stop)
    (h : Time.parse tail = .error fault) :
    ∃ rest, Scan.timestamp tail.toList = .error fault rest := by
  unfold Time.parse at h
  rw [Scan.of_loneTimestamp] at h
  cases htime : Scan.timestamp tail.toList with
  | ok stop rest =>
    obtain ⟨p, s, hstops, -⟩ := exists_stops htime
    exact absurd hstops (hno p s stop)
  | error fault' rest =>
    rw [htime] at h
    cases h
    exact ⟨rest, rfl⟩

theorem of_scanTail (text : List Char) :
    scanTail.of text = match Scan.timestamp text with
      | .ok stop rest =>
        match Scan.settings rest with
        | .ok settings _ => .ok (stop, settings)
        | .error fault _ => .error fault
      | .error fault _ => .error fault := by
  unfold scanTail
  rw [Scan.of_bind]
  cases Scan.timestamp text with
  | error fault rest => rfl
  | ok stop rest =>
    dsimp only
    rw [Scan.of_bind]
    cases Scan.settings rest <;> rfl

/-! ## Lines -/

/-- What a line gives: the first thing that is wrong with it, if anything is. -/
inductive Outcome (line : String) : Except TimingFault Timings → Prop where
  /-- No arrow stands in the line. -/
  | missingArrow : ¬"-->".toList <:+: line.toList → Outcome line (.error .missingArrow)
  /-- The text before the arrow is a time, blanks and more text. -/
  | junkBeforeArrow {head tail : String} {c : Char} : FirstArrow line head tail →
      Separated head c → Outcome line (.error .junkBeforeArrow)
  /-- The text before the arrow is no time in another way. -/
  | startFault {head tail : String} {fault : TimingFault} : FirstArrow line head tail →
      (∀ c, ¬Separated head c) → Time.parse head = .error fault → Outcome line (.error fault)
  /-- The text after the arrow does not begin with a time. -/
  | stopFault {head tail : String} {start : Time} {fault : TimingFault} :
      FirstArrow line head tail → Time.parse head = .ok start →
      (∀ p s stop, ¬Stops tail p s stop) → Time.parse tail = .error fault →
      Outcome line (.error fault)
  /-- A run after the stop time is not a name and a value. -/
  | settingFault {head tail p s : String} {start stop : Time} {fault : TimingFault} :
      FirstArrow line head tail → Time.parse head = .ok start → Stops tail p s stop →
      (runs s.toList).findSome? runFault? = some fault → Outcome line (.error fault)
  /-- Nothing is wrong with the line. -/
  | timings {head tail p s : String} {start stop : Time} {settings : List Setting} :
      FirstArrow line head tail → Time.parse head = .ok start → Stops tail p s stop →
      runs s.toList = settings.map (fun s ↦ s.text.toList) → (∀ s ∈ settings, s.Paired) →
      Outcome line (.ok { start, stop, settings })

theorem FirstArrow.parse_eq (h : FirstArrow line head tail) :
    parse line = scanHead.of head.toList >>= fun start ↦
      scanTail.of tail.toList >>= fun (stop, settings) ↦ .ok { start, stop, settings } := by
  unfold parse
  rw [h.splitArrow_eq]
  rfl

theorem Outcome.parse_eq {result : Except TimingFault Timings} (h : Outcome line result) :
    parse line = result := by
  cases h with
  | missingArrow harrow =>
    have hsplit : splitArrow [] line.toList = none := by
      rw [← Option.not_isSome_iff_eq_none, isSome_splitArrow_iff]
      exact harrow
    unfold parse
    rw [hsplit]
  | junkBeforeArrow hfirst hjunk =>
    rw [hfirst.parse_eq, hjunk.refused.2]
    rfl
  | startFault hfirst hno hhead =>
    rw [hfirst.parse_eq, of_scanHead_eq hno, hhead]
    rfl
  | stopFault hfirst hhead hno htail =>
    obtain ⟨rest, htime⟩ := timestamp_of_no_stop hno htail
    rw [hfirst.parse_eq, of_scanHead_eq_ok hhead, of_scanTail, htime]
    rfl
  | settingFault hfirst hhead hstops hfault =>
    obtain ⟨-, htime⟩ := stops_iff.mp hstops
    obtain ⟨left, hsettings⟩ := Scan.settings_eq_error_iff.mpr hfault
    rw [hfirst.parse_eq, of_scanHead_eq_ok hhead, of_scanTail, htime]
    dsimp only
    rw [hsettings]
    rfl
  | timings hfirst hhead hstops hruns hpaired =>
    obtain ⟨-, htime⟩ := stops_iff.mp hstops
    have hsettings := Scan.settings_eq_ok_iff.mpr ⟨hruns, hpaired⟩
    rw [hfirst.parse_eq, of_scanHead_eq_ok hhead, of_scanTail, htime]
    dsimp only
    rw [hsettings]
    rfl

/-- Every text after an arrow gives a stop time and settings, or a fault of the one or the other. -/
theorem FirstArrow.exists_outcome_of_start {start : Time} (hfirst : FirstArrow line head tail)
    (hhead : Time.parse head = .ok start) : ∃ result, Outcome line result := by
  cases htime : Scan.timestamp tail.toList with
  | error fault rest =>
    refine ⟨.error fault, .stopFault hfirst hhead (fun p s stop hstops ↦ ?_) ?_⟩
    · cases htime.symm.trans (stops_iff.mp hstops).2
    · unfold Time.parse
      rw [Scan.of_loneTimestamp, htime]
  | ok stop rest =>
    obtain ⟨p, s, hstops, -⟩ := exists_stops htime
    rcases Scan.settingsAfter_cases #[] s.toList with
      ⟨settings, hruns, hpaired, -⟩ | ⟨fault, left, hfault, -⟩
    · exact ⟨_, .timings hfirst hhead hstops hruns hpaired⟩
    · exact ⟨_, .settingFault hfirst hhead hstops hfault⟩

/-- Every line gives something. -/
theorem exists_outcome (line : String) : ∃ result, Outcome line result := by
  by_cases harrow : "-->".toList <:+: line.toList
  · obtain ⟨head, tail, hfirst⟩ := exists_firstArrow harrow
    by_cases hjunk : ∃ c, Separated head c
    · obtain ⟨c, hjunk⟩ := hjunk
      exact ⟨_, .junkBeforeArrow hfirst hjunk⟩
    · cases hhead : Time.parse head with
      | error fault => exact ⟨_, .startFault hfirst (not_exists.mp hjunk) hhead⟩
      | ok start => exact hfirst.exists_outcome_of_start hhead
  · exact ⟨_, .missingArrow harrow⟩

/-- Parsing a line gives its outcome. Before an arrow, a text is the time that it is by itself, or
is refused for the same reason, but for text that is separated from a time: this is a character too
many in the one place and junk in the other. -/
theorem parse_eq_iff_outcome :
    (∀ line result, parse line = result ↔ Outcome line result) ∧
      ∀ head : String,
        (∀ c, Separated head c → Time.parse head = .error (.trailingCharacter c) ∧
          scanHead.of head.toList = .error .junkBeforeArrow) ∧
        ((∀ c, ¬Separated head c) → scanHead.of head.toList = Time.parse head) := by
  refine ⟨fun line result ↦ ⟨?_, Outcome.parse_eq⟩, fun head ↦ ⟨?_, of_scanHead_eq⟩⟩
  · rintro rfl
    obtain ⟨result, hresult⟩ := exists_outcome line
    rwa [hresult.parse_eq]
  · exact fun c hjunk ↦ hjunk.refused

/-- A second arrow is a value like others, and the start time is looked at before the settings. -/
example : parse "1 --> 2 a:-->" = .ok ⟨⟨0, 0, 1, 0⟩, ⟨0, 0, 2, 0⟩, [⟨"a", "-->"⟩]⟩ ∧
    parse "1 x --> 2 a:b:c" = .error .junkBeforeArrow := by decide +kernel

end Timings

end WebVTT
