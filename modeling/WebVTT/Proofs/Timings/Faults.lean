import WebVTT.Proofs.Time.Parsing
import WebVTT.Proofs.Timings.Digits
import WebVTT.Proofs.Timings.Grammar

/-!
# What faults of timestamps say

Two faults say something about the text that was refused, and what they say is so. The character that a
timestamp cannot go on with stands right after the longest time that the text begins with
(`Timestamp.EndsBefore`). The number that is out of range is that of a group of the timestamp, told by
the groups around it (`Timestamp.OutOfRange`). In a line the text is that before the first arrow or, once
there is a start time, that after it (`Timings.Stretch`).
-/

namespace WebVTT

namespace Timestamp

/-- The text begins with this time, goes on with this character, and begins with no longer time. -/
structure EndsBefore (text taken : List Char) (c : Char) : Prop where
  next : taken ++ [c] <+: text
  denotes : ∃ n, Denotes taken n
  longest : ∀ p n, p <+: text → Denotes p n → p.length ≤ taken.length

/-- The text begins with groups of which this is the first to be out of range. There is no telling
whether the first group is minutes before the end of the second. -/
inductive OutOfRange : List Char → TimeComponent → Nat → Prop where
  /-- The second of three groups; the third does not matter. -/
  | minutesOfThree {ds ds' rest : List Char} {h m : Nat} : Numeral ds h → Numeral ds' m → 60 ≤ m →
      OutOfRange (ds ++ ':' :: (ds' ++ ':' :: rest)) .minutes m
  /-- The third of three groups. -/
  | secondsOfThree {ds ds' ds'' rest : List Char} {h m s : Nat} : Numeral ds h → Numeral ds' m →
      m < 60 → Numeral ds'' s → 60 ≤ s → (∀ c ∈ rest.head?, ¬c.isDigit) →
      OutOfRange (ds ++ ':' :: (ds' ++ ':' :: (ds'' ++ rest))) .seconds s
  /-- The second of two groups. -/
  | secondsOfTwo {ds ds' rest : List Char} {m s : Nat} : Numeral ds m → Numeral ds' s → 60 ≤ s →
      (∀ c ∈ rest.head?, ¬c.isDigit ∧ c ≠ ':') → OutOfRange (ds ++ ':' :: (ds' ++ rest)) .seconds s
  /-- The first of two groups. -/
  | minutesOfTwo {ds ds' rest : List Char} {m s : Nat} : Numeral ds m → 60 ≤ m → Numeral ds' s →
      s < 60 → (∀ c ∈ rest.head?, ¬c.isDigit ∧ c ≠ ':') →
      OutOfRange (ds ++ ':' :: (ds' ++ rest)) .minutes m

theorem OutOfRange.sixty_le {text : List Char} {component : TimeComponent} {n : Nat}
    (h : OutOfRange text component n) : 60 ≤ n := by
  cases h <;> assumption

end Timestamp

open Timestamp (Denotes Clock EndsBefore Fraction Numeral OutOfRange)

namespace Scan

variable {α β : Type} {text rest left : List Char} {fault : TimingFault} {c : Char}
  {component : TimeComponent} {value : UInt32}

/-- Two steps are refused where the first is, or where the second is after the first. -/
theorem error_of_bind {x : Scan α} {f : α → Scan β} (h : (x >>= f) text = .error fault left) :
    x text = .error fault left ∨ ∃ a rest, x text = .ok a rest ∧ f a rest = .error fault left := by
  cases hx : x text with
  | ok a rest => exact .inr ⟨a, rest, rfl, by rwa [bind_of_ok hx] at h⟩
  | error fault' rest =>
    rw [bind_of_error hx] at h
    cases h
    exact .inl rfl

/-! ## Groups out of range -/

theorem fault_of_number (h : number text = .error fault left) :
    fault = .expectedDigit ∨ fault = .numberOverflow := by
  have hcase := numberCase_number text
  rw [h] at hcase
  cases hcase with
  | missing => exact .inl rfl
  | overflow => exact .inr rfl

/-- The faults of a clock. -/
inductive ClockFault (text : List Char) : TimingFault → Prop where
  | expectedDigit : ClockFault text .expectedDigit
  | numberOverflow : ClockFault text .numberOverflow
  | outOfRange {component : TimeComponent} {value : UInt32} :
      OutOfRange text component value.toNat → ClockFault text (.outOfRange component value)

theorem ClockFault.of_number {text' : List Char} (h : number text = .error fault left) :
    ClockFault text' fault := by
  rcases fault_of_number h with rfl | rfl
  · exact .expectedDigit
  · exact .numberOverflow

/-- There is no colon where none is accepted. -/
theorem ne_of_accept (h : accept c text = .ok false rest) : ∀ d ∈ text.head?, d ≠ c := by
  rintro d hd rfl
  obtain ⟨more, rfl⟩ := List.head?_eq_some_iff.mp hd
  rw [accept_self] at h
  cases h

/-- There is no error in looking for a character. -/
theorem accept_ne_error (h : accept c text = .error fault left) : False := by
  unfold accept at h
  split at h
  · cases h
  · split at h <;> cases h

theorem sixty_le_iff : 60 ≤ value ↔ 60 ≤ value.toNat := UInt32.le_iff_toNat_le

/-- A clock is refused for a number that it lacks, for one too large, or for a group out of range. -/
theorem clockFault_of_clock (h : clock text = .error fault left) : ClockFault text fault := by
  rcases error_of_bind h with hfirst | ⟨first, t, hfirst, h⟩
  · exact .of_number hfirst
  obtain ⟨ds, htext, hds, -⟩ := exists_of_number hfirst
  rcases error_of_bind h with hcolon | ⟨colon, u, hcolon, h⟩
  · exact (accept_ne_error hcolon).elim
  have ht := eq_of_accept hcolon
  cases colon with
  | false => cases h
  | true =>
    rw [if_pos rfl] at h ht
    rcases error_of_bind h with hsecond | ⟨second, v, hsecond, h⟩
    · exact .of_number hsecond
    obtain ⟨ds', hu, hds', hv⟩ := exists_of_number hsecond
    rcases error_of_bind h with haccept | ⟨hasHours, w, haccept, h⟩
    · exact (accept_ne_error haccept).elim
    have hw := eq_of_accept haccept
    rw [htext, ht, hu]
    cases hasHours with
    | true =>
      rw [if_pos rfl] at h hw
      rw [hw]
      split at h
      · next hrange =>
        cases h
        exact .outOfRange (.minutesOfThree hds hds' (sixty_le_iff.mp hrange))
      next hrange =>
      rcases error_of_bind h with hthird | ⟨third, x, hthird, h⟩
      · exact .of_number hthird
      obtain ⟨ds'', hwords, hds'', hx⟩ := exists_of_number hthird
      rw [hwords]
      split at h
      · next hrange' =>
        cases h
        exact .outOfRange
          (.secondsOfThree hds hds' (lt_sixty hrange) hds'' (sixty_le_iff.mp hrange') hx)
      · cases h
    | false =>
      have hend : ∀ d ∈ v.head?, ¬d.isDigit ∧ d ≠ ':' :=
        fun d hd ↦ ⟨hv d hd, ne_of_accept haccept d hd⟩
      split at h
      · next hrange =>
        cases h
        exact .outOfRange (.secondsOfTwo hds hds' (sixty_le_iff.mp hrange) hend)
      next hrange =>
      rw [if_neg (by decide)] at h
      split at h
      · next hrange' =>
        cases h
        exact .outOfRange
          (.minutesOfTwo hds (sixty_le_iff.mp hrange') hds' (lt_sixty hrange) hend)
      · cases h

/-- A group out of range is what a clock is refused for. -/
theorem clock_of_outOfRange {n : Nat} (h : OutOfRange text component n) :
    ∃ value left, clock text = .error (.outOfRange component value) left ∧ value.toNat = n := by
  have hcolon := @not_of_head?_cons Char.isDigit ':' (by decide)
  cases h with
  | @minutesOfThree ds ds' rest h m hh hm hrange =>
    obtain ⟨first, hfirst, rfl⟩ := number_of_numeral hh (hcolon (ds' ++ ':' :: rest))
    obtain ⟨second, hsecond, rfl⟩ := number_of_numeral hm (hcolon rest)
    refine ⟨second, rest, ?_, rfl⟩
    rw [clock, bind_of_ok hfirst, bind_of_ok (accept_self _ _), if_pos rfl, bind_of_ok hsecond,
      bind_of_ok (accept_self _ _), if_pos (sixty_le_iff.mpr hrange)]
    rfl
  | @secondsOfThree ds ds' ds'' rest h m s hh hm hm60 hs hrange hrest =>
    obtain ⟨first, hfirst, rfl⟩ := number_of_numeral hh (hcolon (ds' ++ ':' :: (ds'' ++ rest)))
    obtain ⟨second, hsecond, rfl⟩ := number_of_numeral hm (hcolon (ds'' ++ rest))
    obtain ⟨third, hthird, rfl⟩ := number_of_numeral hs hrest
    refine ⟨third, rest, ?_, rfl⟩
    rw [clock, bind_of_ok hfirst, bind_of_ok (accept_self _ _), if_pos rfl, bind_of_ok hsecond,
      bind_of_ok (accept_self _ _), if_neg (not_sixty_le hm60), if_pos rfl, bind_of_ok hthird,
      if_pos (sixty_le_iff.mpr hrange)]
    rfl
  | @secondsOfTwo ds ds' rest m s hm hs hrange hrest =>
    obtain ⟨first, hfirst, rfl⟩ := number_of_numeral hm (hcolon (ds' ++ rest))
    obtain ⟨second, hsecond, rfl⟩ := number_of_numeral hs fun c hc ↦ (hrest c hc).1
    refine ⟨second, rest, ?_, rfl⟩
    rw [clock, bind_of_ok hfirst, bind_of_ok (accept_self _ _), if_pos rfl, bind_of_ok hsecond,
      bind_of_ok (accept_of_head fun c hc ↦ (hrest c hc).2),
      if_pos (sixty_le_iff.mpr hrange)]
    rfl
  | @minutesOfTwo ds ds' rest m s hm hrange hs hs60 hrest =>
    obtain ⟨first, hfirst, rfl⟩ := number_of_numeral hm (hcolon (ds' ++ rest))
    obtain ⟨second, hsecond, rfl⟩ := number_of_numeral hs fun c hc ↦ (hrest c hc).1
    refine ⟨first, rest, ?_, rfl⟩
    rw [clock, bind_of_ok hfirst, bind_of_ok (accept_self _ _), if_pos rfl, bind_of_ok hsecond,
      bind_of_ok (accept_of_head fun c hc ↦ (hrest c hc).2), if_neg (not_sixty_le hs60),
      if_neg (by decide), if_pos (sixty_le_iff.mpr hrange)]
    rfl

/-! ## Characters that come next -/

/-- What a scan takes is settled by the character that comes next. -/
def Settled (scan : Scan α) : Prop :=
  ∀ text a rest, scan text = .ok a rest → ∃ taken, text = taken ++ rest ∧
    ∀ rest', rest'.head? = rest.head? → scan (taken ++ rest') = .ok a rest'

namespace Settled

theorem pure (a : α) : Settled (Pure.pure a) := by
  rintro text _ _ ⟨⟩
  exact ⟨[], rfl, fun _ _ ↦ rfl⟩

theorem throw (fault : TimingFault) : Settled (throw fault : Scan α) := nofun

theorem bind {x : Scan α} {f : α → Scan β} (hx : Settled x) (hf : ∀ a, Settled (f a)) :
    Settled (x >>= f) := by
  intro text b rest h
  obtain ⟨a, mid, hfirst, hsecond⟩ := ok_of_bind h
  obtain ⟨taken, rfl, htaken⟩ := hx text a mid hfirst
  obtain ⟨taken', rfl, htaken'⟩ := hf a mid b rest hsecond
  refine ⟨taken ++ taken', (List.append_assoc ..).symm, fun rest' hhead ↦ ?_⟩
  have hmid : (taken' ++ rest').head? = (taken' ++ rest).head? := by
    rw [List.head?_append, List.head?_append, hhead]
  rw [List.append_assoc, bind_of_ok (htaken _ hmid)]
  exact htaken' rest' hhead

theorem ite {p : Prop} [Decidable p] {x y : Scan α} (hx : Settled x) (hy : Settled y) :
    Settled (if p then x else y) := by
  split
  · exact hx
  · exact hy

end Settled

theorem settled_accept (c : Char) : Settled (accept c) := by
  intro text taken rest h
  have htext := eq_of_accept h
  cases taken with
  | true => exact ⟨[c], htext, fun rest' _ ↦ accept_self c rest'⟩
  | false =>
    obtain rfl : text = rest := htext
    exact ⟨[], rfl, fun rest' hhead ↦ accept_of_head (hhead ▸ ne_of_accept h)⟩

theorem settled_number : Settled number := by
  intro text value rest h
  obtain ⟨ds, htext, hds, hrest⟩ := exists_of_number h
  refine ⟨ds, htext, fun rest' hhead ↦ ?_⟩
  obtain ⟨value', hnumber, hvalue⟩ :=
    number_of_numeral hds (show ∀ c ∈ rest'.head?, ¬c.isDigit by rwa [hhead])
  rw [hnumber, UInt32.toNat_inj.mp hvalue]

theorem settled_clock : Settled clock := by
  unfold clock
  refine settled_number.bind fun first ↦ (settled_accept ':').bind fun colon ↦ .ite ?_ (.pure _)
  refine settled_number.bind fun second ↦ (settled_accept ':').bind fun hasHours ↦ ?_
  refine .ite (.throw _) (.ite (settled_number.bind fun third ↦ ?_) (.ite (.throw _) (.pure _)))
  exact .ite (.throw _) (.pure _)

theorem settled_fraction : Settled fraction := by
  unfold fraction
  refine (settled_accept '.').bind fun point ↦ .ite ?_ (.pure 0)
  intro text ms rest h
  rw [bind_get] at h
  obtain ⟨value, u, hnumber, h⟩ := ok_of_bind h
  obtain ⟨ds, rfl, hds, hu⟩ := exists_of_number hnumber
  obtain ⟨taken, htaken, hagain⟩ := settled_number _ _ _ hnumber
  obtain rfl := List.append_cancel_right htaken
  rw [takeWhile_append_of_head hds.isDigit hu] at h
  have hrest : u = rest := by
    generalize ds.length = places at h
    match places with
    | 1 | 2 | 3 =>
      cases h
      rfl
    | 0 | _ + 4 => cases h
  subst hrest
  refine ⟨ds, rfl, fun rest' hhead ↦ ?_⟩
  rw [bind_get, takeWhile_append_of_head hds.isDigit (hhead ▸ hu), bind_of_ok (hagain rest' hhead)]
  generalize ds.length = places at h
  match places with
  | 1 | 2 | 3 =>
    cases h
    rfl
  | 0 | _ + 4 => cases h

/-! ## Timestamps -/

theorem fault_of_fraction (h : fraction text = .error fault left) :
    fault = .expectedDigit ∨ fault = .numberOverflow ∨ fault = .fractionTooLong := by
  rcases error_of_bind h with hpoint | ⟨point, u, -, h⟩
  · exact (accept_ne_error hpoint).elim
  cases point with
  | false => cases h
  | true =>
    rw [if_pos rfl, bind_get] at h
    rcases error_of_bind h with hnumber | ⟨value, v, -, h⟩
    · exact (fault_of_number hnumber).imp_right .inl
    · generalize (u.takeWhile Char.isDigit).length = places at h
      match places with
      | 1 | 2 | 3 => cases h
      | 0 | _ + 4 =>
        cases h
        exact .inr (.inr rfl)

/-- The ways in which a timestamp is refused. -/
inductive TimestampFault (text : List Char) : TimingFault → Prop where
  | clock {fault : TimingFault} :
      ClockFault (text.dropWhile isBlank) fault → TimestampFault text fault
  | fractionTooLong : TimestampFault text .fractionTooLong
  /-- A clock and a fraction were taken, and what comes next is no blank. -/
  | trailingCharacter {fields : UInt32 × UInt32 × UInt32} {ms : UInt32} {u rest : List Char}
      {c : Char} : Scan.clock (text.dropWhile isBlank) = .ok fields u →
      fraction u = .ok ms (c :: rest) → ¬isBlank c → TimestampFault text (.trailingCharacter c)

/-- There is no other way. -/
theorem timestampFault_of_timestamp (h : timestamp text = .error fault left) :
    TimestampFault text fault := by
  rw [timestamp, bind_blanks] at h
  rcases error_of_bind h with hclock | ⟨fields, u, hclock, h⟩
  · exact .clock (clockFault_of_clock hclock)
  rcases error_of_bind h with hfraction | ⟨ms, v, hfraction, h⟩
  · rcases fault_of_fraction hfraction with rfl | rfl | rfl
    · exact .clock .expectedDigit
    · exact .clock .numberOverflow
    · exact .fractionTooLong
  rw [bind_get] at h
  cases v with
  | nil => cases h
  | cons d v =>
    dsimp only at h
    split at h
    · cases h
    · next hd =>
      cases h
      exact .trailingCharacter hclock hfraction hd

/-- A timestamp is refused for a group out of range exactly if one is. -/
theorem timestamp_outOfRange_iff :
    (∃ left, timestamp text = .error (.outOfRange component value) left) ↔
      OutOfRange (text.dropWhile isBlank) component value.toNat := by
  constructor
  · rintro ⟨left, h⟩
    cases timestampFault_of_timestamp h with
    | clock hclock =>
      cases hclock with
      | outOfRange hrange => exact hrange
  · intro h
    obtain ⟨value', left, hclock, hvalue⟩ := clock_of_outOfRange h
    rw [UInt32.toNat_inj.mp hvalue] at hclock
    exact ⟨left, by rw [timestamp, bind_blanks, bind_of_error hclock]⟩

end Scan

namespace Timestamp

variable {text taken rest left : List Char} {c : Char}

/-- Where nothing that goes on with this character is a time, none is longer. -/
theorem EndsBefore.of_refused {n : Nat} (htext : text = taken ++ c :: rest)
    (hdenotes : Denotes taken n)
    (hrefused : ∀ more, ∃ fault, Time.parse (String.ofList (taken ++ c :: more)) = .error fault) :
    EndsBefore text taken c := by
  have hnext : taken ++ [c] <+: text := ⟨rest, by simp [htext]⟩
  refine ⟨hnext, ⟨n, hdenotes⟩, fun p m hp hm ↦ Nat.le_of_not_lt fun hlonger ↦ ?_⟩
  obtain ⟨more, rfl⟩ : taken ++ [c] <+: p :=
    List.prefix_of_prefix_length_le hnext hp (by rw [List.length_append]; exact hlonger)
  obtain ⟨fault, hfault⟩ := hrefused more
  rw [← String.toList_ofList (l := taken ++ [c] ++ more)] at hm
  obtain ⟨t, hparse, -⟩ := Scan.exists_parse_of_denotes hm
  rw [List.append_assoc, List.singleton_append, hfault] at hparse
  cases hparse

/-- The character for which a timestamp is refused stands right after it. -/
theorem exists_endsBefore_of_timestamp
    (h : Scan.timestamp text = .error (.trailingCharacter c) left) :
    ¬isBlank c ∧ ∃ taken, EndsBefore text taken c ∧ ∀ b ∈ taken.getLast?, ¬isBlank b := by
  obtain ⟨⟨hours, minutes, seconds⟩, ms, u, rest, hclock, hfraction, hc⟩ :
      ∃ fields ms u rest, Scan.clock (text.dropWhile isBlank) = .ok fields u ∧
        Scan.fraction u = .ok ms (c :: rest) ∧ ¬isBlank c := by
    cases Scan.timestampFault_of_timestamp h with
    | clock hclock => cases hclock
    | trailingCharacter hclock hfraction hc => exact ⟨_, _, _, _, hclock, hfraction, hc⟩
  obtain ⟨ds, hskipped, hds, -⟩ := Scan.exists_of_clock hclock
  obtain ⟨ds', rfl, hds'⟩ := Scan.exists_of_fraction hfraction
  -- both parts are taken again wherever the character comes next
  obtain ⟨cs, hcs, hclock'⟩ := Scan.settled_clock _ _ _ hclock
  obtain ⟨cs', hcs', hfraction'⟩ := Scan.settled_fraction _ _ _ hfraction
  obtain rfl := List.append_cancel_right (hskipped.symm.trans hcs)
  obtain rfl := List.append_cancel_right hcs'
  have hbefore : ∀ b ∈ text.takeWhile isBlank, isBlank b := fun b hb ↦ List.mem_takeWhile_imp hb
  have htext : text = text.takeWhile isBlank ++ (ds ++ ds') ++ c :: rest := by
    rw [List.append_assoc, List.append_assoc, ← hskipped, List.takeWhile_append_dropWhile]
  have hdenotes := Denotes.mk hbefore hds hds' (List.forall_mem_nil _)
  rw [List.append_nil] at hdenotes
  refine ⟨hc, _, .of_refused htext hdenotes fun more ↦ ?_, ?_⟩
  · have hstart : ∀ d ∈ (ds ++ (ds' ++ c :: more)).head?, ¬isBlank d :=
      fun d hd hblank ↦ Scan.not_isDigit_of_isBlank hblank (hds.isDigit_of_head? _ d hd)
    have hhead : (ds' ++ c :: more).head? = (ds' ++ c :: rest).head? := by
      rw [List.head?_append, List.head?_append]
      rfl
    have htime : Scan.timestamp (text.takeWhile isBlank ++ (ds ++ ds') ++ c :: more) =
        .error (.trailingCharacter c) (c :: more) := by
      rw [List.append_assoc, List.append_assoc, Scan.timestamp, Scan.bind_blanks,
        Scan.dropWhile_append_of_head hbefore hstart, Scan.bind_of_ok (hclock' _ hhead)]
      refine (Scan.bind_of_ok (hfraction' (c :: more) rfl)).trans ?_
      rw [Scan.bind_get]
      exact congrFun (if_neg hc) (c :: more)
    refine ⟨.trailingCharacter c, ?_⟩
    unfold Time.parse
    rw [String.toList_ofList, Scan.of_loneTimestamp, htime]
  · have hend : ∀ b ∈ ([] : List Char).head?, isBlank b := by
      rintro b ⟨⟩
    obtain ⟨t, htime, -⟩ := Scan.timestamp_of_denotes hbefore hds hds' hend
    rw [List.append_nil, ← String.toList_ofList (l := text.takeWhile isBlank ++ (ds ++ ds'))] at htime
    obtain ⟨p, hp, hlast, -⟩ := Scan.timestamp_eq_ok_iff (s := "").mp htime
    rw [String.append_empty] at hp
    rwa [← hp, String.toList_ofList] at hlast

end Timestamp

namespace Timings

variable {line head tail : String} {fault : TimingFault} {c : Char}

/-- Text behind a time and blanks comes right before no time. -/
theorem Separated.exists_endsBefore (h : Separated head c) :
    ¬isBlank c ∧ ∃ taken, EndsBefore head.toList taken c := by
  obtain ⟨p, t, between, rest, hparse, hhead, hne, hbetween, hc⟩ := h
  have hdenotes := (Scan.denotes_of_parse hparse).2.append hbetween
  rw [← List.append_assoc] at hhead
  refine ⟨hc, p.toList ++ between, .of_refused hhead hdenotes fun more ↦ ?_⟩
  refine ⟨_, (Separated.refused ⟨p, t, between, more, hparse, ?_, hne, hbetween, hc⟩).1⟩
  rw [String.toList_ofList, List.append_assoc]

/-- Before an arrow a text is refused for its timestamp or for what comes after that. -/
theorem exists_timestamp_of_scanHead {text : List Char} (h : scanHead.of text = .error fault)
    (hfault : fault ≠ .junkBeforeArrow) : ∃ left, Scan.timestamp text = .error fault left := by
  rw [of_scanHead] at h
  split at h
  · split at h <;> cases h
    exact absurd rfl hfault
  · next htime =>
    cases h
    exact ⟨_, htime⟩

end Timings

/-- The character for which a text is refused is the first one behind the longest time there is at its
front. -/
theorem Time.exists_endsBefore_of_parse {text : String} {c : Char}
    (h : Time.parse text = .error (.trailingCharacter c)) :
    ¬isBlank c ∧ ∃ taken, EndsBefore text.toList taken c := by
  by_cases hjunk : ∃ d, Timings.Separated text d
  · obtain ⟨d, hjunk⟩ := hjunk
    obtain rfl : d = c := by simpa [hjunk.refused.1] using h
    exact hjunk.exists_endsBefore
  · rw [← Timings.of_scanHead_eq (not_exists.mp hjunk)] at h
    obtain ⟨left, htime⟩ := Timings.exists_timestamp_of_scanHead h nofun
    obtain ⟨hc, taken, hends, -⟩ := Timestamp.exists_endsBefore_of_timestamp htime
    exact ⟨hc, taken, hends⟩

/-- A text is refused for a group out of range exactly if its timestamp has one. -/
theorem Time.parse_outOfRange_iff {text : String} {component : TimeComponent} {value : UInt32} :
    Time.parse text = .error (.outOfRange component value) ↔
      OutOfRange (text.toList.dropWhile isBlank) component value.toNat := by
  rw [← Scan.timestamp_outOfRange_iff]
  unfold Time.parse
  rw [Scan.of_loneTimestamp]
  cases Scan.timestamp text.toList with
  | error fault left => simp
  | ok t rest =>
    dsimp only
    cases rest.dropWhile isBlank <;> simp

namespace Timings

variable {line : String} {fault : TimingFault}

/-- The parts of a line that a timestamp is looked for in: that before the first arrow, and that after
it once there is a start time. -/
inductive Stretch (line : String) : String → Prop where
  | start {head tail : String} : FirstArrow line head tail → Stretch line head
  | stop {head tail : String} {start : Time} : FirstArrow line head tail →
      Time.parse head = .ok start → Stretch line tail

/-- The faults of a line with an arrow that are none of a timestamp. -/
def layoutFaults : List TimingFault :=
  [.junkBeforeArrow, .unterminatedSettingName, .emptySettingName, .emptySettingValue,
    .colonInSettingValue]

theorem mem_layoutFaults_of_run {run : List Char} (h : runFault? run = some fault) :
    fault ∈ layoutFaults := by
  have hcase := runCase_runFault? run
  rw [h] at hcase
  cases hcase <;> simp [layoutFaults]

/-- A line without an arrow is refused for that, and one with an arrow for how it is laid out or for a
timestamp in it. -/
theorem exists_stretch_of_parse (h : parse line = .error fault) :
    fault = .missingArrow ∧ ¬hasArrow line ∨ fault ∈ layoutFaults ∨
      ∃ part left, Stretch line part ∧ Scan.timestamp part.toList = .error fault left := by
  obtain ⟨result, houtcome⟩ := exists_outcome line
  obtain rfl : result = .error fault := houtcome.parse_eq.symm.trans h
  cases houtcome with
  | missingArrow hno => exact .inl ⟨rfl, mt (hasArrow_iff line).mp hno⟩
  | junkBeforeArrow => exact .inr (.inl List.mem_cons_self)
  | settingFault _ _ _ hfault =>
    obtain ⟨run, -, hrun⟩ := List.exists_of_findSome?_eq_some hfault
    exact .inr (.inl (mem_layoutFaults_of_run hrun))
  | @startFault head _ _ hfirst hno hhead =>
    rw [← of_scanHead_eq hno] at hhead
    by_cases hjunk : fault = .junkBeforeArrow
    · rw [hjunk]
      exact .inr (.inl List.mem_cons_self)
    · obtain ⟨left, htime⟩ := exists_timestamp_of_scanHead hhead hjunk
      exact .inr (.inr ⟨head, left, .start hfirst, htime⟩)
  | @stopFault _ tail _ _ hfirst hhead hno htail =>
    obtain ⟨left, htime⟩ := timestamp_of_no_stop hno htail
    exact .inr (.inr ⟨tail, left, .stop hfirst hhead, htime⟩)

/-- A line with an arrow is not refused for having none. -/
theorem ne_missingArrow_of_parse (harrow : hasArrow line) (h : parse line = .error fault) :
    fault ≠ .missingArrow := by
  rintro rfl
  rcases exists_stretch_of_parse h with ⟨-, hno⟩ | hlayout | ⟨part, left, -, htime⟩
  · exact hno harrow
  · simp [layoutFaults] at hlayout
  · cases Scan.timestampFault_of_timestamp htime with
    | clock hclock => cases hclock

/-- The character that is reported of a line stands right after a time in it. -/
theorem exists_endsBefore_of_parse {c : Char} (h : parse line = .error (.trailingCharacter c)) :
    ¬isBlank c ∧ ∃ part taken, Stretch line part ∧ EndsBefore part.toList taken c ∧
      ∀ b ∈ taken.getLast?, ¬isBlank b := by
  rcases exists_stretch_of_parse h with ⟨hfault, -⟩ | hlayout | ⟨part, left, hpart, htime⟩
  · cases hfault
  · simp [layoutFaults] at hlayout
  · obtain ⟨hc, taken, htaken⟩ := Timestamp.exists_endsBefore_of_timestamp htime
    exact ⟨hc, part, taken, hpart, htaken⟩

/-- A line is refused for what is wrong with a timestamp in it. -/
theorem parse_of_stretch {part : String} {left : List Char} (hpart : Stretch line part)
    (htime : Scan.timestamp part.toList = .error fault left) : parse line = .error fault := by
  cases hpart with
  | start hfirst =>
    rw [hfirst.parse_eq, of_scanHead, htime]
    rfl
  | stop hfirst hhead =>
    rw [hfirst.parse_eq, of_scanHead_eq_ok hhead, of_scanTail, htime]
    rfl

/-- A line is refused for a group out of range exactly if a timestamp in it has one. -/
theorem parse_outOfRange_iff {component : TimeComponent} {value : UInt32} :
    parse line = .error (.outOfRange component value) ↔ ∃ part, Stretch line part ∧
      OutOfRange (part.toList.dropWhile isBlank) component value.toNat := by
  constructor
  · intro h
    rcases exists_stretch_of_parse h with ⟨hfault, -⟩ | hlayout | ⟨part, left, hpart, htime⟩
    · cases hfault
    · simp [layoutFaults] at hlayout
    · exact ⟨part, hpart, Scan.timestamp_outOfRange_iff.mp ⟨left, htime⟩⟩
  · rintro ⟨part, hpart, hrange⟩
    obtain ⟨left, htime⟩ := Scan.timestamp_outOfRange_iff.mpr hrange
    exact parse_of_stretch hpart htime

end Timings

end WebVTT
