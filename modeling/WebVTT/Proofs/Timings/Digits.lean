import Mathlib.Data.List.TakeWhile
import WebVTT.Proofs.Timings.Numbers

/-!
# Numbers, digit by digit

A number is scanned to the end of its digits and is what they denote, unless that is above the limit
on numbers (`Scan.number_iff`). The scan keeps the value of the digits so far in a word of 64 bits, and
stops at the first digit that takes it above the limit. So the word is never far above the limit
(`Scan.Accumulates`), it is always the value itself, and no number that is taken is cut short.
-/

namespace WebVTT.Scan

variable {text rest : List Char} {value : UInt64}

/-! ## The value of the digits so far -/

/-- The values that are kept in the course of a number, each with the text that is not scanned yet. A
value above the limit is the last one. -/
inductive Accumulates (text : List Char) : UInt64 → List Char → Prop where
  /-- No digit has been scanned. -/
  | zero : Accumulates text 0 text
  /-- One digit more has been scanned. -/
  | digit {value : UInt64} {c : Char} {rest : List Char} : Accumulates text value (c :: rest) →
      ¬numberLimit < value → c.isDigit → Accumulates text (value * 10 + digitValue c) rest

namespace Accumulates

/-- A value is that of the digits scanned, and at most one digit has taken it above the limit. -/
theorem exists_digits (h : Accumulates text value rest) :
    ∃ digits, text = digits ++ rest ∧ (∀ c ∈ digits, c.isDigit) ∧
      value.toNat = Nat.ofDigitChars 10 digits 0 ∧ value.toNat ≤ 10 * 2147483647 + 9 := by
  induction h with
  | zero => exact ⟨[], rfl, nofun, rfl, Nat.zero_le _⟩
  | @digit value c rest _ hlimit hc ih =>
    obtain ⟨digits, rfl, hdigits, hvalue, -⟩ := ih
    have hsmall : value.toNat ≤ 2147483647 := UInt64.le_iff_toNat_le.mp (UInt64.not_lt.mp hlimit)
    have hten := lt_ten_of_isDigit hc
    have hnext : (value * 10 + digitValue c).toNat = 10 * value.toNat + (c.toNat - '0'.toNat) := by
      have hword := extended_eq value.toNat c
      rw [UInt64.ofNat_toNat] at hword
      rw [hword, UInt64.toNat_ofNat_of_lt']
      exact Nat.lt_of_le_of_lt (show _ ≤ 10 * 2147483647 + 9 by omega) (by decide)
    refine ⟨digits ++ [c], by simp, ?_, ?_, by omega⟩
    · simpa [or_imp, forall_and] using ⟨hdigits, hc⟩
    · rw [Nat.ofDigitChars_append, hnext, hvalue]
      rfl

/-- A value within the limit is what the scan goes on with. -/
theorem digitsAfter_eq (h : Accumulates text value rest) (hlimit : ¬numberLimit < value) :
    digitsAfter 0 text = digitsAfter value rest := by
  induction h with
  | zero => rfl
  | @digit value c rest _ hbefore hc ih =>
    rw [ih hbefore, digitsAfter, if_pos hc]
    exact if_neg hlimit

/-- A value above the limit is refused, where its last digit begins. -/
theorem digitsAfter_eq_error (h : Accumulates text value rest) (hlimit : numberLimit < value) :
    ∃ c, digitsAfter 0 text = .error .numberOverflow (c :: rest) := by
  cases h with
  | zero => exact absurd hlimit (by decide)
  | @digit value c _ h hbefore hc =>
    refine ⟨c, ?_⟩
    rw [h.digitsAfter_eq hbefore, digitsAfter, if_pos hc]
    exact if_pos hlimit

end Accumulates

/-- What the digits come to is the last value kept. -/
theorem accumulates_of_digitsAfter {last : UInt64} {left : List Char}
    (h : Accumulates text value rest) (hlimit : ¬numberLimit < value)
    (hlast : digitsAfter value rest = .ok last left) : Accumulates text last left := by
  induction rest generalizing value with
  | nil =>
    cases hlast
    exact h
  | cons c rest ih =>
    rw [digitsAfter] at hlast
    split at hlast
    · next hc =>
      dsimp only at hlast
      split at hlast
      · cases hlast
      · next hnext => exact ih (h.digit hlimit hc) hnext hlast
    · cases hlast
      exact h

/-- Digits are refused only because they come to too much. -/
theorem fault_of_digitsAfter {fault : TimingFault} {left : List Char}
    (h : digitsAfter value text = .error fault left) : fault = .numberOverflow := by
  fun_induction digitsAfter value text with
  | case1 => cases h
  | case2 =>
    cases h
    rfl
  | case3 _ _ _ _ _ _ ih => exact ih h
  | case4 => cases h

/-! ## Numbers -/

/-- The number that the digits to come denote. -/
def ahead (text : List Char) : Nat := Nat.ofDigitChars 10 (text.takeWhile Char.isDigit) 0

/-- The ways in which scanning a number comes out. -/
inductive NumberCase (text : List Char) : EStateM.Result TimingFault (List Char) UInt32 → Prop where
  /-- No digit comes next. -/
  | missing : ¬text.head?.any Char.isDigit → NumberCase text (.error .expectedDigit text)
  /-- The digits are a number. -/
  | number {n : UInt32} : text.head?.any Char.isDigit → ahead text ≤ 2147483647 →
      n.toNat = ahead text → NumberCase text (.ok n (text.dropWhile Char.isDigit))
  /-- The digits denote too much. -/
  | overflow (left : List Char) : text.head?.any Char.isDigit → 2147483647 < ahead text →
      NumberCase text (.error .numberOverflow left)

/-- There is no other way. -/
theorem numberCase_number (text : List Char) : NumberCase text (number text) := by
  by_cases hdigit : text.head?.any Char.isDigit
  · by_cases hlimit : ahead text ≤ 2147483647
    · have hne : text.takeWhile Char.isDigit ≠ [] := by
        cases text with
        | nil => cases hdigit
        | cons c rest => simp [List.takeWhile_cons_of_pos (show c.isDigit from hdigit)]
      have hrest : ∀ c ∈ (text.dropWhile Char.isDigit).head?, ¬c.isDigit := by
        intro c hc
        have hfirst := List.head?_dropWhile_not Char.isDigit text
        rw [Option.mem_def.mp hc] at hfirst
        simpa using hfirst
      have hnumber := number_append hne (fun c hc ↦ List.mem_takeWhile_imp hc) hrest hlimit
      rw [List.takeWhile_append_dropWhile] at hnumber
      rw [hnumber]
      exact .number hdigit hlimit (UInt32.toNat_ofNat_of_lt' (Nat.lt_of_le_of_lt hlimit (by decide)))
    · rw [number, bind_get, if_pos hdigit]
      cases hdigits : digitsAfter 0 text with
      | ok value left =>
        exact absurd (digitsAfter_eq_ok (Nat.zero_le _) hdigits).2.1 hlimit
      | error fault left =>
        obtain rfl := fault_of_digitsAfter hdigits
        rw [bind_of_error hdigits]
        exact .overflow left hdigit (Nat.lt_of_not_le hlimit)
  · rw [number, bind_get, if_neg hdigit]
    exact .missing hdigit

theorem number_eq_expectedDigit_iff {left : List Char} :
    number text = .error .expectedDigit left ↔ ¬text.head?.any Char.isDigit ∧ left = text := by
  have hcase := numberCase_number text
  generalize number text = result at hcase
  cases hcase with
  | missing hdigit => simp [hdigit, eq_comm]
  | number hdigit | overflow _ hdigit => simp [hdigit]

theorem number_eq_ok_iff {n : UInt32} {left : List Char} :
    number text = .ok n left ↔ text.head?.any Char.isDigit ∧ ahead text ≤ 2147483647 ∧
      n.toNat = ahead text ∧ left = text.dropWhile Char.isDigit := by
  have hcase := numberCase_number text
  generalize number text = result at hcase
  cases hcase with
  | missing hdigit => simp [hdigit]
  | number hdigit hlimit hn =>
    constructor
    · rintro ⟨⟩
      exact ⟨hdigit, hlimit, hn, rfl⟩
    · rintro ⟨-, -, hn', rfl⟩
      rw [UInt32.toNat_inj.mp (hn'.trans hn.symm)]
  | overflow _ _ hlimit => simp [Nat.not_le.mpr hlimit]

theorem exists_number_eq_overflow_iff :
    (∃ left, number text = .error .numberOverflow left) ↔
      text.head?.any Char.isDigit ∧ 2147483647 < ahead text := by
  have hcase := numberCase_number text
  generalize number text = result at hcase
  cases hcase with
  | missing hdigit => simp [hdigit]
  | number _ hlimit => simp [Nat.not_lt.mpr hlimit]
  | overflow left hdigit hlimit => simp [hdigit, hlimit]

/-- What digits come to has room in 32 bits. -/
theorem toUInt32_of_digitsAfter {left : List Char} (h : digitsAfter 0 text = .ok value left) :
    value < 4294967296 ∧ value.toUInt32.toNat = value.toNat := by
  obtain ⟨hvalue, hlimit, -⟩ := digitsAfter_eq_ok (Nat.zero_le _) h
  have hsmall : value.toNat < 4294967296 := by
    rw [hvalue, UInt64.toNat_ofNat_of_lt' (Nat.lt_of_le_of_lt hlimit (by decide))]
    exact Nat.lt_of_le_of_lt hlimit (by decide)
  refine ⟨UInt64.lt_iff_toNat_lt.mpr hsmall, ?_⟩
  rw [UInt64.toNat_toUInt32]
  exact Nat.mod_eq_of_lt hsmall

/-- A number is scanned if a digit comes next, and it is refused, with nothing scanned, if none does.
All digits are scanned and make up the number if they denote one within the limit, and otherwise the
number is refused as too large. On the way the value kept is always that of the digits so far, it is
never further above the limit than one digit takes it, the scan goes on with it or stops there, and what
it comes to has room in 32 bits. -/
theorem number_iff (text : List Char) :
    (∀ left, number text = .error .expectedDigit left ↔
        ¬text.head?.any Char.isDigit ∧ left = text) ∧
      (∀ n left, number text = .ok n left ↔
        text.head?.any Char.isDigit ∧ ahead text ≤ 2147483647 ∧ n.toNat = ahead text ∧
          left = text.dropWhile Char.isDigit) ∧
      ((∃ left, number text = .error .numberOverflow left) ↔
        text.head?.any Char.isDigit ∧ 2147483647 < ahead text) ∧
      (∀ value rest, Accumulates text value rest →
        ∃ digits, text = digits ++ rest ∧ (∀ c ∈ digits, c.isDigit) ∧
          value.toNat = Nat.ofDigitChars 10 digits 0 ∧ value.toNat ≤ 10 * 2147483647 + 9 ∧
          (¬numberLimit < value → digitsAfter 0 text = digitsAfter value rest) ∧
          (numberLimit < value → ∃ left, digitsAfter 0 text = .error .numberOverflow left)) ∧
      (∀ value left, digitsAfter 0 text = .ok value left →
        Accumulates text value left ∧ value < 4294967296 ∧ value.toUInt32.toNat = value.toNat) := by
  refine ⟨fun left ↦ number_eq_expectedDigit_iff, fun n left ↦ number_eq_ok_iff,
    exists_number_eq_overflow_iff, fun value rest h ↦ ?_, fun value left h ↦ ?_⟩
  · obtain ⟨digits, htext, hdigits, hvalue, hbound⟩ := h.exists_digits
    refine ⟨digits, htext, hdigits, hvalue, hbound, h.digitsAfter_eq, fun hlimit ↦ ?_⟩
    obtain ⟨c, hstop⟩ := h.digitsAfter_eq_error hlimit
    exact ⟨c :: rest, hstop⟩
  · exact ⟨accumulates_of_digitsAfter .zero (by decide) h, toUInt32_of_digitsAfter h⟩

/-- The largest number with zeros in front of it, the next one, and the values kept of a short one. -/
theorem number_iff_sample :
    (∃ left, number "0002147483648:".toList = .error .numberOverflow left) ∧
      number "0002147483647:".toList = .ok 2147483647 [':'] ∧
      number ":".toList = .error .expectedDigit [':'] ∧
      (0 * 10 + digitValue '7').toNat ≤ 10 * 2147483647 + 9 ∧
      Accumulates "7:".toList 7 [':'] := by
  have hkept : Accumulates "7:".toList (0 * 10 + digitValue '7') [':'] :=
    Accumulates.zero.digit (by decide) (by decide)
  obtain ⟨-, -, -, hexact, hword⟩ := number_iff "7:".toList
  obtain ⟨-, -, -, -, hbound, -⟩ := hexact _ _ hkept
  exact ⟨((number_iff _).2.2.1).mpr (by decide +kernel),
    ((number_iff _).2.1 2147483647 [':']).mpr (by decide +kernel),
    ((number_iff _).1 _).mpr ⟨by decide +kernel, rfl⟩, hbound, (hword 7 [':'] rfl).1⟩

end WebVTT.Scan
