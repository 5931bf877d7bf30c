import WebVTT.Proofs.Timings.Bytewise
import WebVTT.Proofs.Timings.Digits
import WebVTT.Proofs.Timings.Settings

/-!
# Numbers and settings under a cursor

A cursor over the bytes of a text can be anywhere, also inside a character. A number is refused there as
it is before any other character that is no digit (`Bytewise.number_eq_expectedDigit_iff`). At a digit a
character begins (`Bytewise.exists_place_of_digit`), so the digits that come next are those of the
characters left, and a number passes just these (`Bytewise.number_eq_ok_iff`). Settings are those of the
characters left, too, and pass all of them (`Bytewise.settings_eq_ok_iff`).
-/

namespace WebVTT.Bytewise

open Scan (Accumulates ahead numberLimit)
open Text (Place byte?)

variable {spare : Spare} {text : String} {passed left : List Char} {n m : Nat}

/-! ## Numbers -/

/-- At a digit a character begins. -/
theorem exists_place_of_digit (h : (byte? text n).any isDigitByte) :
    ∃ passed left, Place text passed left n := by
  obtain ⟨b, hbyte, hb⟩ := (Option.any_eq_true ..).mp h
  refine Text.exists_place_of_byte? hbyte (Nat.lt_of_le_of_lt ?_ (show 57 < 128 by decide))
  simp only [isDigitByte, Bool.and_eq_true, decide_eq_true_eq] at hb
  exact UInt8.le_iff_toNat_le.mp hb.2

/-- Wherever no digit comes next, a number is refused and nothing is passed. -/
theorem number_eq_expectedDigit_iff :
    number text n = .error .expectedDigit m ↔ ¬(byte? text n).any isDigitByte ∧ m = n := by
  by_cases hdigit : (byte? text n).any isDigitByte
  · refine iff_of_false (fun h ↦ ?_) fun h ↦ h.1 hdigit
    obtain ⟨passed, left, hplace⟩ := exists_place_of_digit hdigit
    obtain ⟨rest, hscan⟩ := (follows_number _ _ _ hplace).exists_error_iff.mp ⟨m, h⟩
    rw [any_byte?_eq hplace sameKind_digit] at hdigit
    exact (Scan.number_eq_expectedDigit_iff.mp hscan).1 hdigit
  · have hnumber : number text n = .error .expectedDigit n := by
      unfold number
      rw [bind_get, if_neg hdigit]
      rfl
    rw [hnumber]
    constructor
    · rintro ⟨⟩
      exact ⟨hdigit, rfl⟩
    · rintro ⟨-, rfl⟩
      rfl

/-- The digits that come next are all passed and make up the number, if it is within the limit. -/
theorem number_eq_ok_iff (h : Place text passed left n) {value : UInt32} :
    number text n = .ok value m ↔ (byte? text n).any isDigitByte ∧ ahead left ≤ 2147483647 ∧
      value.toNat = ahead left ∧ m = passWhile text isDigitByte n := by
  have hdigits := place_passWhile h sameKind_digit
  rw [(follows_number _ _ _ h).eq_ok_iff, any_byte?_eq h sameKind_digit]
  simp only [Scan.number_eq_ok_iff]
  constructor
  · rintro ⟨passed', _, hplace, hdigit, hlimit, hvalue, rfl⟩
    exact ⟨hdigit, hlimit, hvalue, hplace.unique hdigits⟩
  · rintro ⟨hdigit, hlimit, hvalue, rfl⟩
    exact ⟨_, _, hdigits, hdigit, hlimit, hvalue, rfl⟩

/-- Digits that denote more than the limit are refused. -/
theorem exists_number_eq_overflow_iff (h : Place text passed left n) :
    (∃ m, number text n = .error .numberOverflow m) ↔
      (byte? text n).any isDigitByte ∧ 2147483647 < ahead left := by
  rw [(follows_number _ _ _ h).exists_error_iff, any_byte?_eq h sameKind_digit]
  exact Scan.exists_number_eq_overflow_iff

/-- With a value within the limit the cursor goes on after the digits that have it. -/
theorem digitsAfter_of_accumulates (h : Place text passed left n) {value : UInt64} {rest : List Char}
    (hkept : Accumulates left value rest) (hlimit : ¬numberLimit < value) :
    ∃ digits, Place text (passed ++ digits) rest (n + digits.length) ∧
      digitsAfter text 0 n = digitsAfter text value (n + digits.length) := by
  induction hkept with
  | zero => exact ⟨[], (List.append_nil passed).symm ▸ h, rfl⟩
  | @digit value c rest _ hbefore hc ih =>
    obtain ⟨digits, hplace, hvalue⟩ := ih hbefore
    have hlow : c.toNat < 128 := Nat.lt_of_le_of_lt (Char.isDigit_iff_toNat.mp hc).2 (by decide)
    have hbyte := (byte?_eq_iff hplace hlow).mpr rfl
    have hdigit : isDigitByte c.toUInt8 := by
      have hany := any_byte?_eq hplace sameKind_digit
      rw [hbyte] at hany
      exact hany.trans hc
    have hnext := place_bump hplace hlow
    have hstep : digitsAfter text value (n + digits.length) = _ := digitsAfter_of_digit hbyte hdigit
    rw [sub_toUInt64_eq hc, if_neg hlimit] at hstep
    rw [bump_of_byte? hbyte] at hnext hstep
    refine ⟨digits ++ [c], ?_, ?_⟩
    · rw [← List.append_assoc, List.length_append, ← Nat.add_assoc]
      exact hnext
    · rw [hvalue, hstep, List.length_append, ← Nat.add_assoc]
      rfl

/-- The value that the cursor goes on with is that of the digits it has passed. -/
theorem exists_digitsAfter_eq (h : Place text passed left n) {value : UInt64} {rest : List Char}
    (hkept : Accumulates left value rest) (hlimit : ¬numberLimit < value) :
    ∃ digits, Place text (passed ++ digits) rest (n + digits.length) ∧
      value.toNat = Nat.ofDigitChars 10 digits 0 ∧
      digitsAfter text 0 n = digitsAfter text value (n + digits.length) := by
  obtain ⟨digits, hplace, hcursor⟩ := digitsAfter_of_accumulates h hkept hlimit
  obtain ⟨digits', hleft, -, hvalue, -⟩ := hkept.exists_digits
  obtain rfl : digits' = digits := List.append_cancel_right (hleft.symm.trans (h.left_eq hplace))
  exact ⟨digits', hplace, hvalue, hcursor⟩

/-- What the digits under the cursor come to has room in 32 bits. -/
theorem toUInt32_of_digitsAfter (h : Place text passed left n) {value : UInt64}
    (hvalue : digitsAfter text 0 n = .ok value m) :
    value < 4294967296 ∧ value.toUInt32.toNat = value.toNat := by
  obtain ⟨_, rest, -, hscan⟩ := (follows_digitsAfter 0 _ _ _ h).eq_ok_iff.mp hvalue
  exact Scan.toUInt32_of_digitsAfter hscan

/-! ## Settings -/

/-- Settings are taken where every run that is left is one, and all of the text is passed. -/
theorem settings_eq_ok_iff (h : Place text passed left n) {ss : List Setting} :
    settings spare text n = .ok ss m ↔
      runs left = ss.map (fun s ↦ s.text.toList) ∧ (∀ s ∈ ss, s.Paired) ∧
        m = (Text.encode text).length := by
  have hfollows : Follows text (settings spare text) Scan.settings := follows_settingsAfter #[]
  rw [(hfollows _ _ _ h).eq_ok_iff, ← and_assoc, ← Scan.settings_eq_ok_iff]
  constructor
  · rintro ⟨_, _, hplace, hscan⟩
    obtain rfl := Scan.eq_nil_of_settings hscan
    exact ⟨hscan, hplace.unique (.last text)⟩
  · rintro ⟨hscan, rfl⟩
    exact ⟨_, _, .last text, hscan⟩

/-- Settings are taken where every run that is left has one colon and has it inside. -/
theorem exists_settings_eq_ok_iff (h : Place text passed left n) :
    (∃ ss m, settings spare text n = .ok ss m) ↔ ∀ run ∈ runs left, OneColonInside run := by
  rw [← Scan.exists_settings_eq_ok_iff]
  simp only [settings_eq_ok_iff h, Scan.settings_eq_ok_iff]
  constructor
  · rintro ⟨ss, _, hruns, hpaired, -⟩
    exact ⟨ss, hruns, hpaired⟩
  · rintro ⟨ss, hruns, hpaired⟩
    exact ⟨ss, _, hruns, hpaired, rfl⟩

/-- Settings are refused for what is wrong with the first run left that is none. -/
theorem exists_settings_eq_error_iff (h : Place text passed left n) {fault : TimingFault} :
    (∃ m, settings spare text n = .error fault m) ↔
      ∃ before run after, runs left = before ++ run :: after ∧
        (∀ r ∈ before, OneColonInside r) ∧ runFault? run = some fault := by
  have hfollows : Follows text (settings spare text) Scan.settings := follows_settingsAfter #[]
  rw [(hfollows _ _ _ h).exists_error_iff, Scan.settings_eq_error_iff]
  exact Scan.findSome?_runFault?_eq_some_iff

end WebVTT.Bytewise
