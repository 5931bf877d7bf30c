import WebVTT.Proofs.Lines.Basic
import WebVTT.Proofs.Text.Encoding

/-!
# Bytes that are UTF-8

A byte below 128 never stands inside the form of another character. So bytes may be cut right before
or after such a byte, and are UTF-8 exactly if both parts are (`isUtf8_append_cons_iff`); cutting them
into lines is one case of this (`isUtf8_iff_forall_split`).
-/

namespace WebVTT

namespace Text

variable {bytes p q rest : List UInt8} {b : UInt8}

/-- The bytes are UTF-8. -/
def IsUtf8 (bytes : List UInt8) : Prop := bytes.toByteArray.IsValidUTF8

/-- They are if they are the forms of some characters, one after the other. -/
theorem isUtf8_iff : IsUtf8 bytes ↔ ∃ cs : List Char, cs.flatMap String.utf8EncodeChar = bytes := by
  constructor
  · rintro ⟨cs, hcs⟩
    refine ⟨cs, ?_⟩
    simpa [List.utf8Encode] using (congrArg (fun a : ByteArray ↦ a.data.toList) hcs).symm
  · rintro ⟨cs, rfl⟩
    exact ⟨cs, rfl⟩

/-- The bytes decode exactly then. -/
theorem decode_ne_none_iff : decode bytes ≠ none ↔ IsUtf8 bytes := by
  rw [isUtf8_iff]
  constructor
  · intro h
    obtain ⟨text, htext⟩ := Option.ne_none_iff_exists'.mp h
    refine ⟨text.toList, ?_⟩
    rw [← encode_eq_flatMap, decode_eq_some_iff.mp htext]
  · rintro ⟨cs, rfl⟩
    rw [← String.toList_ofList (l := cs), ← encode_eq_flatMap, decode_encode]
    simp

theorem isUtf8_encode (text : String) : IsUtf8 (encode text) :=
  isUtf8_iff.mpr ⟨text.toList, (encode_eq_flatMap text).symm⟩

theorem IsUtf8.append (hp : IsUtf8 p) (hq : IsUtf8 q) : IsUtf8 (p ++ q) := by
  unfold IsUtf8
  rw [List.toByteArray_append]
  exact ByteArray.IsValidUTF8.append hp hq

theorem utf8Size_eq_one {c : Char} (hc : c.toNat < 128) : c.utf8Size = 1 :=
  Char.utf8Size_eq_one_iff.mpr (Nat.le_of_lt_succ hc : c.toNat ≤ 127)

/-- A byte below 128 in the form of a character is all of the form. -/
theorem utf8EncodeChar_eq_singleton_of_mem {c : Char} (hb : b ∈ String.utf8EncodeChar c)
    (hlow : b < 128) : String.utf8EncodeChar c = [b] := by
  have hc : c.toNat = b.toNat := toNat_eq_of_mem_utf8EncodeChar hb hlow
  have hone : c.utf8Size = 1 := utf8Size_eq_one (hc ▸ hlow)
  obtain ⟨b', hb'⟩ := List.length_eq_one_iff.mp ((String.length_utf8EncodeChar c).trans hone)
  rw [hb'] at hb ⊢
  rw [List.mem_singleton.mp hb]

/-- A byte below 128 is UTF-8 by itself. -/
theorem isUtf8_singleton (hlow : b < 128) : IsUtf8 [b] := by
  apply isUtf8_iff.mpr
  refine ⟨[Char.ofUInt8 b], ?_⟩
  have hone : (Char.ofUInt8 b).utf8Size = 1 := utf8Size_eq_one hlow
  rw [List.flatMap_singleton, String.utf8EncodeChar_eq_singleton hone]
  show [b.toUInt32.toUInt8] = [b]
  simp

/-- What stands before a byte below 128, and what stands after it, is UTF-8 if all is. -/
theorem IsUtf8.of_append_cons (hlow : b < 128) (h : IsUtf8 (p ++ b :: rest)) :
    IsUtf8 p ∧ IsUtf8 rest := by
  rw [isUtf8_iff] at h
  obtain ⟨cs, hcs⟩ := h
  induction cs generalizing p with
  | nil => simp at hcs
  | cons c cs ih =>
    rw [List.flatMap_cons] at hcs
    have hc : IsUtf8 (String.utf8EncodeChar c) := isUtf8_iff.mpr ⟨[c], by simp⟩
    rcases List.append_eq_append_iff.mp hcs with ⟨p', rfl, hmore⟩ | ⟨q, hform, hmore⟩
    · -- the first character ends before the byte
      obtain ⟨hp', hrest⟩ := ih hmore
      exact ⟨hc.append hp', hrest⟩
    · cases q with
      | nil =>
        rw [List.append_nil] at hform
        obtain ⟨-, hrest⟩ := ih (p := []) hmore.symm
        exact ⟨hform ▸ hc, hrest⟩
      | cons b' q =>
        -- the byte is in the first character, and so is all of it
        obtain ⟨rfl, rfl⟩ := List.cons.inj hmore
        have hb : b ∈ String.utf8EncodeChar c := by
          rw [hform]
          simp
        rw [utf8EncodeChar_eq_singleton_of_mem hb hlow] at hform
        obtain ⟨rfl, rfl⟩ : p = [] ∧ q = [] := by
          cases p with
          | nil => simpa using hform
          | cons a p => simp at hform
        exact ⟨isUtf8_encode "", isUtf8_iff.mpr ⟨cs, rfl⟩⟩

/-- Bytes are UTF-8 exactly if they are before a byte below 128 and after it. -/
theorem isUtf8_append_cons_iff (hlow : b < 128) :
    IsUtf8 (p ++ b :: rest) ↔ IsUtf8 p ∧ IsUtf8 rest := by
  constructor
  · exact IsUtf8.of_append_cons hlow
  · rintro ⟨hp, hrest⟩
    rw [← List.singleton_append]
    exact hp.append ((isUtf8_singleton hlow).append hrest)

/-- The end of a line does not stand inside a character either. -/
theorem isUtf8_append_ending_iff (e : Ending) :
    IsUtf8 (p ++ (e.bytes ++ rest)) ↔ IsUtf8 p ∧ IsUtf8 rest := by
  have hnil : IsUtf8 [] := isUtf8_encode ""
  cases e with
  | lf => exact isUtf8_append_cons_iff (by decide)
  | cr => exact isUtf8_append_cons_iff (by decide)
  | crlf =>
    have hmore : IsUtf8 ([] ++ LineStream.lineFeed :: rest) ↔ IsUtf8 [] ∧ IsUtf8 rest :=
      isUtf8_append_cons_iff (by decide)
    have hall : IsUtf8 (p ++ LineStream.carriageReturn :: LineStream.lineFeed :: rest) ↔
        IsUtf8 p ∧ IsUtf8 (LineStream.lineFeed :: rest) := isUtf8_append_cons_iff (by decide)
    rw [List.nil_append, and_iff_right hnil] at hmore
    rw [← hmore]
    exact hall

end Text

/-- A stream is UTF-8 exactly if each of its lines is. -/
theorem Line.isUtf8_iff_forall_split (bytes : List UInt8) :
    Text.IsUtf8 bytes ↔ ∀ l ∈ split bytes, Text.IsUtf8 l.content := by
  induction bytes using split_induction with
  | nil => simpa using Text.isUtf8_encode ""
  | unended content hcontent hne => simp [split_of_unbroken hcontent hne]
  | ended content e rest hcontent he ih =>
    rw [split_append hcontent he, List.forall_mem_cons, ← ih]
    exact Text.isUtf8_append_ending_iff e

end WebVTT
