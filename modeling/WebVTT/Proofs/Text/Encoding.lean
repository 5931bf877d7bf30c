import Mathlib.Data.List.Basic

/-!
# Texts and their bytes

A line is decoded on its own, as the UTF-8 form of a text. Decoding undoes encoding and nothing
else decodes (`decode_eq_some_iff`), so what is known of texts carries over to bytes: a text whose
bytes begin another's is a prefix of it, and a byte below 128 is a character of its own wherever it
stands.
-/

namespace WebVTT.Text

/-- The bytes of a text in UTF-8. -/
def encode (text : String) : List UInt8 := text.toByteArray.data.toList

/-- The text that has these bytes in UTF-8, if there is one. -/
def decode (bytes : List UInt8) : Option String := String.fromUTF8? bytes.toByteArray

theorem toByteArray_encode (text : String) : (encode text).toByteArray = text.toByteArray :=
  ByteArray.ext (by simp [encode])

/-- Bytes decode to a text exactly if they are its UTF-8 form. -/
theorem decode_eq_some_iff {bytes : List UInt8} {text : String} :
    decode bytes = some text ↔ encode text = bytes := by
  unfold decode String.fromUTF8?
  constructor
  · intro h
    split at h
    · cases h
      simp [encode, String.fromUTF8]
    · cases h
  · rintro rfl
    rw [dif_pos (by rw [toByteArray_encode]; exact text.isValidUTF8)]
    simp only [Option.some.injEq, ← String.toByteArray_inj]
    exact toByteArray_encode text

@[simp] theorem decode_encode (text : String) : decode (encode text) = some text :=
  decode_eq_some_iff.mpr rfl

@[simp] theorem encode_empty : encode "" = [] := rfl

/-- Only the empty text has no bytes. -/
@[simp] theorem encode_eq_nil_iff {text : String} : encode text = [] ↔ text = "" := by
  constructor
  · intro h
    have h : decode [] = some text := decode_eq_some_iff.mpr h
    have hempty : decode [] = some "" := decode_eq_some_iff.mpr rfl
    exact Option.some.inj (h.symm.trans hempty)
  · rintro rfl
    rfl

/-- Different texts have different bytes. -/
theorem encode_inj {s t : String} : encode s = encode t ↔ s = t := by
  constructor
  · intro h
    exact Option.some.inj ((decode_encode s).symm.trans (h ▸ decode_encode t))
  · rintro rfl
    rfl

/-- The bytes of a text are those of its characters, one after the other. -/
theorem encode_eq_flatMap (text : String) :
    encode text = text.toList.flatMap String.utf8EncodeChar := by
  rw [encode, ← String.utf8Encode_toList, List.utf8Encode]
  simp

/-- A text whose bytes begin the bytes of another is a prefix of it. -/
theorem prefix_of_encode_prefix {s t : String} (h : encode s <+: encode t) :
    s.toList <+: t.toList := by
  obtain ⟨more, hmore⟩ := h
  apply List.isPrefix_of_utf8Encode_append_eq_utf8Encode more.toByteArray
  rw [String.utf8Encode_toList, String.utf8Encode_toList, ← toByteArray_encode t, ← hmore,
    List.toByteArray_append, toByteArray_encode]

/-! ## ASCII -/

/-- A byte below 128 in the form of a character is the whole character. -/
theorem toNat_eq_of_mem_utf8EncodeChar {c : Char} {b : UInt8} (hb : b ∈ String.utf8EncodeChar c)
    (hlow : b < 128) : c.toNat = b.toNat := by
  have hlow : b.toNat < 128 := hlow
  unfold String.utf8EncodeChar at hb
  dsimp only at hb
  split at hb
  · next hone =>
    obtain rfl := List.mem_singleton.mp hb
    show c.val.toNat = _
    simp only [UInt8.toNat_ofNat']
    omega
  · -- every byte of a longer form has its top bit set
    exfalso
    split at hb
    · simp only [List.mem_cons, List.not_mem_nil, or_false] at hb
      rcases hb with rfl | rfl <;> simp only [UInt8.toNat_ofNat'] at hlow <;> omega
    · split at hb
      · simp only [List.mem_cons, List.not_mem_nil, or_false] at hb
        rcases hb with rfl | rfl | rfl <;> simp only [UInt8.toNat_ofNat'] at hlow <;> omega
      · simp only [List.mem_cons, List.not_mem_nil, or_false] at hb
        rcases hb with rfl | rfl | rfl | rfl <;> simp only [UInt8.toNat_ofNat'] at hlow <;> omega

/-- A byte below 128 in a text is a character of the text. -/
theorem exists_mem_of_mem_encode {text : String} {b : UInt8} (hb : b ∈ encode text)
    (hlow : b < 128) : ∃ c ∈ text.toList, c.toNat = b.toNat := by
  rw [encode_eq_flatMap] at hb
  obtain ⟨c, hc, hbc⟩ := List.mem_flatMap.mp hb
  exact ⟨c, hc, toNat_eq_of_mem_utf8EncodeChar hbc hlow⟩

end WebVTT.Text
