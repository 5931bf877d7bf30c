import WebVTT.Proofs.Text.Utf8

/-!
# Places in a text

A place in a text is a number of bytes, so it may be inside a character. A character is read, and the
text between two places is cut out, only where characters begin (`Text.character?`, `Text.slice?`).
`Text.Place` says which characters have been passed at a place and which are left. There the byte is one
of the next character (`Place.exists_byte`), the next character is read (`Place.character?_eq`), and what
was passed since such a place is cut out (`Place.slice?_eq`).
-/

namespace WebVTT.Text

/-! ## Reading at a place -/

/-- The byte at a place, unless the text ends there. -/
def byte? (text : String) (n : Nat) : Option UInt8 := (encode text)[n]?

/-- The text between two places, if at either of them a character begins or the text ends. -/
def slice? (text : String) (start stop : Nat) : Option String :=
  if start ≤ stop ∧ String.Pos.Raw.IsValid text ⟨start⟩ ∧ String.Pos.Raw.IsValid text ⟨stop⟩ then
    decode (((encode text).take stop).drop start)
  else
    none

/-- The character that begins at a place, if one does. -/
def character? (text : String) (n : Nat) : Option Char :=
  (slice? text n (encode text).length).bind (·.toList.head?)

theorem lt_length_of_byte? {text : String} {n : Nat} {b : UInt8} (h : byte? text n = some b) :
    n < (encode text).length := (List.getElem?_eq_some_iff.mp h).1

/-! ## Bytes of a character -/

section Bytes

variable {a c : Char} {b : UInt8}

/-- The bytes of these characters, one after the other. -/
def bytes (cs : List Char) : List UInt8 := cs.flatMap String.utf8EncodeChar

@[simp] theorem bytes_nil : bytes [] = [] := rfl

theorem bytes_cons (c : Char) (cs : List Char) :
    bytes (c :: cs) = String.utf8EncodeChar c ++ bytes cs := List.flatMap_cons

theorem bytes_append (cs cs' : List Char) : bytes (cs ++ cs') = bytes cs ++ bytes cs' :=
  List.flatMap_append

theorem encode_ofList (cs : List Char) : encode (String.ofList cs) = bytes cs := by
  rw [encode_eq_flatMap, String.toList_ofList, bytes]

/-- A character below 128 is one byte, which is its code. -/
theorem utf8EncodeChar_of_lt (hc : c.toNat < 128) : String.utf8EncodeChar c = [c.toUInt8] :=
  String.utf8EncodeChar_eq_singleton (utf8Size_eq_one hc)

theorem toNat_toUInt8_of_lt (ha : a.toNat < 128) : a.toUInt8.toNat = a.toNat := by
  show a.toNat % 256 = a.toNat
  exact Nat.mod_eq_of_lt (by omega)

/-- A character below 128 has its code as its byte, and all bytes of another are 128 at least. -/
theorem toNat_of_mem (hb : b ∈ String.utf8EncodeChar c) :
    c.toNat < 128 ∧ b.toNat = c.toNat ∨ 128 ≤ c.toNat ∧ 128 ≤ b.toNat := by
  by_cases hc : c.toNat < 128
  · rw [utf8EncodeChar_of_lt hc, List.mem_singleton] at hb
    rw [hb]
    exact .inl ⟨hc, toNat_toUInt8_of_lt hc⟩
  · refine .inr ⟨Nat.le_of_not_lt hc, Nat.le_of_not_lt fun hlow ↦ hc ?_⟩
    rw [toNat_eq_of_mem_utf8EncodeChar hb hlow]
    exact hlow

/-- A character below 128 can be told by its byte. -/
theorem eq_toUInt8_iff_of_mem (ha : a.toNat < 128) (hb : b ∈ String.utf8EncodeChar c) :
    b = a.toUInt8 ↔ c = a := by
  rw [← UInt8.toNat_inj, ← Char.toNat_inj, toNat_toUInt8_of_lt ha]
  have hcases := toNat_of_mem hb
  omega

end Bytes

/-! ## Characters passed and left -/

/-- At this place these characters of the text have been passed, and those are left. -/
structure Place (text : String) (passed left : List Char) (n : Nat) : Prop where
  toList_eq : text.toList = passed ++ left
  eq_length : n = (bytes passed).length

namespace Place

variable {text : String} {passed left taken left' : List Char} {n m : Nat} {c : Char}

/-- At first all characters are left. -/
theorem zero (text : String) : Place text [] text.toList 0 := ⟨rfl, rfl⟩

theorem encode_eq (h : Place text passed left n) : encode text = bytes passed ++ bytes left := by
  rw [encode_eq_flatMap, h.toList_eq]
  exact bytes_append passed left

/-- What is left is what has been taken since, and what is left then. -/
theorem left_eq (h : Place text passed left n) (h' : Place text (passed ++ taken) left' m) :
    left = taken ++ left' := by
  have hsame := h.toList_eq.symm.trans h'.toList_eq
  rwa [List.append_assoc, List.append_cancel_left_eq] at hsame

/-- The place moves on by the bytes taken. -/
theorem eq_add (h : Place text passed left n) (h' : Place text (passed ++ taken) left' m) :
    m = n + (bytes taken).length := by
  rw [h'.eq_length, h.eq_length, bytes_append, List.length_append]

/-- The place after these characters. -/
theorem add (h : Place text passed (taken ++ left) n) :
    Place text (passed ++ taken) left (n + (bytes taken).length) := by
  refine ⟨by rw [h.toList_eq, List.append_assoc], ?_⟩
  rw [h.eq_length, bytes_append, List.length_append]

theorem length_eq (h : Place text passed left n) :
    (encode text).length = n + (bytes left).length := by
  rw [h.encode_eq, List.length_append, h.eq_length]

/-- The text ends where no character is left. -/
theorem length_le_iff (h : Place text passed left n) : (encode text).length ≤ n ↔ left = [] := by
  rw [h.length_eq]
  constructor
  · intro hle
    have hnone : (bytes left).length = 0 := by omega
    cases left with
    | nil => rfl
    | cons c left =>
      have hpos := c.utf8Size_pos
      rw [bytes_cons, List.length_append, String.length_utf8EncodeChar] at hnone
      omega
  · rintro rfl
    exact Nat.le_refl n

/-- A place can be told by the characters left. -/
theorem unique {passed' : List Char} (h : Place text passed left n) (h' : Place text passed' left m) :
    n = m := by
  have hpassed := h.toList_eq.symm.trans h'.toList_eq
  rw [List.append_cancel_right_eq] at hpassed
  rw [h.eq_length, h'.eq_length, hpassed]

/-- At last no character is left. -/
theorem last (text : String) : Place text text.toList [] (encode text).length :=
  ⟨(List.append_nil _).symm, congrArg List.length (encode_eq_flatMap text)⟩

/-- Where no character is left there is no byte. -/
theorem byte?_eq_none (h : Place text passed [] n) : byte? text n = none :=
  List.getElem?_eq_none (h.length_le_iff.mpr rfl)

/-- The bytes of the next character come next. -/
theorem byte?_add (h : Place text passed (c :: left) n) {k : Nat}
    (hk : k < (String.utf8EncodeChar c).length) :
    byte? text (n + k) = some (String.utf8EncodeChar c)[k] := by
  unfold byte?
  rw [h.encode_eq, h.eq_length, List.getElem?_append_right (Nat.le_add_right _ _),
    Nat.add_sub_cancel_left, bytes_cons, List.getElem?_append_left hk, List.getElem?_eq_getElem hk]

/-- The byte is one of the next character. -/
theorem exists_byte (h : Place text passed (c :: left) n) :
    ∃ b ∈ String.utf8EncodeChar c, byte? text n = some b := by
  have hpos : 0 < (String.utf8EncodeChar c).length := by
    rw [String.length_utf8EncodeChar]
    exact c.utf8Size_pos
  exact ⟨_, List.getElem_mem hpos, h.byte?_add hpos⟩

/-- A character begins here, or the text ends. -/
theorem isValid (h : Place text passed left n) : String.Pos.Raw.IsValid text ⟨n⟩ := by
  rw [String.Pos.Raw.isValid_iff_exists_append]
  refine ⟨String.ofList passed, String.ofList left, ?_, ?_⟩
  · rw [← String.toList_inj, h.toList_eq]
    simp
  · rw [h.eq_length, ← encode_ofList]
    simp [encode, String.rawEndPos, String.utf8ByteSize]

/-- What has been taken since another place can be cut out. -/
theorem slice?_eq (h : Place text passed left n) (h' : Place text (passed ++ taken) left' m) :
    slice? text n m = some (String.ofList taken) := by
  have hbytes : ((encode text).take m).drop n = bytes taken := by
    rw [h'.encode_eq, h'.eq_length, List.take_left, bytes_append, h.eq_length, List.drop_left]
  have hle : n ≤ m := by
    rw [h.eq_add h']
    exact Nat.le_add_right n _
  unfold slice?
  rw [if_pos ⟨hle, h.isValid, h'.isValid⟩, hbytes, ← encode_ofList, decode_encode]

/-- The next character can be read, if one is left. -/
theorem character?_eq (h : Place text passed left n) : character? text n = left.head? := by
  have hend : Place text (passed ++ left) [] (encode text).length := h.toList_eq ▸ last text
  unfold character?
  rw [h.slice?_eq hend, Option.bind_some, String.toList_ofList]

end Place

/-! ## Bytes of one-byte characters -/

theorem exists_append_of_bytes_getElem? {cs : List Char} {n : Nat} {b : UInt8}
    (hbyte : (bytes cs)[n]? = some b) (hlow : b.toNat < 128) :
    ∃ passed left, cs = passed ++ left ∧ n = (bytes passed).length := by
  induction cs generalizing n with
  | nil => cases hbyte
  | cons c cs ih =>
    rw [bytes_cons] at hbyte
    by_cases hn : n < (String.utf8EncodeChar c).length
    · -- A byte below 128 is all of its character.
      rw [List.getElem?_append_left hn] at hbyte
      obtain ⟨hc, -⟩ | ⟨-, hhigh⟩ := toNat_of_mem (List.mem_of_getElem? hbyte)
      · rw [utf8EncodeChar_of_lt hc, List.length_singleton] at hn
        exact ⟨[], c :: cs, rfl, Nat.lt_one_iff.mp hn⟩
      · omega
    · rw [List.getElem?_append_right (Nat.le_of_not_lt hn)] at hbyte
      obtain ⟨passed, left, rfl, hlength⟩ := ih hbyte
      refine ⟨c :: passed, left, rfl, ?_⟩
      rw [bytes_cons, List.length_append]
      omega

/-- At a byte below 128 a character begins. -/
theorem exists_place_of_byte? {text : String} {n : Nat} {b : UInt8} (hbyte : byte? text n = some b)
    (hlow : b.toNat < 128) : ∃ passed left, Place text passed left n := by
  unfold byte? at hbyte
  rw [encode_eq_flatMap] at hbyte
  obtain ⟨passed, left, htext, hlength⟩ := exists_append_of_bytes_getElem? hbyte hlow
  exact ⟨passed, left, htext, hlength⟩

end WebVTT.Text
