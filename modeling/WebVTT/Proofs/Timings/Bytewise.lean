import WebVTT.Proofs.Text.Places
import WebVTT.Proofs.Timings.Locality

/-!
# Timings lines, byte by byte

Times and timings lines are scanned here once more, by steps over the bytes of a text (`Bytewise`). A
step looks at the byte at its place and moves on byte by byte. It decodes where it cuts out a name or a
value and where it reports a character, and falls back on something else (`Spare`) if there is nothing
to decode at its place. Every step comes out as the scan of the characters that are left there, and ends
where a character begins (`Bytewise.Follows`). So nothing ever falls back, and scanning bytes is scanning
characters (`Bytewise.parse_eq`, `Bytewise.parseTime_eq`).
-/

namespace WebVTT

open Text (Place byte?)

/-- What is made of a place where there is nothing to decode. -/
structure Spare where
  /-- In place of a character. -/
  character : Char := '\uFFFD'
  /-- In place of a name or a value. -/
  text : String := ""

/-- A step over the bytes of a text, from one place to another. -/
abbrev Bytewise (α : Type) : Type := EStateM TimingFault Nat α

namespace Bytewise

variable (spare : Spare) (text : String)

/-! ## Steps -/

/-- Whether a byte separates the tokens of a line. -/
def isBlankByte (b : UInt8) : Bool := b = ' '.toUInt8 || b = '\t'.toUInt8

/-- Whether a byte is a digit. -/
def isDigitByte (b : UInt8) : Bool := '0'.toUInt8 ≤ b && b ≤ '9'.toUInt8

/-- Whether a byte can be part of a name or a value. -/
def isSettingByte (b : UInt8) : Bool := !isBlankByte b && b != ':'.toUInt8

/-- The place after the byte at this place, if there is one. -/
def bump (n : Nat) : Nat := if n < (Text.encode text).length then n + 1 else n

variable {text} in
theorem bump_of_byte? {n : Nat} {b : UInt8} (h : byte? text n = some b) : bump text n = n + 1 :=
  if_pos (Text.lt_length_of_byte? h)

/-- The place after all bytes of a kind. -/
def passWhile (p : UInt8 → Bool) (n : Nat) : Nat :=
  match _h : byte? text n with
  | some b => if p b then passWhile p (bump text n) else n
  | none => n
termination_by (Text.encode text).length - n
decreasing_by
  have := Text.lt_length_of_byte? _h
  rw [bump_of_byte? _h]
  omega

/-- Pass spaces and tabs. -/
def blanks : Bytewise Unit := modify (passWhile text isBlankByte)

/-- Pass a byte if it is the one expected, and tell whether it was. -/
def accept (expected : UInt8) : Bytewise Bool := fun n ↦
  if byte? text n = some expected then .ok true (bump text n) else .ok false n

/-- Pass all digits that follow, given the value of those before. -/
def digitsAfter (value : UInt64) : Bytewise UInt64 := fun n ↦
  match _h : byte? text n with
  | some b =>
    if isDigitByte b then
      let extended := value * 10 + (b - '0'.toUInt8).toUInt64
      if Scan.numberLimit < extended then .error .numberOverflow n
      else digitsAfter extended (bump text n)
    else
      .ok value n
  | none => .ok value n
termination_by n => (Text.encode text).length - n
decreasing_by
  have := Text.lt_length_of_byte? _h
  rw [bump_of_byte? _h]
  omega

/-- Pass a number: one digit or more. -/
def number : Bytewise UInt32 := do
  if (byte? text (← get)).any isDigitByte then
    let value ← digitsAfter text 0
    if value < 4294967296 then
      return value.toUInt32
    else
      throw .numberOverflow
  else
    throw .expectedDigit

/-- Pass hours, minutes and seconds in any of the three forms. -/
def clock : Bytewise (UInt32 × UInt32 × UInt32) := do
  let first ← number text
  if ← accept text ':'.toUInt8 then
    let second ← number text
    let hasHours := decide (byte? text (← get) = some ':'.toUInt8)
    if 60 ≤ second then
      throw (.outOfRange (if hasHours then .minutes else .seconds) second)
    else if ← accept text ':'.toUInt8 then
      let third ← number text
      if 60 ≤ third then
        throw (.outOfRange .seconds third)
      else
        return (first, second, third)
    else if 60 ≤ first then
      throw (.outOfRange .minutes first)
    else
      return (0, first, second)
  else
    return (first / 3600, first / 60 % 60, first % 60)

/-- Pass a point and tenths, hundredths or thousandths of a second, in milliseconds; none where there
is no point. Places are counted in bytes. -/
def fraction : Bytewise UInt32 := do
  if ← accept text '.'.toUInt8 then
    let start ← get
    let value ← number text
    match (← get) - start with
    | 1 => return value * 100
    | 2 => return value * 10
    | 3 => return value
    | _ => throw .fractionTooLong
  else
    return 0

/-- Pass a timestamp and the blanks before it. It ends at a blank or with the text. -/
def timestamp : Bytewise Time := do
  blanks text
  let (hours, minutes, seconds) ← clock text
  let milliseconds ← fraction text
  match byte? text (← get) with
  | none => return { hours, minutes, seconds, milliseconds }
  | some b =>
    if isBlankByte b then
      return { hours, minutes, seconds, milliseconds }
    else
      throw (.trailingCharacter ((Text.character? text (← get)).getD spare.character))

/-- Pass one setting, which begins at once. -/
def setting : Bytewise Setting := fun start ↦
  let colon := passWhile text isSettingByte start
  if byte? text colon = some ':'.toUInt8 then
    let name := (Text.slice? text start colon).getD spare.text
    let start := bump text colon
    let stop := passWhile text isSettingByte start
    let value := (Text.slice? text start stop).getD spare.text
    if name.isEmpty then .error .emptySettingName colon
    else if byte? text stop = some ':'.toUInt8 then .error .colonInSettingValue stop
    else if value.isEmpty then .error .emptySettingValue stop
    else .ok ⟨name, value⟩ stop
  else
    .error .unterminatedSettingName colon

theorem le_passWhile (p : UInt8 → Bool) (n : Nat) : n ≤ passWhile text p n := by
  fun_induction passWhile text p n with
  | case1 n b hb _ ih =>
    rw [bump_of_byte? hb] at ih ⊢
    exact Nat.le_of_succ_le ih
  | case2 => exact Nat.le_refl _
  | case3 => exact Nat.le_refl _

variable {spare text} in
/-- A setting takes its colon at least. -/
theorem lt_of_setting {n m : Nat} {s : Setting} (h : setting spare text n = .ok s m) : n < m := by
  unfold setting at h
  dsimp only at h
  split at h
  · next hcolon =>
    have hname := le_passWhile text isSettingByte n
    have hvalue := le_passWhile text isSettingByte
      (bump text (passWhile text isSettingByte n))
    split at h <;> try split at h <;> try split at h
    all_goals cases h
    rw [bump_of_byte? hcolon] at hvalue ⊢
    omega
  · cases h

/-- Pass settings up to the end of the text, given those found before. -/
def settingsAfter (found : Array Setting) (n : Nat) :
    EStateM.Result TimingFault Nat (List Setting) :=
  if _hend : (Text.encode text).length ≤ passWhile text isBlankByte n then
    .ok found.toList (passWhile text isBlankByte n)
  else
    match _h : setting spare text (passWhile text isBlankByte n) with
    | .ok s m => settingsAfter (found.push s) m
    | .error fault m => .error fault m
termination_by (Text.encode text).length - n
decreasing_by
  have := le_passWhile text isBlankByte n
  have := lt_of_setting _h
  omega

/-- Pass settings up to the end of the text. -/
def settings : Bytewise (List Setting) := settingsAfter spare text #[]

/-! ## Texts and lines -/

variable {spare text} in
/-- What steps over all bytes of a text come to. -/
def of {α : Type} (step : Bytewise α) : Except TimingFault α :=
  match step 0 with
  | .ok a _ => .ok a
  | .error fault _ => .error fault

/-- Pass the part of a line before the arrow. -/
def scanHead : Bytewise Time := do
  let start ← timestamp spare text
  blanks text
  if (Text.encode text).length ≤ (← get) then return start else throw .junkBeforeArrow

/-- Pass the part of a line after the arrow. -/
def scanTail : Bytewise (Time × List Setting) := do
  let stop ← timestamp spare text
  let settings ← settings spare text
  return (stop, settings)

/-- The timings that a line gives, read byte by byte on either side of the arrow. -/
def parse (line : String) : Except TimingFault Timings :=
  match Timings.splitArrow [] line.toList with
  | none => .error .missingArrow
  | some (head, tail) => do
    let start ← of (scanHead spare (String.ofList head))
    let (stop, settings) ← of (scanTail spare (String.ofList tail))
    return { start, stop, settings }

/-- Pass a timestamp and the blanks around it, and find nothing to decode after them. -/
def loneTimestamp : Bytewise Time := do
  let time ← timestamp spare text
  blanks text
  match Text.character? text (← get) with
  | none => return time
  | some c => throw (.trailingCharacter c)

/-- The time that a text denotes, read byte by byte. -/
def parseTime : Except TimingFault Time := of (loneTimestamp spare text)

/-! ## The same steps over characters -/

theorem bind_get {β : Type} {f : Nat → Bytewise β} {n : Nat} : (get >>= f) n = f n n := rfl

variable {spare : Spare} {text : String} {α β : Type} {passed left taken : List Char} {n : Nat}

/-- A step over bytes and a scan of characters come out the same, and where both come off the step has
passed what the scan has taken. A fault, too, leaves a place where a character begins. -/
inductive Agrees (text : String) (passed : List Char) :
    EStateM.Result TimingFault Nat α → EStateM.Result TimingFault (List Char) α → Prop where
  | ok (a : α) {taken left : List Char} {n : Nat} : Place text (passed ++ taken) left n →
      Agrees text passed (.ok a n) (.ok a left)
  | error (fault : TimingFault) {passed' left' left : List Char} {n : Nat} :
      Place text passed' left' n → Agrees text passed (.error fault n) (.error fault left)

namespace Agrees

theorem stay (a : α) (h : Place text passed left n) : Agrees text passed (.ok a n) (.ok a left) :=
  .ok a (show Place text (passed ++ []) left n by rwa [List.append_nil])

theorem of_append {x : EStateM.Result TimingFault Nat α}
    {y : EStateM.Result TimingFault (List Char) α} (h : Agrees text (passed ++ taken) x y) :
    Agrees text passed x y := by
  cases h with
  | ok a h =>
    rw [List.append_assoc] at h
    exact .ok a h
  | error fault h => exact .error fault h

section Iff

variable {x : EStateM.Result TimingFault Nat α} {y : EStateM.Result TimingFault (List Char) α}

/-- The step comes off, and where, exactly if the scan comes off and leaves what is left there. -/
theorem eq_ok_iff {a : α} (h : Agrees text passed x y) :
    x = .ok a n ↔ ∃ passed' left', Place text passed' left' n ∧ y = .ok a left' := by
  cases h with
  | ok a' hplace =>
    constructor
    · rintro ⟨⟩
      exact ⟨_, _, hplace, rfl⟩
    · rintro ⟨_, _, hplace', ⟨⟩⟩
      rw [hplace.unique hplace']
  | error => exact iff_of_false nofun (by rintro ⟨_, _, -, ⟨⟩⟩)

theorem exists_error_iff {fault : TimingFault} (h : Agrees text passed x y) :
    (∃ n, x = .error fault n) ↔ ∃ left', y = .error fault left' := by
  cases h with
  | ok => exact iff_of_false (by rintro ⟨_, ⟨⟩⟩) (by rintro ⟨_, ⟨⟩⟩)
  | error fault' =>
    constructor <;> rintro ⟨_, ⟨⟩⟩ <;> exact ⟨_, rfl⟩

end Iff

theorem bind {x : Bytewise α} {y : Scan α} {f : α → Bytewise β} {g : α → Scan β}
    (h : Agrees text passed (x n) (y left))
    (hmore : ∀ a taken rest m, Place text (passed ++ taken) rest m → y left = .ok a rest →
      Agrees text (passed ++ taken) (f a m) (g a rest)) :
    Agrees text passed ((x >>= f) n) ((y >>= g) left) := by
  show Agrees text passed (EStateM.bind x f n) (EStateM.bind y g left)
  unfold EStateM.bind
  generalize hx : x n = result, hy : y left = result' at h
  cases h with
  | ok a hplace => exact (hmore a _ _ _ hplace hy).of_append
  | error fault hplace => exact .error fault hplace

end Agrees

/-- At every place where a character begins, the step comes out as the scan of what is left. -/
def Follows (text : String) (x : Bytewise α) (y : Scan α) : Prop :=
  ∀ passed left n, Place text passed left n → Agrees text passed (x n) (y left)

namespace Follows

theorem pure (a : α) : Follows text (Pure.pure a) (Pure.pure a) :=
  fun _ _ _ h ↦ .stay a h

theorem throw (fault : TimingFault) :
    Follows text (throw fault : Bytewise α) (throw fault : Scan α) :=
  fun _ _ _ h ↦ .error fault h

theorem bind {x : Bytewise α} {y : Scan α} {f : α → Bytewise β} {g : α → Scan β}
    (hx : Follows text x y) (hf : ∀ a, Follows text (f a) (g a)) :
    Follows text (x >>= f) (y >>= g) :=
  fun _ _ _ h ↦ (hx _ _ _ h).bind fun a _ _ _ hplace _ ↦ hf a _ _ _ hplace

theorem ite {p : Prop} [Decidable p] {x x' : Bytewise α} {y y' : Scan α} (h : Follows text x y)
    (h' : Follows text x' y') : Follows text (if p then x else x') (if p then y else y') := by
  split
  · exact h
  · exact h'

/-- What comes of all bytes of a text comes of its characters. -/
theorem of_eq {x : Bytewise α} {y : Scan α} (h : Follows text x y) : of x = y.of text.toList := by
  have hplace := h _ _ _ (.zero text)
  unfold of Scan.of
  generalize x 0 = result, y text.toList = result' at hplace
  cases hplace <;> rfl

end Follows

/-! ### Single bytes -/

section Byte

variable {a c : Char} {b : UInt8} {p : UInt8 → Bool} {q : Char → Bool}

/-- The kind of a character is the kind of all its bytes. -/
def SameKind (p : UInt8 → Bool) (q : Char → Bool) : Prop :=
  ∀ c, ∀ b ∈ String.utf8EncodeChar c, p b = q c

theorem sameKind_blank : SameKind isBlankByte isBlank := by
  intro c b hb
  have hspace : b = ' '.toUInt8 ↔ c = ' ' := Text.eq_toUInt8_iff_of_mem (by decide) hb
  have htab : b = '\t'.toUInt8 ↔ c = '\t' := Text.eq_toUInt8_iff_of_mem (by decide) hb
  simp only [isBlankByte, isBlank, hspace, htab]

theorem sameKind_digit : SameKind isDigitByte Char.isDigit := by
  intro c b hb
  have hcases := Text.toNat_of_mem hb
  rw [Bool.eq_iff_iff, Char.isDigit_iff_toNat]
  simp only [isDigitByte, Bool.and_eq_true, decide_eq_true_eq, UInt8.le_iff_toNat_le]
  have hzero : '0'.toUInt8.toNat = '0'.toNat := rfl
  have hnine : '9'.toUInt8.toNat = '9'.toNat := rfl
  have hcode : '9'.toNat = 57 := rfl
  omega

theorem sameKind_setting : SameKind isSettingByte Scan.isSettingChar := by
  intro c b hb
  have hcolon : b = ':'.toUInt8 ↔ c = ':' := Text.eq_toUInt8_iff_of_mem (by decide) hb
  have hne : (b != ':'.toUInt8) = (c != ':') := by
    rw [Bool.eq_iff_iff, bne_iff_ne, bne_iff_ne, Ne, Ne, hcolon]
  simp only [isSettingByte, Scan.isSettingChar, sameKind_blank c b hb, hne]

/-- The byte at the place tells the kind of the next character. -/
theorem any_byte?_eq (h : Place text passed left n) (hpq : SameKind p q) :
    (byte? text n).any p = left.head?.any q := by
  cases left with
  | nil =>
    rw [h.byte?_eq_none]
    rfl
  | cons c left =>
    obtain ⟨b, hb, hbyte⟩ := h.exists_byte
    rw [hbyte]
    exact hpq c b hb

theorem byte?_eq_iff (h : Place text passed left n) (ha : a.toNat < 128) :
    byte? text n = some a.toUInt8 ↔ left.head? = some a := by
  cases left with
  | nil => simp [h.byte?_eq_none]
  | cons c left =>
    obtain ⟨b, hb, hbyte⟩ := h.exists_byte
    rw [hbyte, Option.some_inj, Text.eq_toUInt8_iff_of_mem ha hb, List.head?_cons, Option.some_inj]

/-- Past a character of one byte the next one begins. -/
theorem place_bump (h : Place text passed (c :: left) n) (hc : c.toNat < 128) :
    Place text (passed ++ [c]) left (bump text n) := by
  obtain ⟨b, -, hbyte⟩ := h.exists_byte
  have hnext : Place text (passed ++ [c]) left (n + (Text.bytes [c]).length) := Place.add h
  rw [Text.bytes_cons, Text.utf8EncodeChar_of_lt hc] at hnext
  rw [bump_of_byte? hbyte]
  exact hnext

theorem follows_accept (ha : a.toNat < 128) :
    Follows text (accept text a.toUInt8) (Scan.accept a) := by
  intro passed left n h
  unfold accept
  simp only [byte?_eq_iff h ha]
  cases left with
  | nil => exact .stay false h
  | cons c left =>
    simp only [List.head?_cons, Option.some_inj]
    rw [Scan.accept]
    split
    · next hc =>
      subst hc
      exact .ok true (place_bump h ha)
    · exact .stay false h

end Byte

/-! ### Runs -/

section Run

variable {c : Char} {p : UInt8 → Bool} {q : Char → Bool}

theorem passWhile_of_byte? {b : UInt8} (hbyte : byte? text n = some b) :
    passWhile text p n = if p b then passWhile text p (bump text n) else n := by
  rw [passWhile]
  split
  · next b' hbyte' =>
    cases hbyte.symm.trans hbyte'
    rfl
  · next hnone => cases hbyte.symm.trans hnone

/-- Bytes of a kind are passed, however many there are. -/
theorem passWhile_add {k : Nat}
    (h : ∀ i < k, ∃ b, byte? text (n + i) = some b ∧ p b) :
    passWhile text p n = passWhile text p (n + k) := by
  induction k with
  | zero => rfl
  | succ k ih =>
    obtain ⟨b, hbyte, hp⟩ := h k (Nat.lt_succ_self k)
    rw [ih fun i hi ↦ h i (Nat.lt_succ_of_lt hi), passWhile_of_byte? hbyte, if_pos hp,
      bump_of_byte? hbyte, Nat.add_assoc]

/-- Where the byte is not of the kind, none is passed. -/
theorem passWhile_eq_self (h : ¬(byte? text n).any p) : passWhile text p n = n := by
  rw [passWhile]
  split
  · next b hbyte =>
    rw [hbyte] at h
    exact if_neg h
  · rfl

/-- All characters of a kind are passed, and no others. -/
theorem place_passWhile (h : Place text passed left n) (hpq : SameKind p q) :
    Place text (passed ++ left.takeWhile q) (left.dropWhile q) (passWhile text p n) := by
  induction left generalizing passed n with
  | nil =>
    rw [passWhile_eq_self (by rw [h.byte?_eq_none]; exact nofun)]
    simpa using h
  | cons c left ih =>
    by_cases hc : q c
    · have hpass : passWhile text p n = passWhile text p (n + (String.utf8EncodeChar c).length) :=
        passWhile_add fun i hi ↦
          ⟨_, h.byte?_add hi, (hpq c _ (List.getElem_mem hi)).trans hc⟩
      have hnext : Place text (passed ++ [c]) left (n + (Text.bytes [c]).length) := Place.add h
      rw [Text.bytes_cons, Text.bytes_nil, List.append_nil] at hnext
      rw [hpass, List.takeWhile_cons_of_pos hc, List.dropWhile_cons_of_pos hc]
      simpa using ih hnext
    · rw [List.takeWhile_cons_of_neg hc, List.dropWhile_cons_of_neg hc, List.append_nil,
        passWhile_eq_self (by rw [any_byte?_eq h hpq]; exact hc)]
      exact h

theorem follows_blanks : Follows text (blanks text) Scan.blanks := by
  intro passed left n h
  show Agrees text passed (.ok () _) (.ok () _)
  exact .ok () (place_passWhile h sameKind_blank)

end Run

/-! ### Numbers -/

/-- A digit has the same value as a byte. -/
theorem sub_toUInt64_eq {c : Char} (hc : c.isDigit) :
    (c.toUInt8 - '0'.toUInt8).toUInt64 = Scan.digitValue c := by
  obtain ⟨hle, hlt⟩ := Char.isDigit_iff_toNat.mp hc
  have hnine : '9'.toNat = 57 := rfl
  have hbyte : c.toUInt8.toNat = c.toNat := Text.toNat_toUInt8_of_lt (by omega)
  have hle' : '0'.toUInt8 ≤ c.toUInt8 := UInt8.le_iff_toNat_le.mpr (hbyte ▸ hle)
  rw [← UInt64.toNat_inj, UInt8.toNat_toUInt64, UInt8.toNat_sub_of_le _ _ hle', hbyte, Scan.digitValue,
    UInt64.toNat_ofNat_of_lt' (Nat.lt_of_le_of_lt (show _ ≤ 57 by omega) (by decide))]
  rfl

theorem digitsAfter_of_not {value : UInt64} (h : ¬(byte? text n).any isDigitByte) :
    digitsAfter text value n = .ok value n := by
  rw [digitsAfter]
  split
  · next b hbyte =>
    rw [hbyte] at h
    exact if_neg h
  · rfl

theorem digitsAfter_of_digit {value : UInt64} {b : UInt8} (hbyte : byte? text n = some b)
    (hb : isDigitByte b) : digitsAfter text value n =
      if Scan.numberLimit < value * 10 + (b - '0'.toUInt8).toUInt64 then .error .numberOverflow n
      else digitsAfter text (value * 10 + (b - '0'.toUInt8).toUInt64) (bump text n) := by
  rw [digitsAfter]
  split
  · next b' hbyte' =>
    cases hbyte.symm.trans hbyte'
    exact if_pos hb
  · next hnone => cases hbyte.symm.trans hnone

theorem follows_digitsAfter (value : UInt64) :
    Follows text (digitsAfter text value) (Scan.digitsAfter value) := by
  intro passed left n h
  have hany := any_byte?_eq h sameKind_digit
  induction left generalizing value passed n with
  | nil =>
    rw [digitsAfter_of_not (by rw [hany]; exact nofun)]
    exact .stay value h
  | cons c left ih =>
    rw [Scan.digitsAfter_cons]
    split
    · next hc =>
      obtain ⟨hle, hlt⟩ := Char.isDigit_iff_toNat.mp hc
      have hlow : c.toNat < 128 := Nat.lt_of_le_of_lt hlt (by decide)
      have hbyte := (byte?_eq_iff h hlow).mpr rfl
      rw [hbyte] at hany
      rw [digitsAfter_of_digit hbyte (hany.trans hc), sub_toUInt64_eq hc]
      have hnext := place_bump h hlow
      split
      · exact .error _ h
      · exact (ih _ _ _ hnext (any_byte?_eq hnext sameKind_digit)).of_append
    · next hc =>
      rw [digitsAfter_of_not (by rw [hany]; exact hc)]
      exact .stay value h

theorem follows_number : Follows text (number text) Scan.number := by
  intro passed left n h
  unfold number Scan.number
  rw [bind_get, Scan.bind_get, any_byte?_eq h sameKind_digit]
  have hdigits := (@follows_digitsAfter text 0).bind fun value ↦
    Follows.ite (p := value < 4294967296) (.pure value.toUInt32) (.throw .numberOverflow)
  exact Follows.ite hdigits (.throw .expectedDigit) _ _ _ h

/-! ### Timestamps -/

/-- It makes no difference whether a byte is only looked at before a fault is reported. -/
theorem follows_look {a : Char} (ha : a.toNat < 128) {late : Prop} [Decidable late]
    (fault : Bool → TimingFault) {f : Bool → Bytewise α} {g : Bool → Scan α}
    (hfg : ∀ taken, Follows text (f taken) (g taken)) :
    Follows text
      (do
        let seen := decide (byte? text (← get) = some a.toUInt8)
        if late then throw (fault seen) else accept text a.toUInt8 >>= f)
      (do
        let taken ← Scan.accept a
        if late then throw (fault taken) else g taken) := by
  intro passed left n h
  rw [bind_get]
  by_cases hlate : late
  · have haccept : ∃ rest, Scan.accept a left = .ok (decide (left.head? = some a)) rest := by
      cases left with
      | nil => exact ⟨[], rfl⟩
      | cons c rest =>
        by_cases hc : c = a
        · exact ⟨rest, by simp [Scan.accept, hc]⟩
        · exact ⟨c :: rest, by simp [Scan.accept, hc]⟩
    obtain ⟨rest, haccept⟩ := haccept
    rw [Scan.bind_of_ok haccept, if_pos hlate, if_pos hlate, decide_eq_decide.mpr (byte?_eq_iff h ha)]
    exact .error _ h
  · simp only [if_neg hlate]
    exact (follows_accept ha).bind hfg _ _ _ h

theorem follows_clock : Follows text (clock text) Scan.clock := by
  unfold clock Scan.clock
  have hcolon : Follows text (accept text ':'.toUInt8) (Scan.accept ':') := follows_accept (by decide)
  refine follows_number.bind fun first ↦ hcolon.bind fun taken ↦ ?_
  refine .ite (follows_number.bind fun second ↦ ?_) (.pure _)
  refine follows_look (a := ':') (by decide)
    (fun hasHours ↦ .outOfRange (if hasHours then .minutes else .seconds) second) fun hasHours ↦ ?_
  refine .ite (follows_number.bind fun third ↦ ?_) (.ite (.throw _) (.pure _))
  exact .ite (.throw _) (.pure _)

/-- The digits of a number are as many as its bytes. -/
theorem length_bytes_of_isDigit {ds : List Char} (hds : ∀ c ∈ ds, c.isDigit) :
    (Text.bytes ds).length = ds.length := by
  induction ds with
  | nil => rfl
  | cons c ds ih =>
    obtain ⟨hc, hds⟩ := List.forall_mem_cons.mp hds
    have hlow : c.toNat < 128 :=
      Nat.lt_of_le_of_lt (Char.isDigit_iff_toNat.mp hc).2 (by decide)
    rw [Text.bytes_cons, Text.utf8EncodeChar_of_lt hlow, List.length_append, ih hds, Nat.add_comm]
    rfl

theorem follows_fraction : Follows text (fraction text) Scan.fraction := by
  unfold fraction Scan.fraction
  refine (follows_accept (by decide)).bind fun taken ↦ .ite ?_ (.pure 0)
  intro passed left n h
  rw [bind_get, Scan.bind_get]
  refine (follows_number _ _ _ h).bind fun value ds rest m hplace hnumber ↦ ?_
  have hds : ds = left.takeWhile Char.isDigit := by
    have hleft := h.left_eq hplace
    rw [(Scan.number_eq_ok hnumber).2.2] at hleft
    exact List.append_cancel_right (hleft.symm.trans List.takeWhile_append_dropWhile.symm)
  have hplaces : m - n = (left.takeWhile Char.isDigit).length := by
    rw [h.eq_add hplace, Nat.add_sub_cancel_left, hds]
    exact length_bytes_of_isDigit fun c hc ↦ List.mem_takeWhile_imp hc
  rw [bind_get, hplaces]
  generalize (left.takeWhile Char.isDigit).length = places
  match places with
  | 1 => exact .stay _ hplace
  | 2 => exact .stay _ hplace
  | 3 => exact .stay _ hplace
  | 0 => exact .error _ hplace
  | _ + 4 => exact .error _ hplace

theorem follows_timestamp : Follows text (timestamp spare text) Scan.timestamp := by
  unfold timestamp Scan.timestamp
  refine follows_blanks.bind fun _ ↦ follows_clock.bind fun (hours, minutes, seconds) ↦ ?_
  refine follows_fraction.bind fun milliseconds ↦ ?_
  intro passed left n h
  rw [bind_get, Scan.bind_get]
  cases left with
  | nil =>
    rw [h.byte?_eq_none]
    exact .stay _ h
  | cons c left =>
    obtain ⟨b, hb, hbyte⟩ := h.exists_byte
    rw [hbyte]
    dsimp only
    rw [sameKind_blank c b hb]
    split
    · exact .stay _ h
    · rw [bind_get, h.character?_eq]
      exact .error _ h

/-! ### Settings -/

theorem isEmpty_ofList (cs : List Char) : (String.ofList cs).isEmpty = cs.isEmpty := by
  rw [Bool.eq_iff_iff, String.isEmpty_iff, String.ofList_eq_empty_iff, List.isEmpty_iff]

theorem follows_setting : Follows text (setting spare text) Scan.setting := by
  intro passed left n h
  have hname := place_passWhile h sameKind_setting
  unfold setting Scan.setting
  dsimp only
  generalize left.takeWhile Scan.isSettingChar = name, left.dropWhile Scan.isSettingChar = more at hname
  rw [if_congr (byte?_eq_iff hname (by decide)) rfl rfl]
  split
  · next hhead =>
    obtain ⟨rest, rfl⟩ := List.head?_eq_some_iff.mp hhead
    have hcolon := place_bump hname (by decide)
    have hvalue := place_passWhile hcolon sameKind_setting
    rw [h.slice?_eq hname, hcolon.slice?_eq hvalue, if_congr (byte?_eq_iff hvalue (by decide)) rfl rfl]
    simp only [Option.getD_some, isEmpty_ofList]
    split
    · exact .error _ hname
    split
    · exact .error _ hvalue
    split
    · exact .error _ hvalue
    · rw [List.append_assoc, List.append_assoc] at hvalue
      exact .ok _ hvalue
  · next hhead =>
    split
    · exact absurd rfl hhead
    · exact .error _ hname

/-- Before the end of the text one setting is passed, and then the others. -/
theorem settingsAfter_of_not_le {found : Array Setting}
    (h : ¬(Text.encode text).length ≤ passWhile text isBlankByte n) :
    settingsAfter spare text found n =
      match setting spare text (passWhile text isBlankByte n) with
      | .ok s m => settingsAfter spare text (found.push s) m
      | .error fault m => .error fault m := by
  rw [settingsAfter, dif_neg h]
  split
  · next s m hsetting => rw [hsetting]
  · next fault m hsetting => rw [hsetting]

theorem follows_settingsAfter (found : Array Setting) :
    Follows text (settingsAfter spare text found) (Scan.settingsAfter found) := by
  intro passed left n h
  have hblanks := place_passWhile h sameKind_blank
  have hstep := @follows_setting spare text _ _ _ hblanks
  -- Along the recursion of the scan: each setting it takes, the step takes at the same place.
  fun_induction Scan.settingsAfter found left generalizing passed n with
  | case1 found left hempty =>
    have hend := List.isEmpty_iff.mp hempty
    rw [settingsAfter, dif_pos (hblanks.length_le_iff.mpr hend)]
    rw [hend] at hblanks
    exact .ok _ hblanks
  | case2 found left hne s rest hsetting ih =>
    rw [settingsAfter_of_not_le (mt hblanks.length_le_iff.mp (by simpa using hne))]
    rw [hsetting] at hstep
    generalize setting spare text _ = result at hstep ⊢
    cases hstep with
    | ok _ hplace =>
      rw [List.append_assoc] at hplace
      have hblanks' := place_passWhile hplace sameKind_blank
      exact (ih _ _ hplace hblanks' (follows_setting _ _ _ hblanks')).of_append
  | case3 found left hne fault rest hsetting =>
    rw [settingsAfter_of_not_le (mt hblanks.length_le_iff.mp (by simpa using hne))]
    rw [hsetting] at hstep
    generalize setting spare text _ = result at hstep ⊢
    cases hstep with
    | error _ hplace => exact .error _ hplace

/-! ### Texts and lines -/

theorem follows_scanHead : Follows text (scanHead spare text) Timings.scanHead := by
  unfold scanHead Timings.scanHead
  refine follows_timestamp.bind fun start ↦ follows_blanks.bind fun _ ↦ ?_
  intro passed left n h
  rw [bind_get, Scan.bind_get, if_congr (h.length_le_iff.trans List.isEmpty_iff.symm) rfl rfl]
  exact Follows.ite (.pure start) (.throw .junkBeforeArrow) _ _ _ h

theorem follows_scanTail : Follows text (scanTail spare text) Timings.scanTail := by
  unfold scanTail Timings.scanTail
  refine follows_timestamp.bind fun stop ↦ ?_
  exact Follows.bind (follows_settingsAfter #[]) fun settings ↦ .pure (stop, settings)

theorem follows_loneTimestamp : Follows text (loneTimestamp spare text) Scan.loneTimestamp := by
  unfold loneTimestamp Scan.loneTimestamp
  refine follows_timestamp.bind fun time ↦ follows_blanks.bind fun _ ↦ ?_
  intro passed left n h
  rw [bind_get, Scan.bind_get, h.character?_eq]
  cases left with
  | nil => exact .stay time h
  | cons c left => exact .error (.trailingCharacter c) h

/-- Whatever there is to fall back on, bytes give the timings that characters give. -/
theorem parse_eq (line : String) : parse spare line = Timings.parse line := by
  unfold parse Timings.parse
  cases Timings.splitArrow [] line.toList with
  | none => rfl
  | some parts =>
    dsimp only
    rw [follows_scanHead.of_eq, follows_scanTail.of_eq, String.toList_ofList, String.toList_ofList]

/-- Whatever there is to fall back on, bytes give the time that characters give. -/
theorem parseTime_eq (text : String) : parseTime spare text = Time.parse text :=
  follows_loneTimestamp.of_eq

end Bytewise

end WebVTT
