import WebVTT.Document.Parts
import WebVTT.Timings.Scan

/-!
# Cue settings

Settings are blank-separated pairs `name:value`. Neither part may be empty or hold a colon; there is
no other rule for either, and a name may come twice.
-/

namespace WebVTT.Scan

/-- Whether a character can be part of a name or a value. -/
def isSettingChar (c : Char) : Bool := !isBlank c && c != ':'

/-- Take one setting, which begins at once. -/
def setting : Scan Setting := fun text ↦
  let name := text.takeWhile isSettingChar
  match text.dropWhile isSettingChar with
  | ':' :: rest =>
    let value := rest.takeWhile isSettingChar
    let left := rest.dropWhile isSettingChar
    if name.isEmpty then .error .emptySettingName (':' :: rest)
    else if left.head? = some ':' then .error .colonInSettingValue left
    else if value.isEmpty then .error .emptySettingValue left
    else .ok ⟨String.ofList name, String.ofList value⟩ left
  | left => .error .unterminatedSettingName left

/-- Dropping the characters of a class never lengthens a text. -/
theorem length_dropWhile_le (p : Char → Bool) (text : List Char) :
    (text.dropWhile p).length ≤ text.length :=
  (List.dropWhile_sublist p).length_le

/-- A setting takes its colon at least. -/
theorem length_setting_lt {text left : List Char} {s : Setting}
    (h : setting text = .ok s left) : left.length < text.length := by
  have hname := length_dropWhile_le isSettingChar text
  unfold setting at h
  split at h
  · next rest hcolon =>
    have hvalue := length_dropWhile_le isSettingChar rest
    rw [hcolon, List.length_cons] at hname
    dsimp only at h
    split at h <;> try split at h <;> try split at h
    all_goals cases h
    omega
  · cases h

/-- Take settings up to the end of the text, given those found before. -/
def settingsAfter (found : Array Setting) (text : List Char) :
    EStateM.Result TimingFault (List Char) (List Setting) :=
  if (text.dropWhile isBlank).isEmpty then
    .ok found.toList []
  else
    match _h : setting (text.dropWhile isBlank) with
    | .ok s left => settingsAfter (found.push s) left
    | .error fault left => .error fault left
termination_by text.length
decreasing_by exact Nat.lt_of_lt_of_le (length_setting_lt _h) (length_dropWhile_le isBlank text)

/-- Take settings up to the end of the text. -/
def settings : Scan (List Setting) := settingsAfter #[]

end WebVTT.Scan
