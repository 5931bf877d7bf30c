import WebVTT.Proofs.Lines.Basic
import WebVTT.Proofs.Text.Encoding

/-!
# After some lines

A place between the lines of a stream is known by the number of lines before it. `Line.after` is what
comes behind it as bytes, and `Line.TextsFrom` as texts.
-/

namespace WebVTT

namespace Line

variable {bytes content rest : List UInt8} {k : Nat} {e : Ending}

/-- The bytes after the first lines of a stream. -/
def after (k : Nat) (bytes : List UInt8) : List UInt8 := ((split bytes).drop k).flatMap Line.bytes

/-- What ended the last of the first lines of a stream. -/
def endingBefore (k : Nat) (bytes : List UInt8) : Option Ending :=
  ((split bytes).take k).getLast?.bind Line.ending

@[simp] theorem after_zero (bytes : List UInt8) : after 0 bytes = bytes := flatMap_bytes_split bytes

/-- The lines after some lines are those of the bytes after them. -/
theorem split_after (k : Nat) (bytes : List UInt8) : split (after k bytes) = (split bytes).drop k := by
  induction bytes using split_induction generalizing k with
  | nil => simp [after]
  | unended content hcontent hne =>
    cases k with
    | zero => rw [after_zero, List.drop_zero]
    | succ k => simp [after, split_of_unbroken hcontent hne]
  | ended content e rest hcontent he ih =>
    cases k with
    | zero => rw [after_zero, List.drop_zero]
    | succ k => simpa [after, split_append hcontent he] using ih k

/-- After one line more, the bytes are those after that line. -/
theorem after_succ (k : Nat) (bytes : List UInt8) :
    after (k + 1) bytes = after 1 (after k bytes) := by
  rw [after, after, split_after, List.drop_drop]

theorem after_succ_of_ending (hcontent : Unbroken content) (he : e.OverBefore rest)
    (h : after k bytes = content ++ (e.bytes ++ rest)) : after (k + 1) bytes = rest := by
  rw [after_succ, h, after, split_append hcontent he]
  exact flatMap_bytes_split rest

theorem after_succ_of_unbroken (hcontent : Unbroken (after k bytes)) :
    after (k + 1) bytes = [] := by
  rw [after_succ]
  by_cases hne : after k bytes = []
  · rw [hne]
    rfl
  · rw [after, split_of_unbroken hcontent hne]
    rfl

theorem endingBefore_succ (hcontent : Unbroken content) (he : e.OverBefore rest)
    (h : after k bytes = content ++ (e.bytes ++ rest)) : endingBefore (k + 1) bytes = some e := by
  have hdrop : (split bytes).drop k = ⟨content, some e⟩ :: split rest := by
    rw [← split_after, h, split_append hcontent he]
  have hk : (split bytes)[k]? = some ⟨content, some e⟩ := by
    rw [← List.head?_drop, hdrop, List.head?_cons]
  rw [endingBefore, List.take_add_one, hk]
  simp

/-- Nothing is left after line `k` only if there are no more than so many lines. -/
theorem after_eq_nil_iff : after k bytes = [] ↔ (split bytes)[k]? = none := by
  rw [← split_eq_nil_iff, split_after, List.drop_eq_nil_iff, List.getElem?_eq_none_iff]

/-- The line after some lines is the first one of the bytes after them. -/
theorem split_after_eq_cons {l : Line} (h : (split bytes)[k]? = some l) :
    split (after k bytes) = l :: split (after (k + 1) bytes) := by
  rw [split_after, split_after]
  obtain ⟨hk, rfl⟩ := List.getElem?_eq_some_iff.mp h
  exact List.drop_eq_getElem_cons hk

/-- A stream begins with what its first line contains. -/
theorem exists_eq_append_of_first {l : Line} (h : (split bytes)[0]? = some l) :
    Unbroken l.content ∧ ∃ more, bytes = l.content ++ more := by
  rcases unbroken_or_exists_ending bytes with hbytes | ⟨content, e, rest, hcontent, he, rfl⟩
  · by_cases hne : bytes = []
    · rw [hne] at h
      cases h
    · rw [split_of_unbroken hbytes hne] at h
      cases h
      exact ⟨hbytes, [], (List.append_nil bytes).symm⟩
  · rw [split_append hcontent he] at h
    cases h
    exact ⟨hcontent, e.bytes ++ rest, rfl⟩

/-- Where nothing is left after some lines, nothing is left after more. -/
theorem after_eq_nil_of_le {n : Nat} (h : after k bytes = []) (hn : k ≤ n) : after n bytes = [] := by
  rw [after_eq_nil_iff, List.getElem?_eq_none_iff] at h ⊢
  exact Nat.le_trans h hn

/-- Bytes put before a stream that end no line make no difference after its first line. -/
theorem after_succ_append {p : List UInt8} (hp : Unbroken p) (k : Nat) (rest : List UInt8) :
    after (k + 1) (p ++ rest) = after (k + 1) rest := by
  simp only [after, ← List.drop_tail, tail_split_append hp]

/-! ## The texts of lines -/

/-- The lines of a stream from line `k` on, counted from zero, begin with these texts. -/
def TextsFrom (bytes : List UInt8) (k : Nat) (texts : List String) : Prop :=
  texts.map some <+: ((split bytes).drop k).map fun l ↦ Text.decode l.content

theorem textsFrom_nil : TextsFrom bytes k [] := List.nil_prefix

theorem textsFrom_cons {text : String} {texts : List String} :
    TextsFrom bytes k (text :: texts) ↔
      (split bytes)[k]?.bind (fun l ↦ Text.decode l.content) = some text ∧
        TextsFrom bytes (k + 1) texts := by
  unfold TextsFrom
  rw [← List.drop_drop, ← List.head?_drop]
  cases hlines : (split bytes).drop k with
  | nil => simp
  | cons l ls => simp [List.cons_prefix_cons, eq_comm]

end Line

end WebVTT
