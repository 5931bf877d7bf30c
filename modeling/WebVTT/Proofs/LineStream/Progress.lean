import WebVTT.Proofs.Cue.Cases
import WebVTT.Proofs.LineStream.Position

/-!
# How much is left of a finite stream

`s.Left n` counts the bytes still to come, a byte handed back included. A line takes one at least,
however it comes out, and so does an attempt at a cue; where there is no line and no cue, nothing is
left (`Left.readCue`).
-/

namespace WebVTT

/-- The first line has a byte at least, be it only of its ending. -/
theorem Line.length_after_lt {bytes : List UInt8} (hne : bytes ≠ []) :
    (after 1 bytes).length < bytes.length := by
  rcases unbroken_or_exists_ending bytes with hbytes | ⟨content, e, rest, hcontent, he, rfl⟩
  · rw [after_succ_of_unbroken (by rwa [after_zero])]
    exact List.length_pos_iff.mpr hne
  · rw [after_succ_of_ending hcontent he (after_zero _)]
    cases e <;> simp [Ending.bytes] <;> omega

theorem Line.length_after_le (k : Nat) (bytes : List UInt8) :
    (after k bytes).length ≤ bytes.length := by
  induction k with
  | zero => exact Nat.le_of_eq (congrArg List.length (after_zero bytes))
  | succ k ih =>
    rw [after_succ]
    by_cases hne : after k bytes = []
    · rw [hne]
      exact Nat.zero_le _
    · exact Nat.le_trans (Nat.le_of_lt (length_after_lt hne)) ih

namespace LineStream

variable {σ : Type} [Source σ] {s t : LineStream σ} {limits : Limits} {line n : Nat}
  {bytes : List UInt8}

/-- So many bytes are still to come, a byte handed back included. -/
def Left (s : LineStream σ) (n : Nat) : Prop :=
  ∃ rest, Source.Delivers s.source rest ∧ n = rest.length + s.returned.toList.length

/-- If anything comes of a step, less than `n` is left afterwards, and otherwise nothing is. -/
inductive Takes {S α : Type} (Left : S → Nat → Prop) (n : Nat) :
    EStateM.Result Error S (Option α) → Prop where
  | ended {t : S} : Left t 0 → Takes Left n (.ok none t)
  | some {m : Nat} {t : S} (a : α) : m < n → Left t m → Takes Left n (.ok (some a) t)
  | refused {m : Nat} {t : S} (e : Error) : m < n → Left t m → Takes Left n (.error e t)

theorem Takes.mono {S α : Type} {P Q : S → Nat → Prop} {x : EStateM.Result Error S (Option α)}
    (h : Takes P n x) (hPQ : ∀ t m, P t m → Q t m) : Takes Q n x := by
  cases h with
  | ended ht => exact .ended (hPQ _ _ ht)
  | some a hm ht => exact .some a hm (hPQ _ _ ht)
  | refused e hm ht => exact .refused e hm (hPQ _ _ ht)

theorem At.left (h : s.At limits line bytes) : s.Left bytes.length := by
  obtain ⟨-, -, rest, rfl, hrest⟩ := h
  exact ⟨rest, hrest, by rw [List.length_append, Nat.add_comm]⟩

theorem Left.exists_at (h : s.Left n) : ∃ bytes, s.At s.limits s.line bytes ∧ bytes.length = n := by
  obtain ⟨rest, hrest, rfl⟩ := h
  exact ⟨s.returned.toList ++ rest, ⟨rfl, rfl, rest, rfl, hrest⟩,
    by rw [List.length_append, Nat.add_comm]⟩

/-- As long as bytes are to come, a line takes one at least, be it too long, no text or a text. -/
theorem At.exists_readLine_lt (hne : bytes ≠ []) (h : s.At limits line bytes) :
    ∃ (r : LineRead) (t : LineStream σ) (m : Nat),
      LineStream.readLine s = Reading.result (r.outcome limits line) t ∧ m < bytes.length ∧
        t.Left m := by
  obtain ⟨l, hfirst⟩ : ∃ l, (Line.split bytes)[0]? = some l := by
    cases hsplit : Line.split bytes with
    | nil => exact absurd (Line.split_eq_nil_iff.mp hsplit) hne
    | cons l ls => exact ⟨l, rfl⟩
  by_cases hlength : l.content.length ≤ limits.maxLineLength.toNat
  · obtain ⟨t, hread, ht⟩ := h.readLine_of_le hfirst hlength
    exact ⟨_, t, _, hread, Line.length_after_lt hne, ht.left⟩
  · have hlength := Nat.lt_of_not_le hlength
    obtain ⟨hcontent, more, rfl⟩ := Line.exists_eq_append_of_first hfirst
    obtain ⟨t, hread, ht⟩ := h.readLine_of_lt hcontent hlength
    refine ⟨_, t, _, hread, ?_, ht.left⟩
    simp only [List.length_append, List.length_drop]
    omega

namespace Left

/-- A notice takes nothing. -/
theorem note (h : s.Left n) (notice : Notice) : (s.note notice).Left n := h

theorem readLine (h : s.Left n) : Takes Left n (LineStream.readLine s) := by
  obtain ⟨bytes, hs, rfl⟩ := h.exists_at
  by_cases hne : bytes = []
  · subst hne
    obtain ⟨t, hread, ht⟩ := hs.readLine_nil
    rw [hread]
    exact .ended ht.left
  · obtain ⟨r, t, m, hread, hm, ht⟩ := hs.exists_readLine_lt hne
    rw [hread]
    cases r with
    | ok text => exact .some text hm ht
    | error f => exact .refused _ hm ht

theorem of_ended (h : s.Left n) (hread : LineStream.readLine s = .ok none t) : t.Left 0 := by
  have htakes := h.readLine
  rw [hread] at htakes
  cases htakes with
  | ended ht => exact ht

theorem of_text (h : s.Left n) {text : String} (hread : LineStream.readLine s = .ok (some text) t) :
    ∃ m < n, t.Left m := by
  have htakes := h.readLine
  rw [hread] at htakes
  cases htakes with
  | some _ hm ht => exact ⟨_, hm, ht⟩

theorem of_unreadable (h : s.Left n) {e : Error} (hread : LineStream.readLine s = .error e t) :
    ∃ m < n, t.Left m := by
  have htakes := h.readLine
  rw [hread] at htakes
  cases htakes with
  | refused _ hm ht => exact ⟨_, hm, ht⟩

/-- Lines take a byte each at least. -/
theorem of_readsLines (h : s.Left n) {texts : List String} (hlines : ReadsLines s texts t) :
    ∃ m, m + texts.length ≤ n ∧ t.Left m := by
  induction hlines generalizing n with
  | nil => exact ⟨n, Nat.le_refl n, h⟩
  | cons hread _ ih =>
    obtain ⟨m, hm, ht⟩ := h.of_text hread
    obtain ⟨k, hk, hu⟩ := ih ht
    exact ⟨k, by rw [List.length_cons]; omega, hu⟩

theorem of_closes (h : s.Left n) (hcloses : Closes s t) : ∃ m ≤ n, t.Left m := by
  cases hcloses with
  | ended hread => exact ⟨0, Nat.zero_le n, h.of_ended hread⟩
  | blank hread =>
    obtain ⟨m, hm, ht⟩ := h.of_text hread
    exact ⟨m, Nat.le_of_lt hm, ht⟩

/-- An attempt at a cue takes a byte at least, whether a cue is read or refused, and wherever it is
given up. Where there is no cue, nothing is left. -/
theorem readCue (h : s.Left n) : Takes Left n (LineStream.readCue s) := by
  obtain ⟨count, u, hblanks, hcase⟩ := exists_blockCase s
  obtain ⟨k, hk, hu⟩ := h.of_readsLines hblanks
  have hkn : k ≤ n := Nat.le_of_add_right_le hk
  generalize LineStream.readCue s = result at hcase ⊢
  cases hcase with
  | ended hread => exact .ended (hu.of_ended hread)
  | unreadable _ hlines hread =>
    obtain ⟨i, hi, hv⟩ := hu.of_readsLines hlines
    obtain ⟨m, hm, hw⟩ := hv.of_unreadable hread
    exact .refused _ (by omega) hw
  | unfinished _ _ hlines hread =>
    obtain ⟨i, hi, hv⟩ := hu.of_readsLines hlines
    rw [List.length_singleton] at hi
    exact .refused _ (by omega) (hv.of_ended hread)
  | untimed _ _ _ hlines =>
    obtain ⟨i, hi, hv⟩ := hu.of_readsLines hlines
    rw [List.length_cons] at hi
    exact .refused _ (by omega) hv
  | mistimed hopening _ hlines =>
    obtain ⟨first, more, rfl, -⟩ := hopening.exists_cons
    obtain ⟨i, hi, hv⟩ := hu.of_readsLines hlines
    rw [List.length_cons] at hi
    exact .refused _ (by omega) hv
  | overfull hopens _ _ hlines =>
    have hpos := hopens.length_pos
    obtain ⟨i, hi, hv⟩ := hu.of_readsLines hlines
    rw [List.length_append] at hi
    exact .refused _ (by omega) hv
  | textless hopens hlines hcloses =>
    have hpos := hopens.length_pos
    obtain ⟨i, hi, hv⟩ := hu.of_readsLines hlines
    obtain ⟨m, hm, hw⟩ := hv.of_closes hcloses
    exact .refused _ (by omega) hw
  | cue hopens _ _ _ hlines hcloses =>
    have hpos := hopens.length_pos
    obtain ⟨i, hi, hv⟩ := hu.of_readsLines hlines
    obtain ⟨m, hm, hw⟩ := hv.of_closes hcloses
    rw [List.length_append] at hi
    exact .some _ (by omega) hw

end Left

/-- Nothing comes of a stream of which nothing is left, and its lines are all counted. -/
theorem readCue_of_left_zero (h : s.Left 0) :
    ∃ t, readCue s = .ok none t ∧ t.Left 0 ∧ t.line = s.line := by
  obtain ⟨bytes, hs, hbytes⟩ := h.exists_at
  obtain rfl := List.length_eq_zero_iff.mp hbytes
  obtain ⟨t, hread, ht⟩ := hs.readLine_nil
  exact ⟨t, readCue_of_ended hread, ht.left, ht.line_eq⟩

end LineStream

end WebVTT
