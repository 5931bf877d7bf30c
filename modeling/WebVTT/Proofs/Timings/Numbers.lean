import WebVTT.Time.Display
import WebVTT.Timings.Scan

/-!
# Scanning numbers

A number is a run of digits, and its value is what the digits denote, whatever zeros come first
(`Scan.number_append`). So a number that was written with zeros in front of it, up to some width, is
scanned as itself (`Scan.number_padded`).
-/

namespace WebVTT

namespace Scan

/-- After a step that comes off, the next one runs. -/
theorem bind_of_ok {α β : Type} {x : Scan α} {f : α → Scan β} {s t : List Char} {a : α}
    (h : x s = .ok a t) : (x >>= f) s = f a t := by
  show EStateM.bind x f s = _
  unfold EStateM.bind
  rw [h]

/-- After a step that is refused, no other runs. -/
theorem bind_of_error {α β : Type} {x : Scan α} {f : α → Scan β} {s t : List Char}
    {fault : TimingFault} (h : x s = .error fault t) : (x >>= f) s = .error fault t := by
  show EStateM.bind x f s = _
  unfold EStateM.bind
  rw [h]

/-- Two steps come off only if the first does and then the second. -/
theorem ok_of_bind {α β : Type} {x : Scan α} {f : α → Scan β} {s u : List Char} {b : β}
    (h : (x >>= f) s = .ok b u) : ∃ a t, x s = .ok a t ∧ f a t = .ok b u := by
  change EStateM.bind x f s = _ at h
  unfold EStateM.bind at h
  split at h
  · exact ⟨_, _, ‹_›, h⟩
  · cases h

/-- A step may look at the text. -/
theorem bind_get {β : Type} {f : List Char → Scan β} {s : List Char} :
    (get >>= f) s = f s s := rfl

/-- Blanks are skipped before the next step. -/
theorem bind_blanks {β : Type} {f : PUnit → Scan β} {s : List Char} :
    (blanks >>= f) s = f ⟨⟩ (s.dropWhile isBlank) := rfl

theorem accept_self (c : Char) (rest : List Char) : accept c (c :: rest) = .ok true rest := by
  rw [accept, if_pos rfl]

/-- A run is taken up to what is not of its kind. -/
theorem takeWhile_append_of_head {q : Char → Bool} {run rest : List Char} (hrun : ∀ c ∈ run, q c)
    (hrest : ∀ c ∈ rest.head?, ¬q c) : (run ++ rest).takeWhile q = run := by
  rw [List.takeWhile_append_of_pos hrun]
  cases rest with
  | nil => rw [List.takeWhile_nil, List.append_nil]
  | cons c rest => rw [List.takeWhile_cons_of_neg (hrest c rfl), List.append_nil]

/-- What is not of the kind of a run is left. -/
theorem dropWhile_append_of_head {q : Char → Bool} {run rest : List Char} (hrun : ∀ c ∈ run, q c)
    (hrest : ∀ c ∈ rest.head?, ¬q c) : (run ++ rest).dropWhile q = rest := by
  rw [List.dropWhile_append_of_pos hrun]
  cases rest with
  | nil => rfl
  | cons c rest => rw [List.dropWhile_cons_of_neg (hrest c rfl)]

/-- What is not of the kind of a run ends it, whatever comes after. -/
theorem not_of_head?_cons {q : Char → Bool} {c : Char} (h : ¬q c) (rest : List Char) :
    ∀ d ∈ (c :: rest).head?, ¬q d := by
  rintro _ ⟨⟩
  exact h

/-! ## Digits -/

/-- Digits after a number make it no smaller. -/
theorem le_ofDigitChars (ds : List Char) (v : Nat) : v ≤ Nat.ofDigitChars 10 ds v := by
  rw [Nat.ofDigitChars_eq_ofDigitChars_zero]
  have := Nat.le_mul_of_pos_left v (Nat.pow_pos (n := ds.length) (show 0 < 10 by decide))
  omega

/-- A number that fits is above the limit if it is larger. -/
theorem numberLimit_lt_iff {v : Nat} (hv : v < UInt64.size) :
    numberLimit < UInt64.ofNat v ↔ 2147483647 < v := by
  rw [UInt64.lt_iff_toNat_lt, UInt64.toNat_ofNat_of_lt' hv]
  rfl

/-- Numbers within the limit are not above it. -/
theorem not_numberLimit_lt {v : Nat} (h : v ≤ 2147483647) : ¬numberLimit < UInt64.ofNat v := by
  rw [numberLimit_lt_iff (Nat.lt_of_le_of_lt h (by decide))]
  exact Nat.not_lt.mpr h

/-- One digit more. -/
theorem extended_eq (v : Nat) (c : Char) :
    UInt64.ofNat v * 10 + digitValue c = UInt64.ofNat (10 * v + (c.toNat - '0'.toNat)) := by
  rw [UInt64.ofNat_add, UInt64.ofNat_mul, UInt64.mul_comm]
  rfl

/-- Digits up to something else are taken if what they denote is within the limit. -/
theorem digitsAfter_append {ds rest : List Char} {v : Nat} (hds : ∀ c ∈ ds, c.isDigit)
    (hrest : ∀ c ∈ rest.head?, ¬c.isDigit) (hlimit : Nat.ofDigitChars 10 ds v ≤ 2147483647) :
    digitsAfter (UInt64.ofNat v) (ds ++ rest) =
      .ok (UInt64.ofNat (Nat.ofDigitChars 10 ds v)) rest := by
  induction ds generalizing v with
  | nil =>
    cases rest with
    | nil => rfl
    | cons c rest => rw [List.nil_append, digitsAfter, if_neg (hrest c rfl), Nat.ofDigitChars_nil]
  | cons c ds ih =>
    obtain ⟨hc, hds⟩ := List.forall_mem_cons.mp hds
    rw [Nat.ofDigitChars_cons] at hlimit ⊢
    have hle := Nat.le_trans (le_ofDigitChars ds _) hlimit
    rw [List.cons_append, digitsAfter, if_pos hc]
    dsimp only
    rw [extended_eq, if_neg (not_numberLimit_lt hle), ih hds hlimit]

/-- A digit is worth less than ten. -/
theorem lt_ten_of_isDigit {c : Char} (h : c.isDigit) : c.toNat - '0'.toNat < 10 := by
  rw [Char.isDigit_iff_toNat] at h
  exact Nat.sub_lt_right_of_lt_add h.1 (Nat.lt_succ_of_le h.2)

/-- Digits that are taken are all there are, and what they denote is within the limit. -/
theorem digitsAfter_eq_ok {text rest : List Char} {v : Nat} {value : UInt64} (hv : v ≤ 2147483647)
    (h : digitsAfter (UInt64.ofNat v) text = .ok value rest) :
    value = UInt64.ofNat (Nat.ofDigitChars 10 (text.takeWhile Char.isDigit) v) ∧
      Nat.ofDigitChars 10 (text.takeWhile Char.isDigit) v ≤ 2147483647 ∧
      rest = text.dropWhile Char.isDigit := by
  induction text generalizing v with
  | nil =>
    cases h
    exact ⟨rfl, hv, rfl⟩
  | cons c text ih =>
    rw [digitsAfter] at h
    split at h
    · next hc =>
      have hfits : 10 * v + (c.toNat - '0'.toNat) < UInt64.size := by
        have := lt_ten_of_isDigit hc
        have hsize : UInt64.size = 18446744073709551616 := rfl
        omega
      dsimp only at h
      rw [extended_eq] at h
      split at h
      · cases h
      · next hlimit =>
        rw [numberLimit_lt_iff hfits, Nat.not_lt] at hlimit
        rw [List.takeWhile_cons_of_pos hc, List.dropWhile_cons_of_pos hc, Nat.ofDigitChars_cons]
        exact ih hlimit h
    · next hc =>
      cases h
      rw [List.takeWhile_cons_of_neg hc, List.dropWhile_cons_of_neg hc]
      exact ⟨rfl, hv, rfl⟩

/-- A run of digits is a number if what it denotes is within the limit. -/
theorem number_append {ds rest : List Char} (hne : ds ≠ []) (hds : ∀ c ∈ ds, c.isDigit)
    (hrest : ∀ c ∈ rest.head?, ¬c.isDigit) (hlimit : Nat.ofDigitChars 10 ds 0 ≤ 2147483647) :
    number (ds ++ rest) = .ok (UInt32.ofNat (Nat.ofDigitChars 10 ds 0)) rest := by
  have hfirst : (ds ++ rest).head?.any Char.isDigit := by
    obtain ⟨c, ds, rfl⟩ := List.exists_cons_of_ne_nil hne
    exact hds c List.mem_cons_self
  have hdigits : digitsAfter 0 (ds ++ rest) = _ := digitsAfter_append hds hrest hlimit
  have hfits : UInt64.ofNat (Nat.ofDigitChars 10 ds 0) < 4294967296 := by
    have hsize : Nat.ofDigitChars 10 ds 0 < UInt64.size := Nat.lt_of_le_of_lt hlimit (by decide)
    rw [UInt64.lt_iff_toNat_lt, UInt64.toNat_ofNat_of_lt' hsize]
    exact Nat.lt_of_le_of_lt hlimit (by decide)
  rw [number, bind_get, if_pos hfirst, bind_of_ok hdigits, if_pos hfits, UInt64.toUInt32_ofNat']
  rfl

/-- A number that is taken is what all digits that follow denote, and it is within the limit. -/
theorem number_eq_ok {text rest : List Char} {n : UInt32} (h : number text = .ok n rest) :
    n.toNat = Nat.ofDigitChars 10 (text.takeWhile Char.isDigit) 0 ∧ n.toNat ≤ 2147483647 ∧
      rest = text.dropWhile Char.isDigit := by
  rw [number, bind_get] at h
  split at h
  · obtain ⟨value, t, hdigits, h⟩ := ok_of_bind h
    obtain ⟨rfl, hlimit, rfl⟩ := digitsAfter_eq_ok (Nat.zero_le _) hdigits
    split at h
    · cases h
      have hvalue : (UInt64.ofNat (Nat.ofDigitChars 10 (text.takeWhile Char.isDigit) 0)).toUInt32.toNat =
          Nat.ofDigitChars 10 (text.takeWhile Char.isDigit) 0 := by
        rw [UInt64.toUInt32_ofNat', UInt32.toNat_ofNat_of_lt']
        exact Nat.lt_of_le_of_lt hlimit (by decide)
      rw [hvalue]
      exact ⟨rfl, hlimit, rfl⟩
    · cases h
  · cases h

/-- So many digits denote a number of so many digits. -/
theorem ofDigitChars_lt {ds : List Char} (hds : ∀ c ∈ ds, c.isDigit) :
    Nat.ofDigitChars 10 ds 0 < Nat.pow 10 ds.length := by
  have hbound : ∀ v, Nat.ofDigitChars 10 ds v < (v + 1) * 10 ^ ds.length := by
    induction ds with
    | nil => simp
    | cons c ds ih =>
      obtain ⟨hc, hds⟩ := List.forall_mem_cons.mp hds
      intro v
      rw [Nat.ofDigitChars_cons, List.length_cons, Nat.pow_succ']
      calc Nat.ofDigitChars 10 ds (10 * v + (c.toNat - '0'.toNat))
          < (10 * v + (c.toNat - '0'.toNat) + 1) * 10 ^ ds.length := ih hds _
        _ ≤ ((v + 1) * 10) * 10 ^ ds.length := by
          have := lt_ten_of_isDigit hc
          exact Nat.mul_le_mul_right _ (by omega)
        _ = (v + 1) * (10 * 10 ^ ds.length) := Nat.mul_assoc ..
  have hzero := hbound 0
  rwa [Nat.zero_add, Nat.one_mul] at hzero

end Scan

/-! ## Written numbers -/

namespace Time

/-- A written number is made of digits. -/
theorem isDigit_of_mem_padded {width : Nat} {n : UInt32} {c : Char} (hc : c ∈ padded width n) :
    c.isDigit := by
  rw [padded, List.leftpad, List.mem_append] at hc
  rcases hc with hc | hc
  · rw [List.eq_of_mem_replicate hc]
    rfl
  · exact Nat.isDigit_of_mem_toDigits (by decide) (by decide) hc

theorem padded_ne_nil (width : Nat) (n : UInt32) : padded width n ≠ [] := by
  simp [padded, List.leftpad, Nat.toDigits_ne_nil]

/-- A written number denotes the number. -/
theorem ofDigitChars_padded (width : Nat) (n : UInt32) :
    Nat.ofDigitChars 10 (padded width n) 0 = n.toNat := by
  rw [padded, List.leftpad, Nat.ofDigitChars_append, Nat.ofDigitChars_replicate_zero, Nat.mul_zero,
    Nat.ofDigitChars_ten_toDigits]

/-- A number that fits into its width has exactly that width. -/
theorem length_padded {width : Nat} {n : UInt32}
    (hn : (Nat.toDigits 10 n.toNat).length ≤ width) : (padded width n).length = width := by
  rw [padded, List.length_leftpad, Nat.max_eq_left hn]

end Time

/-- A written number is scanned as itself if it is within the limit. -/
theorem Scan.number_padded {n : UInt32} {rest : List Char} (width : Nat)
    (hn : n.toNat ≤ 2147483647) (hrest : ∀ c ∈ rest.head?, ¬c.isDigit) :
    number (Time.padded width n ++ rest) = .ok n rest := by
  have hvalue := Time.ofDigitChars_padded width n
  rw [number_append (Time.padded_ne_nil width n) (fun c ↦ Time.isDigit_of_mem_padded) hrest
    (hvalue ▸ hn), hvalue, UInt32.ofNat_toNat]

end WebVTT
