import WebVTT.Proofs.Time.Order

/-!
# Arithmetic on times

A sum of a time and some milliseconds, or the difference, is the time in range that is nearest to the
exact result, and the milliseconds between two times are the exact difference of their presentations
(`Time.exact_arithmetic`). All of it is computed in signed words of 64 bits. To see that no computation
leaves the words, it is written out here with every single result checked: `Word.mul?` and its like
yield nothing where the result is no word, and no step of the arithmetic ever comes to that.
-/

namespace WebVTT

/-! ## Words -/

namespace Word

/-- The word for an integer, if there is one. -/
def ofInt? (n : Int) : Option Int64 :=
  if Int64.minValue.toInt ≤ n ∧ n ≤ Int64.maxValue.toInt then some (Int64.ofInt n) else none

def add? (a b : Int64) : Option Int64 := ofInt? (a.toInt + b.toInt)

def sub? (a b : Int64) : Option Int64 := ofInt? (a.toInt - b.toInt)

def mul? (a b : Int64) : Option Int64 := ofInt? (a.toInt * b.toInt)

/-- The quotient, rounded towards zero. There is none by zero. -/
def div? (a b : Int64) : Option Int64 := if b = 0 then none else ofInt? (a.toInt.tdiv b.toInt)

/-- The remainder, where there is a quotient. -/
def mod? (a b : Int64) : Option Int64 := do
  let _ ← div? a b
  ofInt? (a.toInt.tmod b.toInt)

/-- The sum, or the word nearest to it. -/
def saturatingAdd (a b : Int64) : Int64 := Int64.ofIntClamp (a.toInt + b.toInt)

/-- The difference, or the word nearest to it. -/
def saturatingSub (a b : Int64) : Int64 := Int64.ofIntClamp (a.toInt - b.toInt)

variable {a b : Int64} {m n : Int}

/-- After a result that is a word the computation goes on. -/
theorem bind_of_eq_some {α β : Type} {x : Option α} {f : α → Option β} {a : α} (h : x = some a) :
    (x >>= f) = f a := by
  rw [h, Option.bind_eq_bind, Option.bind_some]

theorem exists_ofInt? (hle : -9223372036854775808 ≤ n) (hlt : n < 9223372036854775808) :
    ∃ c, ofInt? n = some c ∧ c.toInt = n := by
  refine ⟨Int64.ofInt n, if_pos ⟨?_, ?_⟩, Int64.toInt_ofInt_of_le hle hlt⟩
  · rwa [show Int64.minValue.toInt = -9223372036854775808 by decide]
  · rw [show Int64.maxValue.toInt = 9223372036854775807 by decide]
    exact Int.le_of_lt_add_one hlt

theorem exists_add? (ha : a.toInt = m) (hb : b.toInt = n) (hle : -9223372036854775808 ≤ m + n)
    (hlt : m + n < 9223372036854775808) : ∃ c, add? a b = some c ∧ c.toInt = m + n := by
  subst ha hb
  exact exists_ofInt? hle hlt

theorem exists_sub? (ha : a.toInt = m) (hb : b.toInt = n) (hle : -9223372036854775808 ≤ m - n)
    (hlt : m - n < 9223372036854775808) : ∃ c, sub? a b = some c ∧ c.toInt = m - n := by
  subst ha hb
  exact exists_ofInt? hle hlt

theorem exists_mul? (ha : a.toInt = m) (hb : b.toInt = n) (hle : -9223372036854775808 ≤ m * n)
    (hlt : m * n < 9223372036854775808) : ∃ c, mul? a b = some c ∧ c.toInt = m * n := by
  subst ha hb
  exact exists_ofInt? hle hlt

/-- A word that is not negative has a quotient by any that is positive. -/
theorem exists_div? (ha : a.toInt = m) (hb : b.toInt = n) (hm : 0 ≤ m) (hn : 0 < n) :
    ∃ c, div? a b = some c ∧ c.toInt = m / n := by
  subst ha hb
  have hne : b ≠ 0 := by
    rintro rfl
    exact absurd hn (by decide)
  rw [div?, if_neg hne, Int.tdiv_eq_ediv_of_nonneg hm]
  have hle := Int.ediv_nonneg hm (Int.le_of_lt hn)
  have hself := Int.ediv_le_self b.toInt hm
  have hlt := a.toInt_lt
  exact exists_ofInt? (by omega) (by omega)

theorem exists_mod? (ha : a.toInt = m) (hb : b.toInt = n) (hm : 0 ≤ m) (hn : 0 < n) :
    ∃ c, mod? a b = some c ∧ c.toInt = m % n := by
  obtain ⟨_, hdiv, -⟩ := exists_div? ha hb hm hn
  subst ha hb
  rw [mod?, bind_of_eq_some hdiv, Int.tmod_eq_emod_of_nonneg hm]
  have hle := Int.emod_nonneg a.toInt (Int.ne_of_gt hn)
  have hlt := Int.emod_lt_of_pos a.toInt hn
  have hword := b.toInt_lt
  exact exists_ofInt? (by omega) (by omega)

/-- The nearest word is the integer itself where there is a word for it, and otherwise the first or
the last one. -/
theorem toInt_ofIntClamp (n : Int) :
    (Int64.ofIntClamp n).toInt = max (-9223372036854775808) (min n 9223372036854775807) := by
  have hmin : Int64.minValue.toInt = -9223372036854775808 := by decide
  have hmax : Int64.maxValue.toInt = 9223372036854775807 := by decide
  unfold Int64.ofIntClamp
  split
  · split
    · rw [Int64.toInt_ofIntLE]
      omega
    · omega
  · omega

end Word

namespace Time

/-! ## Arithmetic in words -/

/-- The presentation, computed in words. -/
def presentation? (t : Time) : Option Int64 := do
  let hours ← Word.mul? t.hours.toUInt64.toInt64 3600000
  let minutes ← Word.mul? t.minutes.toUInt64.toInt64 60000
  let sum ← Word.add? hours minutes
  let seconds ← Word.mul? t.seconds.toUInt64.toInt64 1000
  let sum ← Word.add? sum seconds
  Word.add? sum t.milliseconds.toUInt64.toInt64

/-- The time at an offset, computed in words. -/
def ofPresentation? (v : Int64) : Option Time :=
  if v < 0 then
    some zero
  else do
    let hours ← Word.div? v 3600000
    if hours < 0 ∨ 4294967295 < hours then
      return max
    else
      let rest ← Word.mod? v 3600000
      let minutes ← Word.div? rest 60000
      let seconds ← Word.div? (← Word.mod? rest 60000) 1000
      let milliseconds ← Word.mod? rest 1000
      return {
        hours := hours.toUInt64.toUInt32
        minutes := minutes.toUInt64.toUInt32
        seconds := seconds.toUInt64.toUInt32
        milliseconds := milliseconds.toUInt64.toUInt32 }

/-- Words of 32 bits have room in 64. -/
theorem toInt_toInt64 (w : UInt32) : w.toUInt64.toInt64.toInt = w.toNat := by
  rw [← UInt64.ofNat_toNat (x := w.toUInt64), UInt64.toInt64_ofNat', UInt32.toNat_toUInt64]
  exact Int64.toInt_ofNat_of_lt (Nat.lt_trans w.toNat_lt (by decide))

/-- No step of a presentation leaves the words. -/
theorem presentation?_eq (t : Time) : t.presentation? = some t.presentation := by
  have hhours := t.hours.toNat_lt
  have hminutes := t.minutes.toNat_lt
  have hseconds := t.seconds.toNat_lt
  have hmilliseconds := t.milliseconds.toNat_lt
  obtain ⟨h, hmulh, hh⟩ := Word.exists_mul? (b := 3600000) (n := 3600000) (toInt_toInt64 t.hours)
    (by decide) (by omega) (by omega)
  obtain ⟨m, hmulm, hm⟩ := Word.exists_mul? (b := 60000) (n := 60000) (toInt_toInt64 t.minutes)
    (by decide) (by omega) (by omega)
  obtain ⟨hm', haddm, hhm⟩ := Word.exists_add? hh hm (by omega) (by omega)
  obtain ⟨s, hmuls, hs⟩ := Word.exists_mul? (b := 1000) (n := 1000) (toInt_toInt64 t.seconds)
    (by decide) (by omega) (by omega)
  obtain ⟨hms, hadds, hhms⟩ := Word.exists_add? hhm hs (by omega) (by omega)
  obtain ⟨all, haddms, hall⟩ :=
    Word.exists_add? hhms (toInt_toInt64 t.milliseconds) (by omega) (by omega)
  unfold presentation?
  rw [Word.bind_of_eq_some hmulh, Word.bind_of_eq_some hmulm, Word.bind_of_eq_some haddm,
    Word.bind_of_eq_some hmuls, Word.bind_of_eq_some hadds, haddms, Option.some_inj, ← Int64.toInt_inj,
    hall, toInt_presentation, offset]
  omega

/-- A word that is not negative is cut to 32 bits as a natural number is. -/
theorem toUInt32_eq {w : Int64} {n : Nat} (h : w.toInt = n) :
    w.toUInt64.toUInt32 = UInt32.ofNat n := by
  have hlt : n < 9223372036854775808 := by
    have := w.toInt_lt
    omega
  obtain rfl : w = Int64.ofNat n := Int64.toInt_inj.mp (h.trans (Int64.toInt_ofNat_of_lt hlt).symm)
  rw [Int64.toUInt64_ofNat', UInt64.toUInt32_ofNat']

/-- No step of a time from milliseconds leaves the words. -/
theorem ofPresentation?_eq (v : Int64) : ofPresentation? v = some (ofPresentation v) := by
  unfold ofPresentation?
  split
  · next hneg =>
    have hzero : v.toInt.toNat = 0 := by
      have : v.toInt < 0 := Int64.lt_iff_toInt_lt.mp hneg
      omega
    unfold ofPresentation
    rw [hzero]
    rfl
  · next hpos =>
    obtain ⟨n, hn⟩ := Int.eq_ofNat_of_zero_le (Int64.le_iff_toInt_le.mp (Int64.not_lt.mp hpos))
    have hn : v.toInt = n := hn
    obtain ⟨hours, hdivh, hhours⟩ := Word.exists_div? (b := 3600000) (n := 3600000) hn (by decide)
      (by omega) (by decide)
    rw [Word.bind_of_eq_some hdivh]
    unfold ofPresentation
    have hfits : (hours < 0 ∨ 4294967295 < hours) ↔ ¬n / 3600000 < 4294967296 := by
      rw [Int64.lt_iff_toInt_lt, Int64.lt_iff_toInt_lt, hhours, show Int64.toInt 0 = 0 by decide,
        show Int64.toInt 4294967295 = 4294967295 by decide]
      omega
    rw [hn, Int.toNat_natCast]
    dsimp only
    by_cases hlarge : n / 3600000 < 4294967296
    · obtain ⟨rest, hmodh, hrest⟩ := Word.exists_mod? (b := 3600000) (n := 3600000) hn (by decide)
        (by omega) (by decide)
      obtain ⟨minutes, hdivm, hminutes⟩ := Word.exists_div? (b := 60000) (n := 60000) hrest
        (by decide) (by omega) (by decide)
      obtain ⟨less, hmodm, hless⟩ := Word.exists_mod? (b := 60000) (n := 60000) hrest (by decide)
        (by omega) (by decide)
      obtain ⟨seconds, hdivs, hseconds⟩ := Word.exists_div? (b := 1000) (n := 1000) hless (by decide)
        (by omega) (by decide)
      obtain ⟨milliseconds, hmods, hmilliseconds⟩ := Word.exists_mod? (b := 1000) (n := 1000) hrest
        (by decide) (by omega) (by decide)
      rw [if_neg (hfits.not.mpr (not_not.mpr hlarge)), if_pos hlarge, Word.bind_of_eq_some hmodh,
        Word.bind_of_eq_some hdivm, Word.bind_of_eq_some hmodm, Word.bind_of_eq_some hdivs,
        Word.bind_of_eq_some hmods, toUInt32_eq (w := hours) (n := n / 3600000) (by omega),
        toUInt32_eq (w := minutes) (n := n % 3600000 / 60000) (by omega),
        toUInt32_eq (w := seconds) (n := n % 60000 / 1000) (by omega),
        toUInt32_eq (w := milliseconds) (n := n % 1000) (by omega)]
      rfl
    · rw [if_pos (hfits.mpr hlarge), if_neg hlarge]
      rfl

/-! ## Sums and differences -/

/-- A time so many milliseconds later, computed in words. -/
def add? (t : Time) (d : Int64) : Option Time := do
  ofPresentation? (Word.saturatingAdd (← t.presentation?) d)

/-- A time so many milliseconds earlier, computed in words. -/
def sub? (t : Time) (d : Int64) : Option Time := do
  ofPresentation? (Word.saturatingSub (← t.presentation?) d)

/-- The milliseconds from one time to another, computed in words. -/
def until? (s t : Time) : Option Int64 := do
  Word.sub? (← t.presentation?) (← s.presentation?)

theorem add?_eq (t : Time) (d : Int64) : t.add? d = some (t + d) := by
  rw [add?, Word.bind_of_eq_some t.presentation?_eq]
  exact ofPresentation?_eq _

theorem sub?_eq (t : Time) (d : Int64) : t.sub? d = some (t - d) := by
  rw [sub?, Word.bind_of_eq_some t.presentation?_eq]
  exact ofPresentation?_eq _

/-- What is past the words is past the last time, too. -/
theorem clamp_ofIntClamp (n : Int) : clamp (Int64.ofIntClamp n).toInt = clamp n := by
  rw [Word.toInt_ofIntClamp, clamp_eq, clamp_eq]
  omega

theorem presentation_add (t : Time) (d : Int64) :
    (t + d).presentation.toInt = clamp (t.presentation.toInt + d.toInt) :=
  (presentation_ofPresentation _).trans (clamp_ofIntClamp _)

theorem presentation_sub (t : Time) (d : Int64) :
    (t - d).presentation.toInt = clamp (t.presentation.toInt - d.toInt) :=
  (presentation_ofPresentation _).trans (clamp_ofIntClamp _)

/-- Presentations are too small for their difference to leave the words. -/
theorem until?_eq (s t : Time) :
    s.until? t = some (t - s) ∧ (t - s).toInt = t.presentation.toInt - s.presentation.toInt := by
  have hs := s.offset_lt
  have ht := t.offset_lt
  have hword : Nat.pow 2 54 = 18014398509481984 := by decide
  obtain ⟨c, hsub, hc⟩ := Word.exists_sub? t.toInt_presentation s.toInt_presentation (by omega)
    (by omega)
  have hdifference : t - s = c := by
    rw [← Int64.toInt_inj, hc]
    show (t.presentation - s.presentation).toInt = _
    rw [Int64.toInt_sub, t.toInt_presentation, s.toInt_presentation]
    exact Int.bmod_eq_of_le (by omega) (by omega)
  rw [until?, Word.bind_of_eq_some t.presentation?_eq, Word.bind_of_eq_some s.presentation?_eq,
    hdifference, t.toInt_presentation, s.toInt_presentation]
  exact ⟨hsub, hc⟩

/-- What lies between two times takes the first one to the second. -/
theorem add_sub_eq_iff (s t : Time) : s + (t - s) = t ↔ t.Normalized := by
  rw [← ofPresentation_presentation_iff]
  show ofPresentation (Int64.ofIntClamp (s.presentation.toInt + (t - s).toInt)) = t ↔ _
  rw [(until?_eq s t).2, Int.add_comm, Int.sub_add_cancel, Int64.ofIntClamp_toInt]

/-- Sums and differences of times and milliseconds are the times in range nearest to the exact result,
and differences of times are exact. No step on the way to any of them leaves the words of 64 bits. What
lies between two times takes the first one to the second if the second is in range, and otherwise to
the time in range at the same offset. -/
theorem exact_arithmetic :
    (∀ (t : Time) (d : Int64),
        ((t + d).Normalized ∧
          (t + d).presentation.toInt = clamp (t.presentation.toInt + d.toInt) ∧
          t.add? d = some (t + d)) ∧
        (t - d).Normalized ∧
          (t - d).presentation.toInt = clamp (t.presentation.toInt - d.toInt) ∧
          t.sub? d = some (t - d)) ∧
      ∀ s t : Time, (t - s).toInt = t.presentation.toInt - s.presentation.toInt ∧
        s.until? t = some (t - s) ∧ (s + (t - s) = t ↔ t.Normalized) := by
  refine ⟨fun t d ↦ ⟨?_, ?_⟩, fun s t ↦ ?_⟩
  · exact ⟨normalized_ofPresentation _, presentation_add t d, add?_eq t d⟩
  · exact ⟨normalized_ofPresentation _, presentation_sub t d, sub?_eq t d⟩
  · exact ⟨(until?_eq s t).2, (until?_eq s t).1, add_sub_eq_iff s t⟩

/-- The least word takes any time to the start, although the sum has no word. -/
example : (⟨5, 70, 0, 0⟩ : Time) + Int64.minValue = zero ∧ max + Int64.maxValue = max ∧
    (⟨0, 0, 61, 0⟩ : Time) + (0 : Int64) = ⟨0, 1, 1, 0⟩ := by decide

end Time

end WebVTT
