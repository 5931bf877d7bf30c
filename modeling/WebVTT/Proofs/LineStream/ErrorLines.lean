import WebVTT.Proofs.Cue.Cases
import WebVTT.Proofs.Session.CallOrder

/-!
# Lines that errors point to

An error points to the current line, to the next one, to the first line of a block or to the first line
of the stream, and the lines counted when it is made are not those counted when it is handed on. Still
it always points into the attempt that failed (`Reading.PointsAfter`): past every line that was counted
before the attempt, and no further than the line after those counted by then.
-/

namespace WebVTT

namespace Reading

variable {S α β : Type} {line : S → Nat} {before : Nat}

/-- After a step no fewer lines are counted than before. If it is refused for a line, that line comes
after those counted before, and is the next one to be counted at most. -/
inductive PointsAfter (line : S → Nat) (before : Nat) : EStateM.Result Error S α → Prop where
  | ok {s : S} (a : α) : before ≤ line s → PointsAfter line before (.ok a s)
  | error {s : S} (e : Error) : before ≤ line s →
      (∀ n ∈ e.line?, before < n ∧ n ≤ line s + 1) → PointsAfter line before (.error e s)

namespace PointsAfter

theorem le_of_ok {a : α} {s : S} (h : PointsAfter line before (.ok a s)) : before ≤ line s := by
  cases h with
  | ok _ hle => exact hle

theorem of_error {e : Error} {s : S} (h : PointsAfter (α := α) line before (.error e s)) :
    before ≤ line s ∧ ∀ n ∈ e.line?, before < n ∧ n ≤ line s + 1 := by
  cases h with
  | error _ hle hline => exact ⟨hle, hline⟩

/-- A second step that counts from where the first has got to points after the first as well. -/
theorem bind {σ : Type} {x : Reading σ α} {f : α → Reading σ β} {s : LineStream σ}
    (h : PointsAfter LineStream.line before (x s))
    (hmore : ∀ a t, x s = .ok a t → PointsAfter LineStream.line before (f a t)) :
    PointsAfter LineStream.line before ((x >>= f) s) := by
  cases hx : x s with
  | ok a t =>
    rw [bind_of_ok hx]
    exact hmore a t hx
  | error e t =>
    rw [hx] at h
    rw [bind_of_error hx]
    obtain ⟨hle, hline⟩ := h.of_error
    exact .error e hle hline

end PointsAfter

end Reading

open Reading (PointsAfter)

namespace LineStream

variable {σ : Type} [Source σ] {s t : LineStream σ} {before : Nat}

/-! ## Lines -/

/-- The end of the stream is no line. -/
theorem line_of_ended (h : readLine s = .ok none t) : t.line = s.line := by
  have hcase := lineCase_readLine s
  rw [h] at hcase
  cases hcase with
  | ended htake => exact (kept_of_takeLine htake).line_eq

/-- Lines that are read are counted. -/
theorem ReadsLines.line_eq {texts : List String} (h : ReadsLines s texts t) :
    t.line = s.line + texts.length := by
  induction h with
  | nil => rfl
  | cons hread _ ih =>
    rw [ih, line_of_readLine hread, List.length_cons]
    omega

theorem Closes.line_le (h : Closes s t) : s.line ≤ t.line := by
  cases h with
  | ended hread => exact Nat.le_of_eq (line_of_ended hread).symm
  | blank hread =>
    rw [line_of_readLine hread]
    exact Nat.le_succ s.line

/-- A line that cannot be read is the next one, be it counted or not. -/
theorem pointsAfter_readLine (h : before ≤ s.line) :
    PointsAfter LineStream.line before (readLine s) := by
  have hkept := kept_takeLineAfter .empty (Kept.refl s)
  have hcase := lineCase_readLine s
  generalize readLine s = result at hcase ⊢
  cases hcase with
  | ended htake =>
    have hline := (kept_of_takeLine htake).line_eq
    exact .ok _ (by omega)
  | @text t bytes _ htake =>
    have hline := (kept_of_takeLine htake).line_eq
    have hcounted : (completeLine bytes t).line = t.line + 1 := rfl
    exact .ok _ (by omega)
  | @undecodable t bytes htake =>
    have hline := (kept_of_takeLine htake).line_eq
    have hcounted : (completeLine bytes t).line = t.line + 1 := rfl
    refine .error _ (by omega) ?_
    rintro n ⟨⟩
    omega
  | refused htake =>
    rw [htake] at hkept
    have hline := hkept.of_error.line_eq
    refine .error _ (by omega) ?_
    rcases error_of_takeLine htake with ⟨failure, rfl⟩ | rfl
    · rintro n ⟨⟩
    · rintro n ⟨⟩
      omega

/-! ## Cues -/

/-- An attempt at a cue points into the block that it gives up, or right after it. -/
theorem pointsAfter_readCue (s : LineStream σ) : PointsAfter LineStream.line s.line (readCue s) := by
  obtain ⟨count, u, hblanks, hcase⟩ := exists_blockCase s
  have hstart : s.line ≤ u.line := by
    rw [hblanks.line_eq]
    exact Nat.le_add_right s.line _
  generalize readCue s = result at hcase ⊢
  cases hcase with
  | ended hread =>
    rw [← line_of_ended hread] at hstart
    exact .ok _ hstart
  | @unreadable t _ _ _ _ hlines hread =>
    have hline := hlines.line_eq
    have hpoints : PointsAfter LineStream.line s.line (readLine t) :=
      pointsAfter_readLine (by omega)
    rw [hread] at hpoints
    obtain ⟨hle, herror⟩ := hpoints.of_error
    exact .error _ hle herror
  | unfinished _ _ hlines hread =>
    have hline := hlines.line_eq
    have hended := line_of_ended hread
    refine .error _ (by omega) ?_
    rintro n ⟨⟩
    omega
  | untimed _ _ _ hlines =>
    have hline := hlines.line_eq
    rw [List.length_cons] at hline
    refine .error _ (by omega) ?_
    rintro n ⟨⟩
    omega
  | mistimed hopening _ hlines =>
    obtain ⟨first, more, rfl, -⟩ := hopening.exists_cons
    have hline := hlines.line_eq
    rw [List.length_cons] at hline
    refine .error _ (by omega) ?_
    rintro n ⟨⟩
    omega
  | overfull hopens _ _ hlines =>
    have hpos := hopens.length_pos
    have hline := hlines.line_eq
    rw [List.length_append] at hline
    refine .error _ (by omega) ?_
    rintro n ⟨⟩
    omega
  | textless hopens hlines hcloses =>
    -- the only error that points back, to the first line of the block
    have hpos := hopens.length_pos
    have hline := hlines.line_eq
    have hclosed := hcloses.line_le
    refine .error _ (by omega) ?_
    rintro n ⟨⟩
    omega
  | cue _ _ _ _ hlines hcloses =>
    have hline := hlines.line_eq
    have hclosed := hcloses.line_le
    exact .ok _ (by omega)

/-! ## Headers -/

/-- Bytes that are not matched are on the first line, if on any. -/
theorem pointsAfter_expectBytes {atEnd otherwise : Violation} (expected : List UInt8)
    (hatEnd : ∀ n ∈ atEnd.line?, n = 1) (hotherwise : ∀ n ∈ otherwise.line?, n = 1)
    (s : LineStream σ) :
    PointsAfter LineStream.line 0 (expectBytes atEnd otherwise expected s) := by
  cases hresult : expectBytes atEnd otherwise expected s with
  | ok a t => exact .ok a (Nat.zero_le t.line)
  | error e t =>
    refine .error e (Nat.zero_le t.line) ?_
    intro n hn
    rcases error_of_expectBytes hresult with ⟨failure, rfl⟩ | rfl | rfl
    · cases hn
    · rw [hatEnd n hn]
      exact ⟨Nat.one_pos, Nat.le_add_left 1 t.line⟩
    · rw [hotherwise n hn]
      exact ⟨Nat.one_pos, Nat.le_add_left 1 t.line⟩

theorem pointsAfter_readBom (s : LineStream σ) :
    PointsAfter LineStream.line 0 (readBom s) := by
  have htake : PointsAfter LineStream.line 0 (takeByteIf 0xEF s) := by
    unfold takeByteIf
    split
    · exact .ok _ (Nat.zero_le _)
    · exact .ok _ (Nat.zero_le _)
    · refine .error _ (Nat.zero_le _) ?_
      rintro n ⟨⟩
  refine htake.bind fun taken t _ ↦ ?_
  match taken with
  | none =>
    refine .error _ (Nat.zero_le _) ?_
    rintro n ⟨⟩
    exact ⟨Nat.one_pos, Nat.le_add_left 1 t.line⟩
  | some false => exact .ok _ (Nat.zero_le _)
  | some true =>
    have hrest : PointsAfter LineStream.line 0
        (expectBytes .incompleteBom .incompleteBom [0xBB, 0xBF] t) := by
      apply pointsAfter_expectBytes <;> rintro n ⟨⟩
    exact hrest.bind fun _ u _ ↦ .ok _ (Nat.zero_le _)

theorem pointsAfter_readSignature (s : LineStream σ) :
    PointsAfter LineStream.line 0 (readSignature s) := by
  apply pointsAfter_expectBytes
  · rintro n ⟨⟩
    rfl
  · rintro n ⟨⟩

omit [Source σ] in
/-- Text that sticks to the signature is on the line read last. -/
theorem pointsAfter_readDescription (text : String) (h : before < s.line) :
    PointsAfter LineStream.line before (readDescription text s) := by
  unfold readDescription
  cases text.toList with
  | nil => exact .ok _ (Nat.le_of_lt h)
  | cons first rest =>
    dsimp only
    split
    · exact .ok _ (Nat.le_of_lt h)
    · refine .error _ (Nat.le_of_lt h) ?_
      rintro n ⟨⟩
      exact ⟨h, Nat.le_succ s.line⟩

/-- A header that is refused is refused for one of its lines, or for the first one if its preamble
breaks off. -/
theorem pointsAfter_readHeader (s : LineStream σ) :
    PointsAfter LineStream.line 0 (readHeader s) := by
  unfold readHeader
  refine (pointsAfter_readBom s).bind fun hasBom t _ ↦ ?_
  refine (pointsAfter_readSignature t).bind fun _ t _ ↦ ?_
  refine (pointsAfter_readLine (Nat.zero_le t.line)).bind fun text? u hfirst ↦ ?_
  cases text? with
  | none => exact .ok _ (Nat.zero_le _)
  | some text =>
    have hpos : 0 < u.line := by
      rw [line_of_readLine hfirst]
      exact Nat.succ_pos t.line
    refine (pointsAfter_readDescription text hpos).bind fun description v _ ↦ ?_
    refine (pointsAfter_readLine (Nat.zero_le v.line)).bind fun separator? w hsecond ↦ ?_
    cases separator? with
    | none => exact .ok _ (Nat.zero_le _)
    | some separator =>
      dsimp only
      split
      · exact .ok _ (Nat.zero_le _)
      · refine .error _ (Nat.zero_le _) ?_
        rintro n ⟨⟩
        rw [line_of_readLine hsecond]
        exact ⟨Nat.succ_pos v.line, Nat.le_succ _⟩

end LineStream

end WebVTT
