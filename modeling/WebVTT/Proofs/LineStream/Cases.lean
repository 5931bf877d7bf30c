import WebVTT.Proofs.LineStream.Frame
import WebVTT.Proofs.LineStream.Reading

/-!
# The ways in which a line is read

Nothing is asked of the source here: it may fail at any byte, and go on after its end. A line is then
read in one of four ways (`LineCase`), and every line that is read is followed by the next one
(`ReadsLines`). What is true of each way is true of whatever is read line by line, so nobody has to
look into `readLine` again.
-/

namespace WebVTT

/-- Two steps are refused where the first is, or where the second is after the first. -/
theorem Reading.error_of_bind {σ α β : Type} {x : Reading σ α} {f : α → Reading σ β}
    {s u : LineStream σ} {e : Error} (h : (x >>= f) s = .error e u) :
    x s = .error e u ∨ ∃ a t, x s = .ok a t ∧ f a t = .error e u := by
  cases hx : x s with
  | ok a t => exact .inr ⟨a, t, rfl, by rwa [bind_of_ok hx] at h⟩
  | error e' t =>
    rw [bind_of_error hx] at h
    cases h
    exact .inl rfl

open Reading (Leaves)

namespace LineStream

variable {σ : Type} [Source σ] {s t u : LineStream σ}

/-! ## A single line -/

/-- The ways in which reading a line comes out. -/
inductive LineCase (s : LineStream σ) :
    EStateM.Result Error (LineStream σ) (Option String) → Prop where
  /-- There is no line. -/
  | ended {t : LineStream σ} : takeLineAfter .empty s = .ok none t → LineCase s (.ok none t)
  /-- The bytes of the line are a text. -/
  | text {t : LineStream σ} {bytes : ByteArray} {text : String} :
      takeLineAfter .empty s = .ok (some bytes) t → String.fromUTF8? bytes = some text →
      LineCase s (.ok (some text) (completeLine bytes t))
  /-- The bytes of the line are none, and the line is counted all the same. -/
  | undecodable {t : LineStream σ} {bytes : ByteArray} :
      takeLineAfter .empty s = .ok (some bytes) t → String.fromUTF8? bytes = none →
      LineCase s (.error (.violation (.invalidUtf8 (t.line + 1))) (completeLine bytes t))
  /-- The bytes of the line cannot be taken. -/
  | refused {t : LineStream σ} {e : Error} : takeLineAfter .empty s = .error e t →
      LineCase s (.error e t)

/-- There is no other way. -/
theorem lineCase_readLine (s : LineStream σ) : LineCase s (readLine s) := by
  unfold readLine
  cases htake : takeLineAfter .empty s with
  | error e t =>
    rw [Reading.bind_of_error htake]
    exact .refused htake
  | ok bytes? t =>
    rw [Reading.bind_of_ok htake]
    cases bytes? with
    | none => exact .ended htake
    | some bytes =>
      dsimp only
      rw [Reading.bind_modify]
      cases hdecode : String.fromUTF8? bytes with
      | some text => exact .text htake hdecode
      | none => exact .undecodable htake hdecode

/-- What is taken of a line changes neither the limits nor the line count. -/
theorem kept_of_takeLine {taken : ByteArray} {bytes? : Option ByteArray}
    (h : takeLineAfter taken s = .ok bytes? t) : Kept s t := by
  have hkept := kept_takeLineAfter taken (.refl s)
  rw [h] at hkept
  exact hkept.of_ok

/-- Reading a line keeps the limits. -/
theorem limits_readLine (s : LineStream σ) :
    Leaves (fun _ t ↦ t.limits = s.limits) (fun t ↦ t.limits = s.limits) (readLine s) := by
  have hkept := kept_takeLineAfter .empty (.refl s)
  have hcase := lineCase_readLine s
  generalize readLine s = result at hcase ⊢
  cases hcase with
  | ended htake => exact .ok _ (kept_of_takeLine htake).limits_eq
  | text htake => exact .ok _ (kept_of_takeLine htake).limits_eq
  | undecodable htake => exact .error _ (kept_of_takeLine htake).limits_eq
  | refused htake =>
    rw [htake] at hkept
    exact .error _ hkept.of_error.limits_eq

/-- A line that is read is counted. -/
theorem line_of_readLine {text : String} (h : readLine s = .ok (some text) t) :
    t.line = s.line + 1 := by
  have hcase := lineCase_readLine s
  rw [h] at hcase
  cases hcase with
  | text htake => exact congrArg (· + 1) (kept_of_takeLine htake).line_eq

/-- A terminator is not finished only where the source fails. -/
theorem source_of_finishTerminator {first : UInt8} {e : Error}
    (h : finishTerminator first s = .error e t) : ∃ failure, e = .source failure := by
  unfold finishTerminator at h
  split at h
  · rcases Reading.error_of_bind h with htake | ⟨_, _, -, hdone⟩
    · unfold takeByteIf at htake
      split at htake <;> cases htake
      exact ⟨_, rfl⟩
    · cases hdone
  · cases h

/-- The bytes of a line are not taken only where the source fails and where there are too many. -/
theorem error_of_takeLine {taken : ByteArray} {e : Error}
    (h : takeLineAfter taken s = .error e t) :
    (∃ failure, e = .source failure) ∨
      e = .violation (.lineTooLong (t.line + 1) t.limits.maxLineLength) := by
  fun_induction takeLineAfter taken s with
  | case1 => cases h
  | case2 taken s failure u hnext =>
    cases h
    exact .inl ⟨failure, rfl⟩
  | case3 => cases h
  | case4 taken s b u hnext hb e v hfinish =>
    cases h
    exact .inl (source_of_finishTerminator hfinish)
  | case5 =>
    cases h
    exact .inr rfl
  | case6 taken s b u hnext hb hroom ih => exact ih h

/-! ## One line after the other -/

/-- These lines are read one after the other, from one state of a stream to another. -/
inductive ReadsLines : LineStream σ → List String → LineStream σ → Prop where
  | nil (s : LineStream σ) : ReadsLines s [] s
  | cons {s t u : LineStream σ} {text : String} {texts : List String} :
      readLine s = .ok (some text) t → ReadsLines t texts u → ReadsLines s (text :: texts) u

namespace ReadsLines

variable {text : String} {texts more : List String}

theorem eq_of_nil (h : ReadsLines s [] t) : s = t := by
  cases h
  rfl

theorem exists_of_cons (h : ReadsLines s (text :: texts) u) :
    ∃ t, readLine s = .ok (some text) t ∧ ReadsLines t texts u := by
  cases h with
  | cons hread hrest => exact ⟨_, hread, hrest⟩

theorem append (h : ReadsLines s texts t) (hmore : ReadsLines t more u) :
    ReadsLines s (texts ++ more) u := by
  induction h with
  | nil => exact hmore
  | cons hread _ ih => exact .cons hread (ih hmore)

/-- Reading lines keeps the limits. -/
theorem limits_eq (h : ReadsLines s texts t) : t.limits = s.limits := by
  induction h with
  | nil => rfl
  | @cons s t u text texts hread _ ih =>
    have hkept := limits_readLine s
    rw [hread] at hkept
    exact ih.trans hkept.of_ok

end ReadsLines

end LineStream

end WebVTT
