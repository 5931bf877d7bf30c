import WebVTT.Cue.Reading
import WebVTT.Proofs.LineStream.Frame

/-!
# Streams read in step

Two streams that differ in ways that reading cannot tell yield the same, step by step. `Alike R E`
lifts two relations between states to the results of a step: both steps come off with the same
value and leave states related by `R`, or both are refused for the same reason and leave states
related by `E`.

Whatever is read of a cue is read line by line, so a relation under which lines are read in step
(`Lockstep`) is one under which cues are (`Lockstep.readCue`). A property of a single stream is a
relation of the stream to itself, and is then seen to be kept.
-/

namespace WebVTT

namespace Reading

variable {S T α β : Type} {R R' E E' : S → T → Prop}

/-- Two steps come out the same, and leave states related by `R` if they come off and by `E` if
they do not. -/
inductive Alike (R E : S → T → Prop) :
    EStateM.Result Error S α → EStateM.Result Error T α → Prop where
  | ok {s : S} {t : T} (a : α) : R s t → Alike R E (.ok a s) (.ok a t)
  | error {s : S} {t : T} (e : Error) : E s t → Alike R E (.error e s) (.error e t)

namespace Alike

variable {x : EStateM.Result Error S α} {y : EStateM.Result Error T α}

theorem mono (h : Alike R E x y) (hR : ∀ s t, R s t → R' s t) (hE : ∀ s t, E s t → E' s t) :
    Alike R' E' x y := by
  cases h with
  | ok a h => exact .ok a (hR _ _ h)
  | error e h => exact .error e (hE _ _ h)

theorem of_ok {a : α} {s : S} (h : Alike R E x y) (hx : x = .ok a s) :
    ∃ t, y = .ok a t ∧ R s t := by
  cases h with
  | ok _ h =>
    cases hx
    exact ⟨_, rfl, h⟩
  | error => cases hx

theorem of_error {e : Error} {s : S} (h : Alike R E x y) (hx : x = .error e s) :
    ∃ t, y = .error e t ∧ E s t := by
  cases h with
  | ok => cases hx
  | error _ h =>
    cases hx
    exact ⟨_, rfl, h⟩

/-- What comes after a step stays in step if the step does. -/
theorem bind {σ τ : Type} {R R' E : LineStream σ → LineStream τ → Prop} {x : Reading σ α}
    {y : Reading τ α} {f : α → Reading σ β} {g : α → Reading τ β} {s : LineStream σ}
    {t : LineStream τ} (h : Alike R E (x s) (y t))
    (hmore : ∀ a u v, R u v → Alike R' E (f a u) (g a v)) :
    Alike R' E ((x >>= f) s) ((y >>= g) t) := by
  cases hx : x s with
  | ok a u =>
    obtain ⟨v, hy, huv⟩ := h.of_ok hx
    rw [bind_of_ok hx, bind_of_ok hy]
    exact hmore a u v huv
  | error e u =>
    obtain ⟨v, hy, huv⟩ := h.of_error hx
    rw [bind_of_error hx, bind_of_error hy]
    exact .error e huv

end Alike

/-- What a step leaves behind on a single side it leaves behind on both sides of itself. -/
theorem Leaves.alike {P Q : S → Prop} {x : EStateM.Result Error S α}
    (h : Leaves (fun _ ↦ P) Q x) : Alike (fun s t ↦ s = t ∧ P s) (fun s t ↦ s = t ∧ Q s) x x := by
  cases h with
  | ok a h => exact .ok a ⟨rfl, h⟩
  | error e h => exact .error e ⟨rfl, h⟩

end Reading

open Reading (Alike Leaves)

namespace LineStream

variable {σ τ : Type} [Source σ] [Source τ] {R E : LineStream σ → LineStream τ → Prop}

/-- Lines of streams related by `R` are read in step, and where they cannot be read the streams are
related by `E`. -/
structure Lockstep (R E : LineStream σ → LineStream τ → Prop) : Prop where
  limits_eq {s : LineStream σ} {t : LineStream τ} : R s t → s.limits = t.limits
  line_eq {s : LineStream σ} {t : LineStream τ} : R s t → s.line = t.line
  refused {s : LineStream σ} {t : LineStream τ} : R s t → E s t
  readLine {s : LineStream σ} {t : LineStream τ} : R s t →
    Alike R E (LineStream.readLine s) (LineStream.readLine t)

/-- Less may be asked of streams that are refused. -/
theorem Lockstep.mono {E' : LineStream σ → LineStream τ → Prop} (h : Lockstep R E)
    (hE : ∀ s t, E s t → E' s t) : Lockstep R E' where
  limits_eq := h.limits_eq
  line_eq := h.line_eq
  refused hst := hE _ _ (h.refused hst)
  readLine hst := (h.readLine hst).mono (fun _ _ ↦ id) hE

/-- What reading a line keeps of a stream has the stream read in step with itself. -/
theorem Lockstep.of_leaves {P Q : LineStream σ → Prop} (refused : ∀ s, P s → Q s)
    (hread : ∀ s, P s → Leaves (fun _ ↦ P) Q (LineStream.readLine s)) :
    Lockstep (fun s t ↦ s = t ∧ P s) (fun s t ↦ s = t ∧ Q s) where
  limits_eq h := congrArg limits h.1
  line_eq h := congrArg line h.1
  refused h := ⟨h.1, refused _ h.2⟩
  readLine := by
    rintro s _ ⟨rfl, h⟩
    exact (hread s h).alike

/-- Lines are read in step where their bytes are taken in step. -/
theorem alike_readLine {s : LineStream σ} {t : LineStream τ}
    (line_eq : ∀ {s t}, R s t → s.line = t.line) (refused : ∀ {s t}, R s t → E s t)
    (complete : ∀ bytes {s t}, R s t → R (completeLine bytes s) (completeLine bytes t))
    (htake : Alike R E (takeLineAfter .empty s) (takeLineAfter .empty t)) :
    Alike R E (LineStream.readLine s) (LineStream.readLine t) := by
  unfold LineStream.readLine
  refine htake.bind fun bytes? u v huv ↦ ?_
  cases bytes? with
  | none => exact .ok _ huv
  | some bytes =>
    dsimp only
    rw [Reading.bind_modify, Reading.bind_modify]
    cases String.fromUTF8? bytes with
    | some text => exact .ok _ (complete bytes huv)
    | none =>
      dsimp only
      rw [Reading.bind_get, Reading.bind_get, line_eq (complete bytes huv)]
      exact .error _ (refused (complete bytes huv))

/-! ## Reading, one line at a time -/

theorem readNonempty_eq (s : LineStream σ) :
    readNonempty s = match readLine s with
      | .ok (some line) t => if line.isEmpty then readNonempty t else .ok (some line) t
      | .ok none t => .ok none t
      | .error e t => .error e t := by
  rw [readNonempty]
  split <;> simp_all

theorem readPayloadAfter_eq (found : Array String) (s : LineStream σ) :
    readPayloadAfter found s = match readLine s with
      | .ok (some text) t =>
        if text.isEmpty then
          .ok found.toList t
        else if t.limits.maxPayloadLines.toNat ≤ found.size then
          .error (.violation (.tooManyPayloadLines t.line t.limits.maxPayloadLines)) t
        else
          readPayloadAfter (found.push text) t
      | .ok none t => .ok found.toList t
      | .error e t => .error e t := by
  rw [readPayloadAfter]
  split <;> simp_all

namespace Lockstep

variable {s : LineStream σ} {t : LineStream τ}

/-- Streams are refused alike where they stand on the same line. -/
theorem refuse {α : Type} (h : Lockstep R E) (hst : R s t) (violation : Nat → Violation) :
    Alike R E (α := α) ((do LineStream.refuse (violation (← get).line)) s)
      ((do LineStream.refuse (violation (← get).line)) t) := by
  rw [Reading.bind_get, Reading.bind_get, h.line_eq hst]
  exact .error _ (h.refused hst)

theorem readNonempty (h : Lockstep R E) (hst : R s t) :
    Alike R E (LineStream.readNonempty s) (LineStream.readNonempty t) := by
  fun_induction LineStream.readNonempty s generalizing t with
  | case1 s line u hread hempty ih =>
    obtain ⟨v, hread', huv⟩ := (h.readLine hst).of_ok hread
    rw [readNonempty_eq t, hread']
    dsimp only
    rw [if_pos hempty]
    exact ih huv
  | case2 s line u hread hempty =>
    obtain ⟨v, hread', huv⟩ := (h.readLine hst).of_ok hread
    rw [readNonempty_eq t, hread']
    dsimp only
    rw [if_neg hempty]
    exact .ok _ huv
  | case3 s u hread =>
    obtain ⟨v, hread', huv⟩ := (h.readLine hst).of_ok hread
    rw [readNonempty_eq t, hread']
    exact .ok _ huv
  | case4 s e u hread =>
    obtain ⟨v, hread', huv⟩ := (h.readLine hst).of_error hread
    rw [readNonempty_eq t, hread']
    exact .error _ huv

theorem readTimingsLine (h : Lockstep R E) (hst : R s t) (first : String) :
    Alike R E (LineStream.readTimingsLine first s) (LineStream.readTimingsLine first t) := by
  unfold LineStream.readTimingsLine
  split
  · exact .ok _ hst
  · refine (h.readLine hst).bind fun second? u v huv ↦ ?_
    cases second? with
    | none => exact h.refuse huv fun line ↦ .unexpectedEnd (line + 1)
    | some second =>
      dsimp only
      split
      · exact .ok _ huv
      · exact h.refuse huv .missingTimings

theorem readPayloadAfter (h : Lockstep R E) (hst : R s t) (found : Array String) :
    Alike R E (LineStream.readPayloadAfter found s) (LineStream.readPayloadAfter found t) := by
  fun_induction LineStream.readPayloadAfter found s generalizing t with
  | case1 found s text u hread hempty =>
    obtain ⟨v, hread', huv⟩ := (h.readLine hst).of_ok hread
    rw [readPayloadAfter_eq found t, hread']
    dsimp only
    rw [if_pos hempty]
    exact .ok _ huv
  | case2 found s text u hread hempty hfull =>
    obtain ⟨v, hread', huv⟩ := (h.readLine hst).of_ok hread
    rw [readPayloadAfter_eq found t, hread', h.limits_eq huv, h.line_eq huv] at *
    dsimp only
    rw [if_neg hempty, if_pos hfull]
    exact .error _ (h.refused huv)
  | case3 found s text u hread hempty hroom ih =>
    obtain ⟨v, hread', huv⟩ := (h.readLine hst).of_ok hread
    rw [h.limits_eq huv] at hroom
    rw [readPayloadAfter_eq found t, hread']
    dsimp only
    rw [if_neg hempty, if_neg hroom]
    exact ih huv
  | case4 found s u hread =>
    obtain ⟨v, hread', huv⟩ := (h.readLine hst).of_ok hread
    rw [readPayloadAfter_eq found t, hread']
    exact .ok _ huv
  | case5 found s e u hread =>
    obtain ⟨v, hread', huv⟩ := (h.readLine hst).of_error hread
    rw [readPayloadAfter_eq found t, hread']
    exact .error _ huv

theorem readCueFrom (h : Lockstep R E) (hst : R s t) (first : String) :
    Alike R E (LineStream.readCueFrom first s) (LineStream.readCueFrom first t) := by
  unfold LineStream.readCueFrom
  rw [Reading.bind_get, Reading.bind_get, h.line_eq hst]
  refine (h.readTimingsLine hst first).bind fun ⟨identifier, timingsLine⟩ u v huv ↦ ?_
  dsimp only
  cases Timings.parse timingsLine with
  | error reason => exact h.refuse huv fun line ↦ .invalidTimings line reason
  | ok timings =>
    refine (h.readPayloadAfter huv #[]).bind fun payload u v huv ↦ ?_
    split
    · exact .error _ (h.refused huv)
    · exact .ok _ huv

/-- Streams whose lines are read in step have their cues read in step. -/
theorem readCue (h : Lockstep R E) (hst : R s t) :
    Alike R E (LineStream.readCue s) (LineStream.readCue t) := by
  unfold LineStream.readCue
  refine (h.readNonempty hst).bind fun first? u v huv ↦ ?_
  cases first? with
  | none => exact .ok _ huv
  | some first => exact (h.readCueFrom huv first).bind fun cue u v huv ↦ .ok _ huv

/-! ## Headers -/

theorem readDescription (h : Lockstep R E) (hst : R s t) (text : String) :
    Alike R E (LineStream.readDescription text s) (LineStream.readDescription text t) := by
  unfold LineStream.readDescription
  cases text.toList with
  | nil => exact .ok _ hst
  | cons first rest =>
    dsimp only
    split
    · exact .ok _ hst
    · exact h.refuse hst .invalidSignatureLine

/-- Streams whose lines are read in step have their headers read in step, if what comes before the
lines of these is. -/
theorem readHeader {P Q : LineStream σ → LineStream τ → Prop} (h : Lockstep R E)
    (hbom : ∀ {s t}, P s t → Alike Q E (LineStream.readBom s) (LineStream.readBom t))
    (hsignature : ∀ {s t}, Q s t →
      Alike R E (LineStream.readSignature s) (LineStream.readSignature t)) (hst : P s t) :
    Alike R E (LineStream.readHeader s) (LineStream.readHeader t) := by
  unfold LineStream.readHeader
  refine (hbom hst).bind fun hasBom s t hst ↦ ?_
  refine (hsignature hst).bind fun _ s t hst ↦ ?_
  refine (h.readLine hst).bind fun text? s t hst ↦ ?_
  cases text? with
  | none => exact .ok _ hst
  | some text =>
    refine (h.readDescription hst text).bind fun description s t hst ↦ ?_
    refine (h.readLine hst).bind fun separator? s t hst ↦ ?_
    cases separator? with
    | none => exact .ok _ hst
    | some separator =>
      dsimp only
      split
      · exact .ok _ hst
      · exact h.refuse hst .missingHeaderSeparator

end Lockstep

end LineStream

end WebVTT
