import WebVTT.Header.Reading
import WebVTT.Proofs.LineStream.Finite

/-!
# What taking bytes leaves alone

Lines are counted and noted when they are complete, and limits never change. Whatever takes bytes
only, from a single one up to the bytes of a line, keeps all three (`LineStream.Kept`).
-/

namespace WebVTT

namespace Reading

variable {S α β : Type} {P : α → S → Prop} {Q : S → Prop}

/-- If a step comes off, `P` holds of what it yields and of the state it leaves; otherwise `Q` holds
of the state. -/
inductive Leaves (P : α → S → Prop) (Q : S → Prop) : EStateM.Result Error S α → Prop where
  | ok {s : S} (a : α) : P a s → Leaves P Q (.ok a s)
  | error {s : S} (e : Error) : Q s → Leaves P Q (.error e s)

namespace Leaves

theorem of_ok {a : α} {s : S} (h : Leaves P Q (.ok a s)) : P a s := by
  cases h with
  | ok _ h => exact h

theorem of_error {e : Error} {s : S} (h : Leaves P Q (.error e s)) : Q s := by
  cases h with
  | error _ h => exact h

theorem of_eq_ok {x : EStateM.Result Error S α} {a : α} {s : S} (h : Leaves P Q x)
    (hx : x = .ok a s) : P a s := by
  rw [hx] at h
  exact h.of_ok

theorem of_eq_error {x : EStateM.Result Error S α} {e : Error} {s : S} (h : Leaves P Q x)
    (hx : x = .error e s) : Q s := by
  rw [hx] at h
  exact h.of_error

theorem mono {P' : α → S → Prop} {Q' : S → Prop} {x : EStateM.Result Error S α} (h : Leaves P Q x)
    (hP : ∀ a s, P a s → P' a s) (hQ : ∀ s, Q s → Q' s) : Leaves P' Q' x := by
  cases h with
  | ok a h => exact .ok a (hP _ _ h)
  | error e h => exact .error e (hQ _ h)

theorem and {P' : α → S → Prop} {Q' : S → Prop} {x : EStateM.Result Error S α} (h : Leaves P Q x)
    (h' : Leaves P' Q' x) : Leaves (fun a s ↦ P a s ∧ P' a s) (fun s ↦ Q s ∧ Q' s) x := by
  cases h with
  | ok a h => exact .ok a ⟨h, h'.of_ok⟩
  | error e h => exact .error e ⟨h, h'.of_error⟩

theorem bind {P' : β → S → Prop} {x : EStateM Error S α} {f : α → EStateM Error S β} {s : S}
    (h : Leaves P Q (x s)) (hmore : ∀ a t, P a t → Leaves P' Q (f a t)) :
    Leaves P' Q ((x >>= f) s) := by
  cases hx : x s with
  | ok a t =>
    rw [hx] at h
    rw [bind_of_ok hx]
    exact hmore a t h.of_ok
  | error e t =>
    rw [hx] at h
    rw [bind_of_error hx]
    exact .error e h.of_error

end Leaves

end Reading

open Reading (Leaves)

namespace LineStream

variable {σ : Type} [Source σ]

omit [Source σ] in
/-- No more than bytes were taken between these states of a stream. -/
structure Kept (s t : LineStream σ) : Prop where
  limits_eq : t.limits = s.limits
  line_eq : t.line = s.line
  notices_eq : t.notices = s.notices

section Kept

variable {s t u : LineStream σ}

omit [Source σ] in
theorem Kept.refl (s : LineStream σ) : Kept s s := ⟨rfl, rfl, rfl⟩

omit [Source σ] in
theorem Kept.trans (h : Kept s t) (h' : Kept t u) : Kept s u :=
  ⟨h'.limits_eq.trans h.limits_eq, h'.line_eq.trans h.line_eq, h'.notices_eq.trans h.notices_eq⟩

theorem kept_of_next {event : Event} (h : s.next = (event, t)) : Kept s t := by
  unfold next at h
  split at h
  · cases h
    exact ⟨rfl, rfl, rfl⟩
  · cases h
    exact ⟨rfl, rfl, rfl⟩

theorem kept_of_nextIf {expected : UInt8} {event : Event} (h : s.nextIf expected = (event, t)) :
    Kept s t := by
  unfold nextIf at h
  split at h
  · next hnext =>
    have hkept := kept_of_next hnext
    cases h
    split
    · exact hkept
    · exact ⟨hkept.limits_eq, hkept.line_eq, hkept.notices_eq⟩
  · next hnext =>
    cases h
    exact kept_of_next hnext

theorem kept_takeByte (h : Kept s t) : Leaves (fun _ ↦ Kept s) (Kept s) (takeByte t) := by
  unfold takeByte
  split
  · next hnext => exact .ok _ (h.trans (kept_of_next hnext))
  · next hnext => exact .ok _ (h.trans (kept_of_next hnext))
  · next hnext => exact .error _ (h.trans (kept_of_next hnext))

theorem kept_takeByteIf (expected : UInt8) (h : Kept s t) :
    Leaves (fun _ ↦ Kept s) (Kept s) (takeByteIf expected t) := by
  unfold takeByteIf
  split
  · next hnext => exact .ok _ (h.trans (kept_of_nextIf hnext))
  · next hnext => exact .ok _ (h.trans (kept_of_nextIf hnext))
  · next hnext => exact .error _ (h.trans (kept_of_nextIf hnext))

theorem kept_finishTerminator (first : UInt8) (h : Kept s t) :
    Leaves (fun _ ↦ Kept s) (Kept s) (finishTerminator first t) := by
  unfold finishTerminator
  split
  · exact (kept_takeByteIf lineFeed h).bind fun _ _ h ↦ .ok _ h
  · exact .ok _ h

/-- Taking the bytes of a line does not count it. -/
theorem kept_takeLineAfter (taken : ByteArray) (h : Kept s t) :
    Leaves (fun _ ↦ Kept s) (Kept s) (takeLineAfter taken t) := by
  fun_induction takeLineAfter taken t with
  | case1 taken t u hnext => exact .ok _ (h.trans (kept_of_next hnext))
  | case2 taken t failure u hnext => exact .error _ (h.trans (kept_of_next hnext))
  | case3 taken t b u hnext _ _ v hfinish =>
    have hfinished := kept_finishTerminator b (h.trans (kept_of_next hnext))
    rw [hfinish] at hfinished
    exact .ok _ hfinished.of_ok
  | case4 taken t b u hnext _ e v hfinish =>
    have hfinished := kept_finishTerminator b (h.trans (kept_of_next hnext))
    rw [hfinish] at hfinished
    exact .error _ hfinished.of_error
  | case5 taken t b u hnext => exact .error _ (h.trans (kept_of_next hnext))
  | case6 taken t b u hnext _ _ ih => exact ih (h.trans (kept_of_next hnext))

/-- Matching bytes does not count a line. -/
theorem kept_expectBytes (atEnd otherwise : Violation) (expected : List UInt8) (h : Kept s t) :
    Leaves (fun _ ↦ Kept s) (Kept s) (expectBytes atEnd otherwise expected t) := by
  induction expected generalizing t with
  | nil => exact .ok _ h
  | cons b expected ih =>
    unfold expectBytes
    refine (kept_takeByte h).bind fun found? u hu ↦ ?_
    cases found? with
    | none => exact .error _ hu
    | some found =>
      dsimp only
      split
      · exact ih hu
      · exact .error _ hu

theorem kept_readBom (h : Kept s t) : Leaves (fun _ ↦ Kept s) (Kept s) (readBom t) := by
  unfold readBom
  refine (kept_takeByteIf 0xEF h).bind fun taken u hu ↦ ?_
  match taken with
  | none => exact .error _ hu
  | some false => exact .ok _ hu
  | some true => exact (kept_expectBytes _ _ _ hu).bind fun _ _ h ↦ .ok _ h

end Kept

end LineStream

end WebVTT
