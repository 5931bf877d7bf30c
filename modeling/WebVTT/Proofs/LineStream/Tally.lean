import WebVTT.Proofs.Header.Reading
import WebVTT.Proofs.LineStream.Lockstep
import WebVTT.Proofs.Source.Recorded
import WebVTT.Proofs.Source.Tally

/-!
# Counting lines

The line count of a stream agrees with the account of the events that the stream has taken
(`LineStream.Accounted`). Every byte that reading takes is taken by `next`, so the account is kept
event by event up to the end of a line (`Accounted.takeLineAfter`), and a line that is counted there
is counted by the stream as well (`Accounted.readLine`).
-/

namespace WebVTT

open Reading (Leaves)

namespace LineStream

variable {σ : Type} [Source σ] {s t : LineStream (Recorded σ)} {events : List Event} {event : Event}

/-! ## Events taken -/

/-- The events pulled are these, and after them the byte handed back. -/
def HasTaken (s : LineStream (Recorded σ)) (events : List Event) : Prop :=
  s.source.pulled = events ++ s.returned.toList.map .byte

/-- What comes next is taken then, be it a byte that was handed back or not. -/
theorem HasTaken.next (h : s.HasTaken events) (hnext : s.next = (event, t)) :
    t.HasTaken (events ++ [event]) ∧ t.returned = none ∧ ∀ b ∈ s.returned, event = .byte b := by
  unfold HasTaken at h ⊢
  unfold LineStream.next at hnext
  split at hnext
  · next b hb =>
    cases hnext
    rw [hb] at h
    exact ⟨by simpa using h, rfl, by simp [hb]⟩
  · next hb =>
    cases hnext
    rw [hb] at h
    refine ⟨?_, hb, by simp [hb]⟩
    rw [Recorded.pulled_next, h, hb]
    simp

/-- What is looked at is taken, unless it is a byte other than the one expected. -/
theorem HasTaken.nextIf {expected : UInt8} (h : s.HasTaken events)
    (hnext : s.nextIf expected = (event, t)) :
    (∃ b, event = .byte b ∧ b ≠ expected ∧ t.HasTaken events ∧ t.returned = some b) ∨
      ((∀ b, event = .byte b → b = expected) ∧ t.HasTaken (events ++ [event]) ∧
        t.returned = none) := by
  unfold LineStream.nextIf at hnext
  split at hnext
  · next b u hfirst =>
    obtain ⟨htaken, hroom, -⟩ := h.next hfirst
    cases hnext
    by_cases hb : b = expected
    · rw [if_pos hb]
      exact .inr ⟨by simpa using hb, htaken, hroom⟩
    · rw [if_neg hb]
      refine .inl ⟨b, rfl, hb, ?_, rfl⟩
      unfold HasTaken at htaken ⊢
      rw [hroom] at htaken
      simpa using htaken
  · next event u hbyte hfirst =>
    obtain ⟨htaken, hroom, -⟩ := h.next hfirst
    cases hnext
    exact .inr ⟨fun b hb ↦ absurd hb (hbyte b), htaken, hroom⟩

theorem HasTaken.takeByte (h : s.HasTaken events) :
    Leaves (fun found? t ↦ ∀ b ∈ found?, t.HasTaken (events ++ [.byte b])) (fun _ ↦ True)
      (takeByte s) := by
  unfold LineStream.takeByte
  cases hnext : s.next with
  | mk event t =>
    cases event with
    | byte b =>
      refine .ok _ ?_
      simpa using (h.next hnext).1
    | ended => exact .ok _ (by simp)
    | failed failure => exact .error _ trivial

/-- Bytes that were matched are taken. -/
theorem HasTaken.expectBytes (atEnd otherwise : Violation) {expected : List UInt8}
    (h : s.HasTaken events) :
    Leaves (fun _ t ↦ t.HasTaken (events ++ expected.map .byte)) (fun _ ↦ True)
      (expectBytes atEnd otherwise expected s) := by
  induction expected generalizing s events with
  | nil => exact .ok _ (by simpa using h)
  | cons b expected ih =>
    unfold LineStream.expectBytes
    refine h.takeByte.bind fun found? t ht ↦ ?_
    cases found? with
    | none => exact .error _ trivial
    | some found =>
      dsimp only
      split
      · next hfound =>
        subst hfound
        simpa using ih (ht found rfl)
      · exact .error _ trivial

/-- So is a byte order mark, where there is one. -/
theorem HasTaken.readBom (h : s.HasTaken []) :
    Leaves (fun hasBom t ↦ t.HasTaken ((if hasBom then [0xEF, 0xBB, 0xBF] else []).map .byte))
      (fun _ ↦ True) (readBom s) := by
  unfold LineStream.readBom
  have hfirst : Leaves (fun taken t ↦ (taken = some false → t.HasTaken []) ∧
      (taken = some true → t.HasTaken [.byte 0xEF])) (fun _ ↦ True) (takeByteIf 0xEF s) := by
    unfold takeByteIf
    cases hnext : s.nextIf 0xEF with
    | mk event t =>
      rcases h.nextIf hnext with ⟨b, rfl, hb, ht, -⟩ | ⟨hb, ht, -⟩
      · exact .ok _ ⟨fun _ ↦ ht, by simp [hb]⟩
      · cases event with
        | byte b =>
          obtain rfl := hb b rfl
          exact .ok _ ⟨by simp, fun _ ↦ ht⟩
        | ended => exact .ok _ ⟨nofun, nofun⟩
        | failed failure => exact .error _ trivial
  refine hfirst.bind fun taken t ht ↦ ?_
  match taken with
  | none => exact .error _ trivial
  | some false => exact .ok _ (ht.1 rfl)
  | some true => exact ((ht.2 rfl).expectBytes _ _).bind fun _ _ h ↦ .ok _ h

/-! ## Lines counted -/

/-- The events taken after these come to the lines counted and so many more that are owed, and to so
many bytes of a line that has begun. -/
structure Accounted (limits : Limits) (before : List Event) (owed held : Nat)
    (s : LineStream (Recorded σ)) : Prop where
  limits_eq : s.limits = limits
  exists_events : ∃ events, s.HasTaken (before ++ events) ∧
    (tally limits.maxLineLength.toNat events).ComesTo (s.line + owed) held s.returned

variable {limits : Limits} {before : List Event} {held : Nat}

omit [Source σ] in
/-- At first nothing is counted. -/
theorem HasTaken.accounted (h : s.HasTaken before) (hlimits : s.limits = limits)
    (hline : s.line = 0) : s.Accounted limits before 0 0 :=
  ⟨hlimits, [], by simpa using h, by rw [hline]; exact .zero⟩

omit [Source σ] in
/-- The account goes on with the next event. -/
theorem Accounted.count {owed held' : Nat} (hkept : Kept s t) (hlimits : s.limits = limits)
    (htaken : t.HasTaken (before ++ events ++ [event]))
    (hcomes : ((tally limits.maxLineLength.toNat events).count limits.maxLineLength.toNat
      event).ComesTo (s.line + owed) held' t.returned) : t.Accounted limits before owed held' := by
  refine ⟨hkept.limits_eq.trans hlimits, events ++ [event], ?_, ?_⟩
  · rwa [← List.append_assoc]
  · rwa [tally_append_singleton, hkept.line_eq]

/-- A terminator is counted with what is looked at after it, unless that is a failure. -/
theorem Accounted.finishTerminator {first : UInt8} (h : s.Accounted limits before 0 held)
    (hnext : s.next = (.byte first, t)) (hfirst : first = lineFeed ∨ first = carriageReturn) :
    Leaves (fun _ ↦ Accounted limits before 1 0) (Accounted limits before 0 0)
      (finishTerminator first t) := by
  obtain ⟨hlimits, events, htaken, hcomes⟩ := h
  obtain ⟨ht, hroom, hreturned⟩ := htaken.next hnext
  have hkept := kept_of_next hnext
  rcases hfirst with rfl | rfl
  · refine .ok _ (.count hkept hlimits ht ?_)
    rw [hroom]
    exact hcomes.of_lineFeed fun b hb ↦ (Event.byte.inj (hreturned b hb)).symm
  · refine Leaves.bind ?_ fun _ _ h ↦ .ok _ h
    unfold takeByteIf
    cases hlook : t.nextIf lineFeed with
    | mk event u =>
      have hkept' := hkept.trans (kept_of_nextIf hlook)
      rcases ht.nextIf hlook with ⟨b, rfl, hb, hu, hback⟩ | ⟨hb, hu, hnone⟩
      · refine .ok _ (.count hkept' hlimits hu ?_)
        rw [hback]
        exact hcomes.of_return hb
      · rw [List.append_assoc before] at hu
        cases event with
        | byte b =>
          obtain rfl := hb b rfl
          refine .ok _ (.count hkept' hlimits hu ?_)
          rw [tally_append_singleton, hnone]
          exact hcomes.of_return_lineFeed
        | ended =>
          refine .ok _ (.count hkept' hlimits hu ?_)
          rw [tally_append_singleton, hnone]
          exact hcomes.of_return_ended
        | failed failure =>
          refine .error _ (.count hkept' hlimits hu ?_)
          rw [tally_append_singleton, hnone]
          exact hcomes.of_return_failed

/-- A line that is taken is owed, and nothing is held of it or of a line that was given up. -/
theorem Accounted.takeLineAfter {taken : ByteArray} (h : s.Accounted limits before 0 taken.size) :
    Leaves (fun line? ↦ Accounted limits before line?.toList.length 0) (Accounted limits before 0 0)
      (takeLineAfter taken s) := by
  fun_induction LineStream.takeLineAfter taken s with
  | case1 taken s t hnext =>
    obtain ⟨hlimits, events, htaken, hcomes⟩ := h
    obtain ⟨ht, hroom, -⟩ := htaken.next hnext
    have howed : (if taken.isEmpty then none else some taken).toList.length =
        if taken.size = 0 then 0 else 1 := by
      by_cases hempty : taken.size = 0 <;> simp [ByteArray.isEmpty, hempty]
    refine .ok _ (.count (kept_of_next hnext) hlimits ht ?_)
    rw [hroom, howed]
    exact hcomes.of_ended
  | case2 taken s failure t hnext =>
    obtain ⟨hlimits, events, htaken, hcomes⟩ := h
    obtain ⟨ht, hroom, hreturned⟩ := htaken.next hnext
    have hnone : s.returned = none := by
      refine Option.eq_none_iff_forall_not_mem.mpr fun b hb ↦ ?_
      cases hreturned b hb
    refine .error _ (.count (kept_of_next hnext) hlimits ht ?_)
    rw [hroom]
    rw [hnone] at hcomes
    exact hcomes.of_failed
  | case3 taken s b t hnext hb _ u hfinish =>
    have hended := h.finishTerminator hnext hb
    rw [hfinish] at hended
    exact .ok _ hended.of_ok
  | case4 taken s b t hnext hb e u hfinish =>
    have hended := h.finishTerminator hnext hb
    rw [hfinish] at hended
    exact .error _ hended.of_error
  | case5 taken s b t hnext hb hfull =>
    obtain ⟨hlimits, events, htaken, hcomes⟩ := h
    obtain ⟨ht, hroom, -⟩ := htaken.next hnext
    have hkept := kept_of_next hnext
    rw [hkept.limits_eq, hlimits] at hfull
    refine .error _ (.count hkept hlimits ht ?_)
    have hcontent := hcomes.of_content limits.maxLineLength.toNat hb
    rwa [if_neg (Nat.not_lt.mpr hfull), ← hroom] at hcontent
  | case6 taken s b t hnext hb hfull ih =>
    obtain ⟨hlimits, events, htaken, hcomes⟩ := h
    obtain ⟨ht, hroom, -⟩ := htaken.next hnext
    have hkept := kept_of_next hnext
    rw [hkept.limits_eq, hlimits] at hfull
    refine ih (.count hkept hlimits ht ?_)
    have hcontent := hcomes.of_content limits.maxLineLength.toNat hb
    rwa [if_pos (Nat.lt_of_not_le hfull), ← hroom, ← ByteArray.size_push] at hcontent

omit [Source σ] in
/-- A line that is owed is counted when it is complete. -/
theorem Accounted.completeLine (bytes : ByteArray) (h : s.Accounted limits before 1 0) :
    (completeLine bytes s).Accounted limits before 0 0 := by
  obtain ⟨hlimits, events, htaken, hcomes⟩ := h
  exact ⟨hlimits, events, htaken, hcomes⟩

omit [Source σ] in
/-- A notice is no event. -/
theorem Accounted.note (n : Notice) (h : s.Accounted limits before 0 0) :
    (s.note n).Accounted limits before 0 0 := by
  obtain ⟨hlimits, events, htaken, hcomes⟩ := h
  exact ⟨hlimits, events, htaken, hcomes⟩

/-- Reading a line keeps the account, however it comes out. -/
theorem Accounted.readLine (h : s.Accounted limits before 0 0) :
    Leaves (fun _ ↦ Accounted limits before 0 0) (Accounted limits before 0 0)
      (readLine s) := by
  unfold LineStream.readLine
  refine Leaves.bind (Accounted.takeLineAfter h) fun line? t ht ↦ ?_
  cases line? with
  | none => exact .ok _ ht
  | some bytes =>
    dsimp only
    rw [Reading.bind_modify]
    cases String.fromUTF8? bytes with
    | some text => exact .ok _ (ht.completeLine bytes)
    | none => exact .error _ (ht.completeLine bytes)

end LineStream

end WebVTT
