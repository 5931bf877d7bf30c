import WebVTT.Proofs.Lines.Basic
import WebVTT.Proofs.Source.Delivery

/-!
# Taking bytes of a finite stream

`s.At limits line bytes` says all about a stream of lines that reading can tell: the limits, how
many lines have been read, and the bytes to come, a byte handed back included. Each step over the
stream is described by where it starts and where it ends in these terms, and by what it yields.
-/

namespace WebVTT

namespace Reading

section Bind

variable {S α β : Type} {x : EStateM Error S α} {f : α → EStateM Error S β} {s t : S}

/-- After a step that comes off, the next one runs. -/
theorem bind_of_ok {a : α} (h : x s = .ok a t) : (x >>= f) s = f a t := by
  show EStateM.run (x >>= f) s = _
  rw [EStateM.run_bind, show x.run s = .ok a t from h]
  rfl

/-- After a step that is refused, none does. -/
theorem bind_of_error {e : Error} (h : x s = .error e t) : (x >>= f) s = .error e t := by
  show EStateM.run (x >>= f) s = _
  rw [EStateM.run_bind, show x.run s = .error e t from h]

end Bind

variable {σ α β : Type} {s t : LineStream σ}

/-- How a step comes out that leaves the stream at `t`, if the source does not fail. -/
def result (out : Except Violation α) (t : LineStream σ) :
    EStateM.Result Error (LineStream σ) α :=
  match out with
  | .ok a => .ok a t
  | .error v => .error (.violation v) t

/-- A step may look at the stream. -/
theorem bind_get {f : LineStream σ → Reading σ β} : (get >>= f) s = f s s := rfl

/-- A step may change the stream. -/
theorem bind_modify {g : LineStream σ → LineStream σ} {f : PUnit → Reading σ β} :
    (modify g >>= f) s = f ⟨⟩ (g s) := rfl

end Reading

namespace LineStream

variable {σ : Type} [Source σ]

/-- The stream is read under these limits, so many lines of it have been read, and these bytes are
still to come. -/
structure At (s : LineStream σ) (limits : Limits) (line : Nat) (bytes : List UInt8) : Prop where
  limits_eq : s.limits = limits
  line_eq : s.line = line
  delivers : ∃ rest, bytes = s.returned.toList ++ rest ∧ Source.Delivers s.source rest

variable {s : LineStream σ} {limits : Limits} {line : Nat} {b : UInt8} {bytes : List UInt8}

/-- A source stands before all it delivers. -/
theorem at_ofSource {source : σ} (h : Source.Delivers source bytes) :
    At { source, limits } limits 0 bytes := ⟨rfl, rfl, bytes, rfl, h⟩

theorem At.next_cons (h : s.At limits line (b :: bytes)) :
    ∃ t, s.next = (.byte b, t) ∧ t.At limits line bytes ∧ t.returned = none := by
  obtain ⟨hlimits, hline, rest, hbytes, hrest⟩ := h
  unfold next
  cases hreturned : s.returned with
  | none =>
    rw [hreturned] at hbytes
    cases hbytes
    have hnext := hrest.next_cons
    refine ⟨{ s with source := (Source.next s.source).2 }, ?_, ⟨hlimits, hline, bytes, ?_, hnext.2⟩,
      hreturned⟩
    · rw [hnext.1, hreturned]
    · simp [hreturned]
  | some c =>
    rw [hreturned] at hbytes
    obtain ⟨rfl, rfl⟩ : b = c ∧ bytes = rest := by simpa using hbytes
    exact ⟨_, rfl, ⟨hlimits, hline, bytes, rfl, hrest⟩, rfl⟩

theorem At.next_nil (h : s.At limits line []) : ∃ t, s.next = (.ended, t) ∧ t.At limits line [] := by
  obtain ⟨hlimits, hline, rest, hbytes, hrest⟩ := h
  obtain ⟨hreturned, rfl⟩ := List.append_eq_nil_iff.mp hbytes.symm
  have hreturned : s.returned = none := by simpa using hreturned
  have hnext := hrest.next_nil
  unfold next
  rw [hreturned]
  refine ⟨{ s with source := (Source.next s.source).2 }, ?_, hlimits, hline, [], ?_, hnext.2⟩
  · rw [hnext.1, hreturned]
  · simp [hreturned]

/-! ## Steps -/

theorem At.takeByte_cons (h : s.At limits line (b :: bytes)) :
    ∃ t, takeByte s = .ok (some b) t ∧ t.At limits line bytes := by
  obtain ⟨t, hnext, ht, -⟩ := h.next_cons
  exact ⟨t, by rw [takeByte, hnext], ht⟩

theorem At.takeByte_nil (h : s.At limits line []) :
    ∃ t, takeByte s = .ok none t ∧ t.At limits line [] := by
  obtain ⟨t, hnext, ht⟩ := h.next_nil
  exact ⟨t, by rw [takeByte, hnext], ht⟩

theorem At.takeByteIf_nil (expected : UInt8) (h : s.At limits line []) :
    ∃ t, takeByteIf expected s = .ok none t ∧ t.At limits line [] := by
  obtain ⟨t, hnext, ht⟩ := h.next_nil
  exact ⟨t, by simp [takeByteIf, nextIf, hnext], ht⟩

theorem At.takeByteIf_self (h : s.At limits line (b :: bytes)) :
    ∃ t, takeByteIf b s = .ok (some true) t ∧ t.At limits line bytes := by
  obtain ⟨t, hnext, ht, -⟩ := h.next_cons
  exact ⟨t, by simp [takeByteIf, nextIf, hnext], ht⟩

/-- A byte that is not the expected one is still to come. -/
theorem At.takeByteIf_of_ne {expected : UInt8} (hne : b ≠ expected)
    (h : s.At limits line (b :: bytes)) :
    ∃ t, takeByteIf expected s = .ok (some false) t ∧ t.At limits line (b :: bytes) := by
  obtain ⟨t, hnext, ⟨hlimits, hline, rest, hbytes, hrest⟩, hreturned⟩ := h.next_cons
  rw [hreturned] at hbytes
  refine ⟨{ t with returned := some b }, by simp [takeByteIf, nextIf, hnext, hne], hlimits, hline,
    rest, ?_, hrest⟩
  simpa using hbytes

/-- An ending that is over is taken as a whole, and nothing else is. -/
theorem At.finishTerminator {e : Ending} (he : e.OverBefore bytes)
    (h : s.At limits line (e.bytes ++ bytes)) :
    ∃ first t u, s.next = (.byte first, t) ∧ (first = lineFeed ∨ first = carriageReturn) ∧
      finishTerminator first t = .ok () u ∧ u.At limits line bytes := by
  cases e with
  | lf =>
    obtain ⟨t, hnext, ht, -⟩ := h.next_cons
    exact ⟨lineFeed, t, t, hnext, .inl rfl, rfl, ht⟩
  | crlf =>
    obtain ⟨t, hnext, ht, -⟩ := h.next_cons
    have ht : t.At limits line (lineFeed :: bytes) := ht
    obtain ⟨u, htake, hu⟩ := ht.takeByteIf_self
    refine ⟨carriageReturn, t, u, hnext, .inr rfl, ?_, hu⟩
    exact Reading.bind_of_ok htake
  | cr =>
    obtain ⟨t, hnext, ht, -⟩ := h.next_cons
    have htake : ∃ taken u, takeByteIf lineFeed t = .ok taken u ∧ u.At limits line bytes := by
      cases bytes with
      | nil =>
        obtain ⟨u, htake, hu⟩ := At.takeByteIf_nil lineFeed ht
        exact ⟨none, u, htake, hu⟩
      | cons c more =>
        have hc : c ≠ lineFeed := fun hc ↦ he rfl (by simp [hc])
        obtain ⟨u, htake, hu⟩ := At.takeByteIf_of_ne hc ht
        exact ⟨some false, u, htake, hu⟩
    obtain ⟨taken, u, htake, hu⟩ := htake
    exact ⟨carriageReturn, t, u, hnext, .inr rfl, Reading.bind_of_ok htake, hu⟩

end LineStream

end WebVTT
