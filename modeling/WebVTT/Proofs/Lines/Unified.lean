import WebVTT.Proofs.Lines.Basic

/-!
# Line feeds for all endings

`Line.unify` puts a line feed in place of every ending. No line changes its bytes by that
(`unify_append`), and no byte that ends no line is changed.
-/

namespace WebVTT.Line

open LineStream (lineFeed carriageReturn)

/-- The bytes of a stream with a line feed for every carriage return, which a line feed right after
it is part of. -/
def unify : List UInt8 → List UInt8
  | [] => []
  | b :: rest =>
    if b = carriageReturn then
      match rest with
      | [] => [lineFeed]
      | c :: more => lineFeed :: if c = lineFeed then unify more else unify (c :: more)
    else b :: unify rest

@[simp] theorem unify_nil : unify [] = [] := rfl

theorem unify_cons_of_ne {b : UInt8} (rest : List UInt8) (hb : b ≠ carriageReturn) :
    unify (b :: rest) = b :: unify rest := by
  rw [unify.eq_def]
  simp only [hb, if_false]

/-- Where a carriage return comes next, a line feed does instead. -/
theorem exists_unify_cons (rest : List UInt8) :
    ∃ more, unify (carriageReturn :: rest) = lineFeed :: more := by
  rw [unify.eq_def]
  cases rest <;> exact ⟨_, rfl⟩

/-- Every ending becomes a line feed. -/
theorem unify_ending {e : Ending} {rest : List UInt8} (he : e.OverBefore rest) :
    unify (e.bytes ++ rest) = Ending.lf.bytes ++ unify rest := by
  cases e with
  | lf => exact unify_cons_of_ne rest (by decide)
  | crlf =>
    show unify (carriageReturn :: lineFeed :: rest) = _
    rw [unify.eq_def]
    rfl
  | cr =>
    cases rest with
    | nil => rfl
    | cons c more =>
      have hc : c ≠ lineFeed := fun h ↦ he rfl (by simp [h])
      rw [Ending.bytes, List.singleton_append, unify.eq_def]
      simp [hc, Ending.bytes]

/-- Bytes that end no line stay what they are. -/
theorem unify_unbroken_append {content : List UInt8} (hcontent : Unbroken content)
    (rest : List UInt8) : unify (content ++ rest) = content ++ unify rest := by
  induction content with
  | nil => rfl
  | cons b content ih =>
    obtain ⟨hb, hcontent⟩ := unbroken_cons.mp hcontent
    rw [List.cons_append, unify_cons_of_ne _ (not_or.mp hb).2, ih hcontent, List.cons_append]

theorem unify_of_unbroken {content : List UInt8} (hcontent : Unbroken content) :
    unify content = content := by
  simpa using unify_unbroken_append hcontent []

/-- The first line of a stream is the same line, ended by a line feed. -/
theorem unify_append {content : List UInt8} {e : Ending} {rest : List UInt8}
    (hcontent : Unbroken content) (he : e.OverBefore rest) :
    unify (content ++ (e.bytes ++ rest)) = content ++ (Ending.lf.bytes ++ unify rest) := by
  rw [unify_unbroken_append hcontent, unify_ending he]

end WebVTT.Line
