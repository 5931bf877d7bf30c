import WebVTT.Proofs.Timings.Reading

/-!
# Timestamps end where they end

What comes after a blank has no say in how a timestamp is scanned (`Scan.Local`): no step of the
scan takes a blank, and each of them stops there as it would at the end. So a timestamp at the
front of a text is a time in its own right, and a time in its own right is a timestamp wherever a
blank or the end comes after it (`Scan.timestamp_eq_ok_iff`).
-/

namespace WebVTT

/-- The text is over, or goes on with a blank. -/
def BlankNext (text : List Char) : Prop := ∀ c ∈ text.head?, isBlank c

namespace Scan

variable {α β : Type} {text more rest : List Char}

/-- What a scan comes to where more text is left over. -/
def Over (more : List Char) :
    EStateM.Result TimingFault (List Char) α → EStateM.Result TimingFault (List Char) α
  | .ok a rest => .ok a (rest ++ more)
  | .error fault rest => .error fault (rest ++ more)

/-- Text behind a blank only adds to what a scan leaves over. -/
def Local (scan : Scan α) : Prop :=
  ∀ text more, BlankNext more → scan (text ++ more) = Over more (scan text)

namespace Local

theorem pure (a : α) : Local (Pure.pure a) := fun _ _ _ ↦ rfl

theorem throw (fault : TimingFault) : Local (throw fault : Scan α) := fun _ _ _ ↦ rfl

theorem bind {x : Scan α} {f : α → Scan β} (hx : Local x) (hf : ∀ a, Local (f a)) :
    Local (x >>= f) := by
  intro text more hmore
  show EStateM.bind x f (text ++ more) = Over more (EStateM.bind x f text)
  unfold EStateM.bind
  rw [hx text more hmore]
  cases x text with
  | ok a rest => exact hf a rest more hmore
  | error fault rest => rfl

theorem ite {p : Prop} [Decidable p] {x y : Scan α} (hx : Local x) (hy : Local y) :
    Local (if p then x else y) := by
  split
  · exact hx
  · exact hy

/-- A scan that looks at the text may do so as far as the next blank. -/
theorem get {f : List Char → Scan α}
    (hsame : ∀ text more, BlankNext more → f (text ++ more) = f text)
    (hf : ∀ text, Local (f text)) : Local (MonadState.get >>= f) := by
  intro text more hmore
  show f (text ++ more) (text ++ more) = Over more (f text text)
  rw [hsame text more hmore]
  exact hf text text more hmore

end Local

/-! ## Steps -/

theorem accept_of_ne {expected c : Char} (h : c ≠ expected) (rest : List Char) :
    accept expected (c :: rest) = .ok false (c :: rest) := if_neg h

theorem local_accept {expected : Char} (h : ¬isBlank expected) : Local (accept expected) := by
  intro text more hmore
  cases text with
  | nil =>
    cases more with
    | nil => rfl
    | cons c more =>
      have hc : isBlank c := hmore c rfl
      refine accept_of_ne ?_ more
      rintro rfl
      exact h hc
  | cons c text =>
    by_cases hc : c = expected
    · subst hc
      rw [List.cons_append, accept_self, accept_self]
      rfl
    · rw [List.cons_append, accept_of_ne hc, accept_of_ne hc]
      rfl

theorem digitsAfter_cons (value : UInt64) (c : Char) (rest : List Char) :
    digitsAfter value (c :: rest) =
      if c.isDigit then
        if numberLimit < value * 10 + digitValue c then .error .numberOverflow (c :: rest)
        else digitsAfter (value * 10 + digitValue c) rest
      else .ok value (c :: rest) := rfl

theorem local_digitsAfter (value : UInt64) : Local (digitsAfter value) := by
  intro text more hmore
  induction text generalizing value with
  | nil =>
    cases more with
    | nil => rfl
    | cons c more => exact if_neg (not_isDigit_of_isBlank (hmore c rfl))
  | cons c text ih =>
    rw [List.cons_append, digitsAfter_cons, digitsAfter_cons]
    split
    · split
      · rfl
      · exact ih _
    · rfl

/-- A run of digits does not go on behind a blank. -/
theorem takeWhile_isDigit_append (text : List Char) (h : BlankNext more) :
    (text ++ more).takeWhile Char.isDigit = text.takeWhile Char.isDigit := by
  induction text with
  | nil =>
    exact @takeWhile_append_of_head _ [] more nofun fun c hc ↦ not_isDigit_of_isBlank (h c hc)
  | cons c text ih =>
    rw [List.cons_append, List.takeWhile_cons, List.takeWhile_cons, ih]

theorem local_number : Local number := by
  unfold number
  refine .get ?_ ?_
  · intro text more hmore
    have hfirst : (text ++ more).head?.any Char.isDigit = text.head?.any Char.isDigit := by
      cases text with
      | cons c text => rfl
      | nil =>
        cases more with
        | nil => rfl
        | cons c more => exact Bool.eq_false_iff.mpr (not_isDigit_of_isBlank (hmore c rfl))
    rw [hfirst]
  · intro text
    exact .ite ((local_digitsAfter 0).bind fun value ↦ .ite (.pure _) (.throw _)) (.throw _)

theorem local_clock : Local clock := by
  unfold clock
  have hcolon : Local (accept ':') := local_accept (by decide)
  refine local_number.bind fun first ↦ hcolon.bind fun colon ↦ .ite ?_ (.pure _)
  refine local_number.bind fun second ↦ hcolon.bind fun hasHours ↦ .ite (.throw _) (.ite ?_ ?_)
  · exact local_number.bind fun third ↦ .ite (.throw _) (.pure _)
  · exact .ite (.throw _) (.pure _)

theorem local_fraction : Local fraction := by
  unfold fraction
  refine (local_accept (by decide)).bind fun point ↦ .ite (.get ?_ ?_) (.pure _)
  · intro text more hmore
    rw [takeWhile_isDigit_append text hmore]
  · intro text
    refine local_number.bind fun value ↦ ?_
    generalize (text.takeWhile Char.isDigit).length = places
    match places with
    | 1 => exact .pure _
    | 2 => exact .pure _
    | 3 => exact .pure _
    | 0 => exact .throw _
    | _ + 4 => exact .throw _

/-! ## Timestamps -/

/-- A timestamp without blanks before it. -/
def bareTimestamp : Scan Time := do
  let (hours, minutes, seconds) ← clock
  let milliseconds ← fraction
  match ← get with
  | [] => return { hours, minutes, seconds, milliseconds }
  | c :: _ =>
    if isBlank c then
      return { hours, minutes, seconds, milliseconds }
    else
      throw (.trailingCharacter c)

theorem timestamp_eq (text : List Char) :
    timestamp text = bareTimestamp (text.dropWhile isBlank) := rfl

theorem local_bareTimestamp : Local bareTimestamp := by
  unfold bareTimestamp
  refine local_clock.bind fun (hours, minutes, seconds) ↦ local_fraction.bind fun milliseconds ↦ ?_
  intro text more hmore
  rw [bind_get, bind_get]
  cases text with
  | nil =>
    cases more with
    | nil => rfl
    | cons c more =>
      dsimp only [List.nil_append]
      rw [if_pos (hmore c rfl)]
      rfl
  | cons c text =>
    dsimp only [List.cons_append]
    split <;> rfl

/-- A timestamp is not made of nothing. -/
theorem ne_nil_of_bareTimestamp {t : Time} (h : bareTimestamp text = .ok t rest) : text ≠ [] := by
  rintro rfl
  cases h

/-- A timestamp ends at a blank or the end. -/
theorem blankNext_of_bareTimestamp {t : Time} (h : bareTimestamp text = .ok t rest) :
    BlankNext rest ∧ rest <:+ text := by
  obtain ⟨⟨hours, minutes, seconds⟩, u, hclock, h⟩ := ok_of_bind h
  obtain ⟨milliseconds, v, hfraction, h⟩ := ok_of_bind h
  have hv : v <:+ text := (fraction_eq_ok hfraction).2.trans (clock_eq_ok hclock).2.2.2
  rw [bind_get] at h
  cases v with
  | nil =>
    cases h
    exact ⟨nofun, hv⟩
  | cons c v =>
    dsimp only at h
    split at h
    · next hc =>
      cases h
      refine ⟨?_, hv⟩
      rintro _ ⟨⟩
      exact hc
    · cases h

/-- A timestamp that reaches the end of its text does not end with a blank. -/
theorem not_isBlank_of_bareTimestamp {t : Time} (h : bareTimestamp text = .ok t []) :
    ∀ c ∈ text.getLast?, ¬isBlank c := by
  intro c hc hblank
  obtain ⟨before, rfl⟩ := List.getLast?_eq_some_iff.mp hc
  have hlocal := local_bareTimestamp before [c] (by rintro _ ⟨⟩; exact hblank)
  rw [h] at hlocal
  cases hbefore : bareTimestamp before with
  | ok t' rest =>
    rw [hbefore] at hlocal
    have hleft : [] = rest ++ [c] := (EStateM.Result.ok.inj hlocal).2
    simp at hleft
  | error fault rest =>
    rw [hbefore] at hlocal
    cases hlocal

/-- Text behind a blank is left over after a timestamp. -/
theorem timestamp_append {t : Time} (h : timestamp text = .ok t rest) (hmore : BlankNext more) :
    timestamp (text ++ more) = .ok t (rest ++ more) := by
  rw [timestamp_eq] at h ⊢
  have hne := ne_nil_of_bareTimestamp h
  rw [List.dropWhile_append, if_neg (by simpa using hne), local_bareTimestamp _ _ hmore, h]
  rfl

/-! ## Times in their own right -/

/-- One scan after another makes of a text what the second makes of what the first leaves over. -/
theorem of_bind (x : Scan α) (f : α → Scan β) (text : List Char) :
    (x >>= f).of text = match x text with
      | .ok a rest => (f a).of rest
      | .error fault _ => .error fault := by
  unfold of
  cases h : x text with
  | ok a rest => rw [bind_of_ok h]
  | error fault rest =>
    have hbind : (x >>= f) text = .error fault rest := by
      show EStateM.bind x f text = _
      unfold EStateM.bind
      rw [h]
    rw [hbind]

/-- What a text denotes is settled by the timestamp at its front and by what comes after the blanks
behind that. -/
theorem of_loneTimestamp (text : List Char) :
    loneTimestamp.of text = match timestamp text with
      | .ok t rest =>
        match rest.dropWhile isBlank with
        | [] => .ok t
        | c :: _ => .error (.trailingCharacter c)
      | .error fault _ => .error fault := by
  unfold loneTimestamp
  rw [of_bind]
  cases timestamp text with
  | ok t rest =>
    dsimp only
    unfold of
    rw [bind_blanks, bind_get]
    cases rest.dropWhile isBlank <;> rfl
  | error fault rest => rfl

/-- Blanks at most are left over after the timestamp of a time. -/
theorem exists_of_parse {p : String} {t : Time} (h : Time.parse p = .ok t) :
    ∃ rest, timestamp p.toList = .ok t rest ∧ rest.dropWhile isBlank = [] := by
  unfold Time.parse at h
  rw [of_loneTimestamp] at h
  split at h
  · next t' rest htime =>
    split at h
    · next hblanks =>
      cases h
      exact ⟨rest, htime, hblanks⟩
    · cases h
  · cases h

/-- A text that does not end with a blank is a time if a timestamp takes all of it. -/
theorem parse_eq_ok_iff {p : String} {t : Time} (hp : ∀ c ∈ p.toList.getLast?, ¬isBlank c) :
    Time.parse p = .ok t ↔ timestamp p.toList = .ok t [] := by
  constructor
  · intro h
    obtain ⟨rest, htime, hblanks⟩ := exists_of_parse h
    have htime' := htime
    rw [timestamp_eq] at htime'
    have hsuffix := (blankNext_of_bareTimestamp htime').2.trans (List.dropWhile_suffix _)
    obtain ⟨before, hbefore⟩ := hsuffix
    cases hlast : rest.getLast? with
    | none => rwa [List.getLast?_eq_none_iff.mp hlast] at htime
    | some c =>
      have hc : isBlank c := List.dropWhile_eq_nil_iff.mp hblanks c (List.mem_of_getLast? hlast)
      refine absurd hc (hp c ?_)
      rw [← hbefore, List.getLast?_append, hlast]
      rfl
  · intro h
    unfold Time.parse
    rw [of_loneTimestamp, h]
    rfl

/-- A timestamp is the time that the text up to its end denotes. -/
theorem timestamp_eq_ok_iff {tail s : String} {t : Time} :
    timestamp tail.toList = .ok t s.toList ↔
      ∃ p : String, tail = p ++ s ∧ (∀ c ∈ p.toList.getLast?, ¬isBlank c) ∧
        Time.parse p = .ok t ∧ BlankNext s.toList := by
  rw [timestamp_eq]
  constructor
  · intro h
    obtain ⟨hnext, core, hcore⟩ := blankNext_of_bareTimestamp h
    have hbare : bareTimestamp core = .ok t [] := by
      have hlocal := local_bareTimestamp core s.toList hnext
      rw [hcore, h] at hlocal
      cases hscan : bareTimestamp core with
      | error fault rest =>
        rw [hscan] at hlocal
        cases hlocal
      | ok t' rest =>
        rw [hscan] at hlocal
        obtain ⟨rfl, hrest⟩ := EStateM.Result.ok.inj hlocal
        rw [List.self_eq_append_left.mp hrest]
    obtain ⟨first, more, hfirst⟩ := List.exists_cons_of_ne_nil (ne_nil_of_bareTimestamp hbare)
    have hlast : ∀ c ∈ (tail.toList.takeWhile isBlank ++ core).getLast?, ¬isBlank c := by
      have hend := not_isBlank_of_bareTimestamp hbare
      rw [List.getLast?_append]
      rw [hfirst] at hend ⊢
      rwa [List.getLast?_cons] at hend ⊢
    refine ⟨String.ofList (tail.toList.takeWhile isBlank ++ core), ?_, ?_, ?_, hnext⟩
    · rw [← String.toList_inj, String.toList_append, String.toList_ofList, List.append_assoc, hcore,
        List.takeWhile_append_dropWhile]
    · rwa [String.toList_ofList]
    · rw [parse_eq_ok_iff (by rwa [String.toList_ofList]), String.toList_ofList, timestamp_eq,
        dropWhile_append_of_head (fun c hc ↦ List.mem_takeWhile_imp hc) ?_, hbare]
      rw [hfirst] at hcore ⊢
      have hhead := List.head?_dropWhile_not isBlank tail.toList
      rw [← hcore] at hhead
      rintro _ ⟨⟩
      exact Bool.eq_false_iff.mp hhead
  · rintro ⟨p, rfl, hp, hparse, hnext⟩
    have htime := timestamp_append ((parse_eq_ok_iff hp).mp hparse) hnext
    rwa [← String.toList_append, timestamp_eq] at htime

end Scan

end WebVTT
