import Mathlib.Data.List.DropRight
import WebVTT.Proofs.Document.Stages

/-!
# Lines beyond a limit

A line exceeds a limit if it is too long or is a line of text too many for its cue. Which lines do can
be told from the lines alone: the block that a line belongs to goes back to the last empty line, and
text begins in it after the timings (`Line.excess?`). Reading goes by stages instead. The stage that
lines lead to fits them (`Stage.Fits`), which every line preserves (`Stage.Fits.next`), and then both
number the lines of text alike (`Stage.Fits.ordinal_eq`).
-/

namespace WebVTT

/-! ## Lines beyond a limit -/

namespace Line

/-- Whether a line is a text with an arrow in it. -/
def hasArrow (l : Line) : Bool := (Text.decode l.content).any Timings.hasArrow

/-- The block that has begun and is not over after these lines, two of which are the header's. -/
def openBlock (before : List Line) : List Line := (before.drop 2).rtakeWhile (·.content ≠ [])

/-- How many lines come before the text of a block: the timings, and an identifier unless the block
begins with the timings. -/
def openingLength (block : List Line) : Nat := if block.head?.any hasArrow then 1 else 2

/-- Which line of text of its cue a line is after these; any other line is the zeroth. -/
def ordinal (before : List Line) (l : Line) : Nat :=
  if l.content = [] ∨ Text.decode l.content = none then 0
  else (openBlock before).length + 1 - openingLength (openBlock before)

/-- What is wrong with a line after these if it exceeds a limit. -/
def excess? (limits : Limits) (before : List Line) (l : Line) : Option Violation :=
  if limits.maxLineLength.toNat < l.content.length then
    some (.lineTooLong (before.length + 1) limits.maxLineLength)
  else if limits.maxPayloadLines.toNat < ordinal before l then
    some (.tooManyPayloadLines (before.length + 1) limits.maxPayloadLines)
  else
    none

/-- What is wrong with the first of some lines that exceeds a limit, given the lines before. -/
def firstExcess? (limits : Limits) (before : List Line) : List Line → Option Violation
  | [] => none
  | l :: ls => (excess? limits before l).or (firstExcess? limits (before ++ [l]) ls)

variable {limits : Limits} {before block ls : List Line} {l : Line} {v : Violation} {text : String}

theorem hasArrow_of_decode (h : Text.decode l.content = some text) :
    l.hasArrow = Timings.hasArrow text := by
  rw [hasArrow, h]
  rfl

/-- A line is empty exactly if its text is. -/
theorem content_eq_nil_iff (h : Text.decode l.content = some text) :
    l.content = [] ↔ text = "" := by
  rw [← Text.decode_eq_some_iff.mp h, Text.encode_eq_nil_iff]

/-- No block is open in the header. -/
theorem openBlock_of_length_le_two (h : before.length ≤ 2) : openBlock before = [] := by
  rw [openBlock, List.drop_eq_nil_of_le h]
  rfl

/-- After the header, an empty line ends the block, and any other adds to it. -/
theorem openBlock_concat (h : 2 ≤ before.length) (l : Line) :
    openBlock (before ++ [l]) = if l.content = [] then [] else openBlock before ++ [l] := by
  rw [openBlock, List.drop_append_of_le_length h, List.rtakeWhile_concat]
  by_cases hempty : l.content = []
  · simp [hempty]
  · simp [hempty, openBlock]

theorem openingLength_pos (block : List Line) : 0 < openingLength block := by
  unfold openingLength
  split <;> decide

/-- The first line of a block says how it opens. -/
theorem openingLength_append (hne : block ≠ []) (more : List Line) :
    openingLength (block ++ more) = openingLength block := by
  rw [openingLength, openingLength, List.head?_append_of_ne_nil _ hne]

/-- No line is a later line of text than there are lines. -/
theorem ordinal_le (before : List Line) (l : Line) : ordinal before l ≤ before.length := by
  have hblock : (openBlock before).length ≤ before.length :=
    Nat.le_trans (List.rtakeWhile_suffix _ _).length_le (by simp)
  have hopening := openingLength_pos (openBlock before)
  unfold ordinal
  split <;> omega

theorem excess?_eq_none_iff : excess? limits before l = none ↔
    l.content.length ≤ limits.maxLineLength.toNat ∧
      ordinal before l ≤ limits.maxPayloadLines.toNat := by
  unfold excess?
  split <;> [skip; split] <;> simp <;> omega

/-- Where there is room to count them, no line exceeds what is no limit. -/
theorem excess?_unlimited (hlength : l.content.length < UInt64.size)
    (hroom : before.length < UInt64.size) : excess? .unlimited before l = none := by
  have hordinal : ordinal before l < UInt64.size := Nat.lt_of_le_of_lt (ordinal_le before l) hroom
  exact excess?_eq_none_iff.mpr ⟨Nat.le_of_lt_succ hlength, Nat.le_of_lt_succ hordinal⟩

/-- Only a limit can be exceeded. -/
theorem category_of_excess? (h : excess? limits before l = some v) : v.category = .resource := by
  unfold excess? at h
  split at h
  · cases h
    rfl
  · split at h <;> cases h
    rfl

theorem category_of_firstExcess? (h : firstExcess? limits before ls = some v) :
    v.category = .resource := by
  induction ls generalizing before with
  | nil => cases h
  | cons l ls ih =>
    rcases Option.or_eq_some_iff.mp h with hexcess | ⟨-, hmore⟩
    · exact category_of_excess? hexcess
    · exact ih hmore

end Line

/-! ## Stages and the lines before them -/

namespace Stage

variable {before : List Line} {l : Line} {stage stage' : Stage} {text : String} {line : Nat}
  {cue? : Option Cue}

/-- These lines can lead to the stage. -/
def Fits (before : List Line) : Stage → Prop
  | signature => before.length = 0
  | separator => before.length = 1
  | between => 2 ≤ before.length ∧ Line.openBlock before = []
  | identified identifier => 2 ≤ before.length ∧ ∃ l, Line.openBlock before = [l] ∧
      Text.decode l.content = some identifier ∧ ¬Timings.hasArrow identifier
  | collecting _ cue => 2 ≤ before.length ∧ (Line.openBlock before).length =
      Line.openingLength (Line.openBlock before) + cue.payload.length

/-- A line is counted as text the same by its stage and by the lines before it. -/
theorem Fits.ordinal_eq (h : stage.Fits before) (htext : Text.decode l.content = some text) :
    Line.ordinal before l = stage.ordinal text := by
  have hempty := Line.content_eq_nil_iff htext
  by_cases hblank : text = ""
  · rw [Line.ordinal, if_pos (.inl (hempty.mpr hblank)), hblank]
    cases stage <;> simp [ordinal]
  have hline : ¬(l.content = [] ∨ Text.decode l.content = none) := by simp [hempty, hblank, htext]
  rw [Line.ordinal, if_neg hline]
  cases stage with
  | signature =>
    have hheader : before.length = 0 := h
    rw [Line.openBlock_of_length_le_two (by omega)]
    rfl
  | separator =>
    have hheader : before.length = 1 := h
    rw [Line.openBlock_of_length_le_two (by omega)]
    rfl
  | between =>
    rw [h.2]
    rfl
  | identified identifier =>
    obtain ⟨-, first, hblock, hfirst, harrow⟩ := h
    simp [hblock, Line.openingLength, Line.hasArrow_of_decode hfirst, harrow, ordinal]
  | collecting first cue =>
    rw [ordinal, if_neg hblank, h.2]
    omega

/-- An empty line ends whatever block there was. -/
theorem Fits.blank (h : 2 ≤ before.length) (hblank : l.content = []) :
    between.Fits (before ++ [l]) := by
  refine ⟨Nat.le_trans h (List.prefix_append _ _).length_le, ?_⟩
  rw [Line.openBlock_concat h, if_pos hblank]

/-- After its timings line, the block of a cue has the lines of its opening. -/
theorem Fits.timed {identifier : String} {first : Nat} (h : 2 ≤ before.length)
    (hblock : (Line.openBlock before).length = Line.openingLength (Line.openBlock before))
    (hnext : timed identifier first line text = .ok (cue?, stage')) : stage'.Fits before := by
  unfold Stage.timed at hnext
  split at hnext
  · cases hnext
  · cases hnext
    exact ⟨h, hblock⟩

/-- A line of text adds to its cue what it adds to the block. -/
theorem Fits.payload {first : Nat} {cue : Cue} (h : (collecting first cue).Fits before)
    (hne : l.content ≠ []) :
    (collecting first { cue with payload := cue.payload ++ [text] }).Fits (before ++ [l]) := by
  obtain ⟨htwo, hblock⟩ := h
  refine ⟨Nat.le_trans htwo (List.prefix_append _ _).length_le, ?_⟩
  have hbegun : Line.openBlock before ≠ [] := by
    intro hnone
    have hpos := Line.openingLength_pos []
    rw [hnone, List.length_nil] at hblock
    omega
  rw [Line.openBlock_concat htwo, if_neg hne, Line.openingLength_append hbegun]
  simp only [List.length_append, List.length_singleton, hblock, Nat.add_assoc]

/-- Every line leads on to a stage that fits the lines up to it. -/
theorem Fits.next (h : stage.Fits before) (htext : Text.decode l.content = some text)
    (hnext : stage.next line text = .ok (cue?, stage')) : stage'.Fits (before ++ [l]) := by
  have hlength : (before ++ [l]).length = before.length + 1 := List.length_append
  have hempty := Line.content_eq_nil_iff htext
  have harrow := Line.hasArrow_of_decode htext
  cases stage with
  | signature =>
    rw [Stage.next] at hnext
    split at hnext <;> cases hnext
    exact hlength.trans (congrArg _ h)
  | separator =>
    have htwo : (before ++ [l]).length = 2 := hlength.trans (congrArg _ h)
    rw [Stage.next] at hnext
    split at hnext <;> cases hnext
    exact ⟨Nat.le_of_eq htwo.symm, Line.openBlock_of_length_le_two (Nat.le_of_eq htwo)⟩
  | between =>
    obtain ⟨htwo, hblock⟩ := h
    have hconcat := Line.openBlock_concat htwo l
    rw [hblock, List.nil_append] at hconcat
    rw [Stage.next] at hnext
    split at hnext
    · next hblank =>
      cases hnext
      exact .blank htwo (hempty.mpr hblank)
    · next hblank =>
      rw [if_neg (mt hempty.mp hblank)] at hconcat
      split at hnext
      · next htimings =>
        refine .timed (by omega) ?_ hnext
        simp [hconcat, Line.openingLength, harrow, htimings]
      · next htimings =>
        cases hnext
        exact ⟨by omega, l, hconcat, htext, htimings⟩
  | identified identifier =>
    obtain ⟨htwo, first, hblock, hfirst, hplain⟩ := h
    rw [Stage.next] at hnext
    split at hnext
    · next htimings =>
      have hconcat := Line.openBlock_concat htwo l
      rw [if_neg (mt hempty.mp (ne_empty_of_hasArrow htimings)), hblock] at hconcat
      refine .timed (by omega) ?_ hnext
      simp [hconcat, Line.openingLength, Line.hasArrow_of_decode hfirst, hplain]
    · cases hnext
  | collecting first cue =>
    rw [Stage.next] at hnext
    split at hnext
    · next hblank =>
      split at hnext <;> cases hnext
      exact .blank h.1 (hempty.mpr hblank)
    · next hblank =>
      cases hnext
      exact .payload h (mt hempty.mp hblank)

/-! ## Lines that keep to the limits -/

/-- What a line leads to after these that exceeds no limit. -/
def nextLine (before : List Line) (stage : Stage) (l : Line) :
    Except Violation (Option Cue × Stage) :=
  match Text.decode l.content with
  | none => .error (.invalidUtf8 (before.length + 1))
  | some text => stage.next (before.length + 1) text

theorem Fits.nextLine (h : stage.Fits before)
    (hnext : stage.nextLine before l = .ok (cue?, stage')) : stage'.Fits (before ++ [l]) := by
  unfold Stage.nextLine at hnext
  split at hnext
  · cases hnext
  · next htext => exact h.next htext hnext

/-- A timings line is refused for what it says. -/
theorem category_of_timed {identifier : String} {first : Nat} {v : Violation}
    (h : timed identifier first line text = .error v) : v.category = .format := by
  unfold timed at h
  split at h <;> cases h
  rfl

/-- A text is refused for what it says or for where it stands. -/
theorem category_of_next {v : Violation} (h : stage.next line text = .error v) :
    v.category = .parsing ∨ v.category = .format := by
  cases stage with
  | signature | separator =>
    rw [next] at h
    split at h <;> cases h
    exact .inl rfl
  | between =>
    rw [next] at h
    split at h
    · cases h
    · split at h
      · exact .inr (category_of_timed h)
      · cases h
  | identified =>
    rw [next] at h
    split at h
    · exact .inr (category_of_timed h)
    · cases h
      exact .inl rfl
  | collecting =>
    rw [next] at h
    split at h
    · split at h <;> cases h
      exact .inl rfl
    · cases h

/-- No line is refused for exceeding a limit that exceeds none. -/
theorem category_of_nextLine {v : Violation} (h : stage.nextLine before l = .error v) :
    v.category ≠ .resource := by
  unfold nextLine at h
  split at h
  · cases h
    nofun
  · rcases category_of_next h with hv | hv
    · rw [hv]
      nofun
    · rw [hv]
      nofun

/-- The end of the stream is refused for where it stands. -/
theorem category_of_finish {v : Violation} (h : stage.finish line = .error v) :
    v.category = .parsing := by
  cases stage with
  | signature | separator | between => cases h
  | identified =>
    cases h
    rfl
  | collecting =>
    rw [finish] at h
    split at h <;> cases h
    rfl

end Stage

end WebVTT
