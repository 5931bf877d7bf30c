import WebVTT.Cue.Reading
import WebVTT.Proofs.Lines.Reads

/-!
# The grammar of a cue

`CueRead limits line rs out line' rs'` says what one attempt at a cue makes of a stream of which
`line` lines have been read and `rs` is to come: it comes out as `out`, after `line'` lines in all,
and leaves `rs'`. There is a rule for the cue, one for the end of the stream, and one for every way
of going wrong, each with the line that is to blame.

The rules leave nothing out: there is an outcome for every stream (`CueRead.total`).
-/

namespace WebVTT

/-- The lines that open a block, and the identifier and the timings line among them. -/
inductive Opening : List String → String → String → Prop where
  /-- A timings line may come first. -/
  | plain {line : String} : Timings.hasArrow line → Opening [line] "" line
  /-- An identifier may come before it. -/
  | identified {identifier line : String} : identifier ≠ "" → ¬Timings.hasArrow identifier →
      Timings.hasArrow line → Opening [identifier, line] identifier line

/-- The lines that open a block whose timings line is in order, with what they say. -/
def Opens (ls : List String) (identifier : String) (timings : Timings) : Prop :=
  ∃ line, Opening ls identifier line ∧ Timings.parse line = .ok timings

/-- Lines of text are not empty. -/
def Payload (payload : List String) : Prop := ∀ text ∈ payload, text ≠ ""

/-- A block is over where the stream ends and where an empty line comes, which goes with it. -/
inductive Closing : List LineRead → Nat → List LineRead → Prop where
  | ended : Closing [] 0 []
  | blank {rs : List LineRead} : Closing (.ok "" :: rs) 1 rs

/-- The lines that can be read of a block before anything is wrong with it. -/
inductive Begun (limits : Limits) : List String → Prop where
  | nothing : Begun limits []
  | identifier {text : String} : text ≠ "" → ¬Timings.hasArrow text → Begun limits [text]
  | payload {ls payload : List String} {identifier : String} {timings : Timings} :
      Opens ls identifier timings → Payload payload →
      payload.length ≤ limits.maxPayloadLines.toNat → Begun limits (ls ++ payload)

/-- What an attempt at a cue makes of a stream. -/
inductive CueRead (limits : Limits) :
    Nat → List LineRead → Except Violation (Option Cue) → Nat → List LineRead → Prop where
  /-- Nothing is left. -/
  | ended (line : Nat) : CueRead limits line [] (.ok none) line []
  /-- Empty lines before a block are skipped. -/
  | blank {line line' : Nat} {rs rs' : List LineRead} {out : Except Violation (Option Cue)} :
      CueRead limits (line + 1) rs out line' rs' →
      CueRead limits line (.ok "" :: rs) out line' rs'
  /-- A line of the block cannot be read. -/
  | unreadable {line : Nat} {ls : List String} {f : LineFault} {rs : List LineRead} :
      Begun limits ls →
      CueRead limits line (ls.map .ok ++ .error f :: rs)
        (.error (f.violation limits (line + ls.length + 1))) (line + ls.length + f.counted) rs
  /-- The stream ends after an identifier. -/
  | unfinished {line : Nat} {identifier : String} :
      identifier ≠ "" → ¬Timings.hasArrow identifier →
      CueRead limits line [.ok identifier] (.error (.unexpectedEnd (line + 2))) (line + 1) []
  /-- No timings follow an identifier. -/
  | untimed {line : Nat} {identifier text : String} {rs : List LineRead} :
      identifier ≠ "" → ¬Timings.hasArrow identifier → ¬Timings.hasArrow text →
      CueRead limits line (.ok identifier :: .ok text :: rs) (.error (.missingTimings (line + 2)))
        (line + 2) rs
  /-- The timings are not in order. -/
  | mistimed {line : Nat} {ls : List String} {identifier text : String} {reason : TimingFault}
      {rs : List LineRead} :
      Opening ls identifier text → Timings.parse text = .error reason →
      CueRead limits line (ls.map .ok ++ rs)
        (.error (.invalidTimings (line + ls.length) reason)) (line + ls.length) rs
  /-- There are more lines of text than allowed. -/
  | overfull {line : Nat} {ls payload : List String} {identifier : String} {timings : Timings}
      {rs : List LineRead} :
      Opens ls identifier timings → Payload payload →
      payload.length = limits.maxPayloadLines.toNat + 1 →
      CueRead limits line ((ls ++ payload).map .ok ++ rs)
        (.error (.tooManyPayloadLines (line + ls.length + payload.length) limits.maxPayloadLines))
        (line + ls.length + payload.length) rs
  /-- There is no line of text. -/
  | textless {line closing : Nat} {ls : List String} {identifier : String} {timings : Timings}
      {rs rs' : List LineRead} :
      Opens ls identifier timings → Closing rs closing rs' →
      CueRead limits line (ls.map .ok ++ rs) (.error (.emptyPayload (line + 1)))
        (line + ls.length + closing) rs'
  /-- All is in order. -/
  | cue {line closing : Nat} {ls payload : List String} {identifier : String} {timings : Timings}
      {rs rs' : List LineRead} :
      Opens ls identifier timings → Payload payload → payload ≠ [] →
      payload.length ≤ limits.maxPayloadLines.toNat → Closing rs closing rs' →
      CueRead limits line ((ls ++ payload).map .ok ++ rs)
        (.ok (some ⟨identifier, timings.start, timings.stop, timings.settings, payload⟩))
        (line + ls.length + payload.length + closing) rs'

/-! ## Openings -/

/-- A line with an arrow is not empty. -/
theorem ne_empty_of_hasArrow {line : String} (h : Timings.hasArrow line) : line ≠ "" := by
  rintro rfl
  exact absurd h (by decide)

/-- An opening begins with a line that is not empty. -/
theorem Opening.exists_cons {ls : List String} {identifier line : String}
    (h : Opening ls identifier line) : ∃ first more, ls = first :: more ∧ first ≠ "" := by
  cases h with
  | plain harrow => exact ⟨line, [], rfl, ne_empty_of_hasArrow harrow⟩
  | identified hne => exact ⟨identifier, [line], rfl, hne⟩

/-- No line of an opening is empty. -/
theorem Opening.payload {ls : List String} {identifier line : String}
    (h : Opening ls identifier line) : Payload ls := by
  cases h with
  | plain harrow => simpa [Payload] using ne_empty_of_hasArrow harrow
  | identified hne _ harrow => simpa [Payload] using ⟨hne, ne_empty_of_hasArrow harrow⟩

/-- An opening has lines. -/
theorem Opens.length_pos {ls : List String} {identifier : String} {timings : Timings}
    (h : Opens ls identifier timings) : 0 < ls.length := by
  obtain ⟨first, more, rfl, -⟩ := h.choose_spec.1.exists_cons
  exact Nat.succ_pos _

/-- No line that opens a block is empty. -/
theorem Opens.payload {ls : List String} {identifier : String} {timings : Timings}
    (h : Opens ls identifier timings) : Payload ls := h.choose_spec.1.payload

theorem Payload.append {ls payload : List String} (h : Payload ls) (hpayload : Payload payload) :
    Payload (ls ++ payload) := fun text htext ↦
  (List.mem_append.mp htext).elim (h text) (hpayload text)

/-- Only one identifier and one timings line open a block. -/
theorem Opening.unique {ls ls' more more' : List String} {identifier identifier' line line' : String}
    (h : Opening ls identifier line) (h' : Opening ls' identifier' line')
    (hmore : ls ++ more = ls' ++ more') :
    ls = ls' ∧ identifier = identifier' ∧ line = line' ∧ more = more' := by
  cases h <;> cases h' <;> simp_all

/-! ## Every stream has an outcome -/

/-- The lines of text of a block go up to a line too many, to its end, or to a line that cannot be
read. -/
theorem exists_payload (limit : Nat) (rs : List LineRead) :
    ∃ payload rest, rs = payload.map .ok ++ rest ∧ Payload payload ∧
      (payload.length = limit + 1 ∨ payload.length ≤ limit ∧
        ((∃ closing rs', Closing rest closing rs') ∨ ∃ f rs', rest = .error f :: rs')) := by
  induction rs generalizing limit with
  | nil => exact ⟨[], [], rfl, by simp [Payload], .inr ⟨Nat.zero_le _, .inl ⟨_, _, .ended⟩⟩⟩
  | cons r rs ih =>
    cases r with
    | error f =>
      exact ⟨[], _, rfl, by simp [Payload], .inr ⟨Nat.zero_le _, .inr ⟨f, rs, rfl⟩⟩⟩
    | ok text =>
      by_cases htext : text = ""
      · subst htext
        exact ⟨[], _, rfl, by simp [Payload], .inr ⟨Nat.zero_le _, .inl ⟨_, _, .blank⟩⟩⟩
      cases limit with
      | zero => exact ⟨[text], rs, rfl, by simpa [Payload] using htext, .inl rfl⟩
      | succ limit =>
        obtain ⟨payload, rest, rfl, hpayload, hend⟩ := ih limit
        refine ⟨text :: payload, rest, rfl, by simpa [Payload] using ⟨htext, hpayload⟩, ?_⟩
        simpa using hend

/-- An opened block has an outcome. -/
theorem CueRead.exists_of_opening {limits : Limits} {ls : List String} {identifier text : String}
    (h : Opening ls identifier text) (line : Nat) (rs : List LineRead) :
    ∃ out line' rs', CueRead limits line (ls.map .ok ++ rs) out line' rs' := by
  cases hparse : Timings.parse text with
  | error reason => exact ⟨_, _, _, .mistimed h hparse⟩
  | ok timings =>
    have hopens : Opens ls identifier timings := ⟨text, h, hparse⟩
    obtain ⟨payload, rest, rfl, hpayload, hlength | ⟨hlength, ⟨closing, rs', hclosing⟩ | hfault⟩⟩ :=
      exists_payload limits.maxPayloadLines.toNat rs
    · rw [← List.append_assoc, ← List.map_append]
      exact ⟨_, _, _, .overfull hopens hpayload hlength⟩
    · by_cases hne : payload = []
      · subst hne
        exact ⟨_, _, _, .textless hopens hclosing⟩
      · rw [← List.append_assoc, ← List.map_append]
        exact ⟨_, _, _, .cue hopens hpayload hne hlength hclosing⟩
    · obtain ⟨f, rs', rfl⟩ := hfault
      rw [← List.append_assoc, ← List.map_append]
      exact ⟨_, _, _, .unreadable (.payload hopens hpayload hlength)⟩

/-- Every attempt at a cue has an outcome. -/
theorem CueRead.total (limits : Limits) (line : Nat) (rs : List LineRead) :
    ∃ out line' rs', CueRead limits line rs out line' rs' := by
  induction rs generalizing line with
  | nil => exact ⟨_, _, _, .ended line⟩
  | cons r rs ih =>
    cases r with
    | error f => exact ⟨_, _, _, .unreadable .nothing⟩
    | ok first =>
      by_cases hfirst : first = ""
      · subst hfirst
        obtain ⟨out, line', rs', h⟩ := ih (line + 1)
        exact ⟨out, line', rs', .blank h⟩
      by_cases harrow : Timings.hasArrow first
      · exact CueRead.exists_of_opening (.plain harrow) line rs
      cases rs with
      | nil => exact ⟨_, _, _, .unfinished hfirst harrow⟩
      | cons r rs =>
        cases r with
        | error f => exact ⟨_, _, _, .unreadable (.identifier hfirst harrow)⟩
        | ok second =>
          by_cases hsecond : Timings.hasArrow second
          · exact CueRead.exists_of_opening (.identified hfirst harrow hsecond) line rs
          · exact ⟨_, _, _, .untimed hfirst harrow hsecond⟩

end WebVTT
