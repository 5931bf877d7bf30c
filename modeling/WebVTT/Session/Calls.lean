import WebVTT.Session.Cues

/-!
# Calls in any order

Whoever holds a session may call it in any order: ask for the header, for a cue, for a cue in a
record of theirs, begin a walk over the cues and take steps of it. `Cues.run` makes a list of calls
one after the other, whatever they answer, and gives with each answer the number of lines read by
then.
-/

namespace WebVTT

/-- A call to a session, or to the walk over its cues begun last. -/
inductive Call where
  /-- Ask for the header. -/
  | readHeader
  /-- Ask for the next cue. -/
  | nextCue
  /-- Ask for the next cue in a record that holds this one so far. -/
  | fillRecord (record : Cue)
  /-- Begin a walk over the cues. -/
  | cues
  /-- Take a step of the walk. -/
  | step
deriving DecidableEq, Repr

/-- What a call is answered with. -/
inductive Answer where
  /-- The header, or why there is none. -/
  | header (result : Except Error Header)
  /-- The next cue, if there is one left, or why it cannot be had. -/
  | cue (result : Except Error (Option Cue))
  /-- What became of a record, and what it holds now. -/
  | record (result : Except Error Status) (record : Cue)
  /-- A walk has begun. -/
  | begun
  /-- What a step of the walk yields. -/
  | yielded (result : Option (Except Error Cue))

/-- Whether a call was answered without an error. -/
def Answer.isOk : Answer → Bool
  | header result => result.toBool
  | cue result => result.toBool
  | record result _ => result.toBool
  | begun => true
  | yielded none => true
  | yielded (some result) => result.toBool

namespace Cues

variable {σ : Type} [Source σ]

/-- Answer a call. -/
def answer (c : Cues σ) : Call → Answer × Cues σ
  | .readHeader =>
    match c.session.readHeader with
    | .ok header s => (.header (.ok header), { c with session := s })
    | .error e s => (.header (.error e), { c with session := s })
  | .nextCue =>
    match c.session.nextCue with
    | .ok cue? s => (.cue (.ok cue?), { c with session := s })
    | .error e s => (.cue (.error e), { c with session := s })
  | .fillRecord record =>
    match Session.fillRecord (c.session, record) with
    | .ok status (s, record) => (.record (.ok status) record, { c with session := s })
    | .error e (s, record) => (.record (.error e) record, { c with session := s })
  | .cues => (.begun, { c with finished := false })
  | .step => (.yielded c.next.1, c.next.2)

/-- Make these calls one after the other, and give the answer to each and the number of lines read
by then. -/
def run : List Call → Cues σ → List (Answer × Nat) × Cues σ
  | [], c => ([], c)
  | call :: calls, c =>
    let (answer, d) := c.answer call
    let (answers, last) := run calls d
    ((answer, d.session.line) :: answers, last)

end Cues

/-- Make these calls to a session that starts reading a source. -/
def Session.run {σ : Type} [Source σ] (source : σ) (limits : Limits) (calls : List Call) :
    List (Answer × Nat) × Session σ :=
  let (answers, last) := Cues.run calls { session := ofSource source limits }
  (answers, last.session)

end WebVTT
