import WebVTT.Cue.Reading
import WebVTT.Header.Reading

/-!
# Sessions

A session reads one stream: first the header, once, and then cues, one at a time. A header that is
refused makes the session useless. A cue that is refused does not: the next call reads on from where
the error struck.

Calls out of order are refused as well, and change nothing. Every other call leaves a notice of how
it came out.
-/

namespace WebVTT

/-- How far a session has come. -/
inductive Phase where
  /-- The header has not been read. -/
  | atHeader
  /-- The header has been read, and cues follow. -/
  | atCues
  /-- The header was refused. -/
  | rejected
deriving DecidableEq, Repr

/-- A stream being read, and how far. -/
structure Session (σ : Type) where
  /-- The stream from here on. -/
  stream : LineStream σ
  /-- How far the session has come. -/
  phase : Phase := .atHeader

/-- What became of a record that was to hold the next cue. -/
inductive Status where
  /-- It holds the next cue. -/
  | cue
  /-- There is no cue left, and it holds what it held before. -/
  | endOfStream
deriving DecidableEq, Repr

namespace Session

variable {σ : Type} [Source σ]

/-- Start reading a source. -/
def ofSource (source : σ) (limits : Limits := {}) : Session σ := { stream := { source, limits } }

/-- The number of lines read so far. -/
def line (s : Session σ) : Nat := s.stream.line

/-- The limits in force. -/
def limits (s : Session σ) : Limits := s.stream.limits

/-- The notices left so far, the oldest first. -/
def notices (s : Session σ) : Array Notice := s.stream.notices

/-- Give up the session and have the source back, wherever reading has got to. -/
def source (s : Session σ) : σ := s.stream.source

/-! ## Header -/

/-- Read the header. -/
def readHeader : EStateM Error (Session σ) Header := fun s ↦
  match s.phase with
  | .atCues => .error (.violation .headerAlreadyRead) s
  | .rejected => .error (.violation .headerRejected) s
  | .atHeader =>
    match LineStream.readHeader s.stream with
    | .ok header t => .ok header { stream := t.note (.headerAccepted header), phase := .atCues }
    | .error e t => .error e { stream := t.note (.headerRejected t.line e), phase := .rejected }

/-! ## Cues -/

/-- Read the next cue, if there is one left. -/
def nextCue : EStateM Error (Session σ) (Option Cue) := fun s ↦
  match s.phase with
  | .atHeader => .error (.violation .headerUnread) s
  | .rejected => .error (.violation .headerRejected) s
  | .atCues =>
    match LineStream.readCue s.stream with
    | .ok (some cue) t => .ok (some cue) { s with stream := t.note (.cueRead t.line cue) }
    | .ok none t => .ok none { s with stream := t.note (.streamEnded t.line) }
    | .error e t => .error e { s with stream := t.note (.cueRejected t.line e) }

/-- Read the next cue into a record, which is left alone unless there is a cue. -/
def fillRecord : EStateM Error (Session σ × Cue) Status := fun (s, record) ↦
  match nextCue s with
  | .ok (some cue) t => .ok .cue (t, cue)
  | .ok none t => .ok .endOfStream (t, record)
  | .error e t => .error e (t, record)

/-- Read so many cues or errors at most, going on after errors. Reading stops early at the end of
the stream, and after an error that says that the call itself was out of order. -/
def drain : Nat → Session σ → List (Except Error Cue) × Session σ
  | 0, s => ([], s)
  | count + 1, s =>
    match nextCue s with
    | .ok none t => ([], t)
    | .ok (some cue) t =>
      let (results, u) := drain count t
      (.ok cue :: results, u)
    | .error e t =>
      if e.category = .usage then
        ([.error e], t)
      else
        let (results, u) := drain count t
        (.error e :: results, u)

/-- A cue that is read takes a byte at least. -/
theorem unread_lt_of_nextCue {s t : Session σ} {cue : Cue} (h : nextCue s = .ok (some cue) t) :
    t.stream.unread < s.stream.unread := by
  unfold nextCue at h
  split at h
  · cases h
  · cases h
  · split at h
    · next hcue =>
      have hlt := LineStream.unread_lt_of_readCue hcue
      cases h
      exact hlt
    · cases h
    · cases h

end Session

end WebVTT
