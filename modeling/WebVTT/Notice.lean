import WebVTT.Document.Parts
import WebVTT.Error.Basic
import WebVTT.Time.Display

/-!
# Notices

Whoever reads a stream leaves a notice of every line completed and of how every header and cue came
out. Lines are numbered as they are completed. Refusals and the header matter more than the rest.

A notice is passed on as its words and its fields, each with a name.
-/

namespace WebVTT

/-- Something that happened while a stream was read. -/
inductive Notice where
  /-- A line of so many bytes was completed. -/
  | lineRead (line : Nat) (length : Nat)
  /-- The header was read. -/
  | headerAccepted (header : Header)
  /-- The header was refused after so many lines. -/
  | headerRejected (line : Nat) (error : Error)
  /-- A cue was read, its last line being this one. -/
  | cueRead (line : Nat) (cue : Cue)
  /-- No cue was left after so many lines. -/
  | streamEnded (line : Nat)
  /-- A cue was refused after so many lines. -/
  | cueRejected (line : Nat) (error : Error)
deriving DecidableEq, Repr

namespace Notice

/-- How closely one has to look to be told of something. -/
inductive Level where
  | debug
  | trace
deriving DecidableEq, Repr

/-- The level of a notice. -/
def level : Notice → Level
  | headerAccepted _ | headerRejected .. | cueRejected .. => .debug
  | lineRead .. | cueRead .. | streamEnded _ => .trace

/-- A notice in words. -/
def message : Notice → String
  | lineRead .. => "read line"
  | headerAccepted _ => "accepted WebVTT header"
  | headerRejected .. => "rejected WebVTT header"
  | cueRead .. => "parsed cue"
  | streamEnded _ => "end of stream"
  | cueRejected .. => "rejected cue"

/-- What a field of a notice holds. -/
inductive Value where
  | number (value : Nat)
  | text (value : String)
  | flag (value : Bool)
deriving DecidableEq, Repr

/-- The fields of a notice. -/
def fields : Notice → List (String × Value)
  | lineRead line length => [("line", .number line), ("len", .number length)]
  | headerAccepted header =>
    [("has_bom", .flag header.hasBom), ("description", .text header.description)]
  | headerRejected line error | cueRejected line error =>
    [("line", .number line), ("error", .text error.message)]
  | cueRead line cue =>
    [("line", .number line), ("identifier", .text cue.identifier),
      ("start", .text cue.start.display), ("stop", .text cue.stop.display),
      ("settings", .number cue.settings.length), ("payload", .number cue.payload.length)]
  | streamEnded line => [("line", .number line)]

end Notice

end WebVTT
