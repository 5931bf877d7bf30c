import WebVTT.Timings.Fault

/-!
# What can be wrong with a stream

A `Violation` is a stream that is not WebVTT, that exceeds a limit, or that is asked for out of
order. Lines are counted from one.
-/

namespace WebVTT

/-- The reason why a header or a cue is refused. -/
inductive Violation where
  /-- The stream ends where a line is due. -/
  | unexpectedEnd (line : Nat)
  /-- The stream begins like a byte order mark and goes on differently. -/
  | incompleteBom
  /-- The stream does not begin with the signature. -/
  | missingSignature
  /-- Something other than a blank follows the signature. -/
  | invalidSignatureLine (line : Nat)
  /-- The line after the signature is not empty. -/
  | missingHeaderSeparator (line : Nat)
  /-- The line after an identifier has no arrow. -/
  | missingTimings (line : Nat)
  /-- A timings line is refused. -/
  | invalidTimings (line : Nat) (reason : TimingFault)
  /-- A cue that begins on this line has no text. -/
  | emptyPayload (line : Nat)
  /-- A line is not UTF-8. -/
  | invalidUtf8 (line : Nat)
  /-- A line is longer than allowed. -/
  | lineTooLong (line : Nat) (limit : UInt64)
  /-- A cue has more lines of text than allowed. -/
  | tooManyPayloadLines (line : Nat) (limit : UInt64)
  /-- Cues are asked for before the header. -/
  | headerUnread
  /-- The header is asked for again. -/
  | headerAlreadyRead
  /-- Anything is asked for after the header was refused. -/
  | headerRejected
deriving DecidableEq, Repr

namespace Violation

/-- The line that a violation points to. -/
def line? : Violation → Option Nat
  | unexpectedEnd line | invalidSignatureLine line | missingHeaderSeparator line
  | missingTimings line | invalidTimings line _ | emptyPayload line | invalidUtf8 line
  | lineTooLong line _ | tooManyPayloadLines line _ => some line
  | incompleteBom | missingSignature | headerUnread | headerAlreadyRead | headerRejected => none

/-- The violation in words. -/
def message : Violation → String
  | unexpectedEnd line => "unexpected end of stream at line " ++ line.repr
  | incompleteBom => "incomplete UTF-8 byte order mark"
  | missingSignature => "missing WEBVTT signature"
  | invalidSignatureLine line => "unexpected text after WEBVTT signature at line " ++ line.repr
  | missingHeaderSeparator line => "expected blank line after header at line " ++ line.repr
  | missingTimings line => "expected cue timings at line " ++ line.repr
  | invalidTimings line reason =>
    "invalid cue timings at line " ++ line.repr ++ ": " ++ reason.message
  | emptyPayload line => "cue starting at line " ++ line.repr ++ " has no payload"
  | invalidUtf8 line => "line " ++ line.repr ++ " is not valid UTF-8"
  | lineTooLong line limit =>
    "line " ++ line.repr ++ " exceeds the " ++ limit.toNat.repr ++ " byte line limit"
  | tooManyPayloadLines line limit =>
    "cue payload at line " ++ line.repr ++ " exceeds the " ++ limit.toNat.repr ++ " line limit"
  | headerUnread => "cues requested before the WebVTT header was read"
  | headerAlreadyRead => "WebVTT header has already been read"
  | headerRejected => "WebVTT header was rejected"

end Violation

end WebVTT
