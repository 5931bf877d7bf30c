/-!
# Limits

A stream that is not trusted is read under limits on the length of a line and on the number of text
lines of a cue. Neither bounds the stream as a whole.
-/

namespace WebVTT

/-- Bounds on what is held in memory while a cue is read. -/
structure Limits where
  /-- The most bytes a line may have, its terminator aside. -/
  maxLineLength : UInt64 := 65536
  /-- The most lines of text a cue may have. -/
  maxPayloadLines : UInt64 := 4096
deriving DecidableEq, Repr, Inhabited

/-- Bounds that no stream reaches. -/
def Limits.unlimited : Limits :=
  { maxLineLength := 18446744073709551615, maxPayloadLines := 18446744073709551615 }

end WebVTT
