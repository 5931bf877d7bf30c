import WebVTT.Timings.Settings
import WebVTT.Timings.Timestamp

/-!
# Timings lines

A timings line is `START --> STOP` and settings. The first arrow counts: what stands before it is
the start time, with blanks around it at most, and what stands after it is the stop time, followed
by settings.
-/

namespace WebVTT

/-- What a timings line says. -/
structure Timings where
  /-- When the cue appears. -/
  start : Time
  /-- When the cue goes. -/
  stop : Time
  /-- The settings of the cue, in order. -/
  settings : List Setting
deriving DecidableEq, Repr

namespace Timings

/-! ## Arrows -/

/-- The characters on either side of the first arrow, given those passed before, last one first. -/
def splitArrow (passed : List Char) : List Char → Option (List Char × List Char)
  | '-' :: '-' :: '>' :: rest => some (passed.reverse, rest)
  | c :: rest => splitArrow (c :: passed) rest
  | [] => none

/-- Whether a line holds an arrow, which tells timings from an identifier. -/
def hasArrow (line : String) : Bool := (splitArrow [] line.toList).isSome

/-! ## Lines -/

/-- Take the part of a line before the arrow. -/
def scanHead : Scan Time := do
  let start ← Scan.timestamp
  Scan.blanks
  if (← get).isEmpty then return start else throw .junkBeforeArrow

/-- Take the part of a line after the arrow. -/
def scanTail : Scan (Time × List Setting) := do
  let stop ← Scan.timestamp
  let settings ← Scan.settings
  return (stop, settings)

/-- The timings that a line gives. -/
def parse (line : String) : Except TimingFault Timings :=
  match splitArrow [] line.toList with
  | none => .error .missingArrow
  | some (head, tail) => do
    let start ← scanHead.of head
    let (stop, settings) ← scanTail.of tail
    return { start, stop, settings }

end Timings

end WebVTT
