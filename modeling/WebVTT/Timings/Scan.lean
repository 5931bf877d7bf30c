import WebVTT.Timings.Fault

/-!
# Scanning a stretch of text

A `Scan` takes characters off the front of a stretch of text. It cannot run past the end of the
stretch, and a fault leaves it where the fault was found.

Numbers are runs of ASCII digits of any length. Those above `numberLimit` are refused, however many
zeros a number begins with.
-/

namespace WebVTT

/-- A step over the text not scanned yet. -/
abbrev Scan (α : Type) : Type := EStateM TimingFault (List Char) α

/-- Whether a character separates the tokens of a line. -/
def isBlank (c : Char) : Bool := c = ' ' || c = '\t'

namespace Scan

/-- What a scan makes of a text, whatever it leaves over. -/
def of {α : Type} (scan : Scan α) (text : List Char) : Except TimingFault α :=
  match scan text with
  | .ok a _ => .ok a
  | .error fault _ => .error fault

/-- Skip spaces and tabs. -/
def blanks : Scan Unit := modify (List.dropWhile isBlank)

/-- Take a character if it is the next one, and tell whether it was. -/
def accept (expected : Char) : Scan Bool
  | [] => .ok false []
  | c :: rest => if c = expected then .ok true rest else .ok false (c :: rest)

/-! ## Numbers -/

/-- The largest number there is in a timestamp. -/
def numberLimit : UInt64 := 2147483647

/-- The value of a decimal digit. -/
def digitValue (c : Char) : UInt64 := UInt64.ofNat (c.toNat - '0'.toNat)

/-- Take all digits that follow, given the value of those before. -/
def digitsAfter (value : UInt64) : Scan UInt64
  | [] => .ok value []
  | c :: rest =>
    if c.isDigit then
      let extended := value * 10 + digitValue c
      if numberLimit < extended then .error .numberOverflow (c :: rest)
      else digitsAfter extended rest
    else
      .ok value (c :: rest)

/-- Take a number: one digit or more. -/
def number : Scan UInt32 := do
  if (← get).head?.any Char.isDigit then
    let value ← digitsAfter 0
    if value < 4294967296 then
      return value.toUInt32
    else
      throw .numberOverflow
  else
    throw .expectedDigit

end Scan

end WebVTT
