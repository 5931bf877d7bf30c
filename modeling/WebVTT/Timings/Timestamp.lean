import WebVTT.Time.Basic
import WebVTT.Timings.Scan

/-!
# Timestamps

A timestamp is `SS`, `MM:SS` or `HH:MM:SS`, with a fraction of a second of up to three digits after
a point. Seconds on their own have no range, and become hours, minutes and seconds; in the other
forms every group but the hours is below 60.
-/

namespace WebVTT

namespace Scan

/-- Take hours, minutes and seconds in any of the three forms. -/
def clock : Scan (UInt32 × UInt32 × UInt32) := do
  let first ← number
  if ← accept ':' then
    let second ← number
    let hasHours ← accept ':'
    if 60 ≤ second then
      throw (.outOfRange (if hasHours then .minutes else .seconds) second)
    else if hasHours then
      let third ← number
      if 60 ≤ third then
        throw (.outOfRange .seconds third)
      else
        return (first, second, third)
    else if 60 ≤ first then
      throw (.outOfRange .minutes first)
    else
      return (0, first, second)
  else
    return (first / 3600, first / 60 % 60, first % 60)

/-- Take a point and tenths, hundredths or thousandths of a second, in milliseconds; none where
there is no point. -/
def fraction : Scan UInt32 := do
  if ← accept '.' then
    let places := ((← get).takeWhile Char.isDigit).length
    let value ← number
    match places with
    | 1 => return value * 100
    | 2 => return value * 10
    | 3 => return value
    | _ => throw .fractionTooLong
  else
    return 0

/-- Take a timestamp and the blanks before it. It ends at a blank or with the text. -/
def timestamp : Scan Time := do
  blanks
  let (hours, minutes, seconds) ← clock
  let milliseconds ← fraction
  match ← get with
  | [] => return { hours, minutes, seconds, milliseconds }
  | c :: _ =>
    if isBlank c then
      return { hours, minutes, seconds, milliseconds }
    else
      throw (.trailingCharacter c)

/-- Take a timestamp and the blanks around it, and find nothing after them. -/
def loneTimestamp : Scan Time := do
  let time ← timestamp
  blanks
  match ← get with
  | [] => return time
  | c :: _ => throw (.trailingCharacter c)

end Scan

/-- The time that a text denotes, blanks around it aside. -/
def Time.parse (text : String) : Except TimingFault Time := Scan.loneTimestamp.of text.toList

end WebVTT
