import WebVTT.Text.Quoted

/-!
# What can be wrong with timings

A `TimingFault` is the reason why a timestamp, or a line with two of them and cue settings, is
refused.
-/

namespace WebVTT

/-- The parts of a timestamp that have a range. -/
inductive TimeComponent where
  | minutes
  | seconds
deriving DecidableEq, Repr

/-- The name of the part in messages. -/
def TimeComponent.name : TimeComponent → String
  | minutes => "minutes"
  | seconds => "seconds"

/-- The reason why a timestamp or a timings line is refused. -/
inductive TimingFault where
  /-- No arrow stands between two times. -/
  | missingArrow
  /-- A number begins with something other than a digit. -/
  | expectedDigit
  /-- A number is above the limit for numbers. -/
  | numberOverflow
  /-- Minutes or seconds are 60 or more. -/
  | outOfRange (component : TimeComponent) (value : UInt32)
  /-- More than three digits follow the point. -/
  | fractionTooLong
  /-- Something follows a timestamp that cannot. -/
  | trailingCharacter (found : Char)
  /-- Something other than blanks stands between the start time and the arrow. -/
  | junkBeforeArrow
  /-- A setting has no colon. -/
  | unterminatedSettingName
  /-- A setting begins with its colon. -/
  | emptySettingName
  /-- A setting ends with its colon. -/
  | emptySettingValue
  /-- A setting has more than one colon. -/
  | colonInSettingValue
deriving DecidableEq, Repr

/-- The fault in words. -/
def TimingFault.message : TimingFault → String
  | missingArrow => "missing '-->' arrow"
  | expectedDigit => "expected a digit"
  | numberOverflow => "number is too large"
  | outOfRange component value =>
    component.name ++ " value " ++ value.toNat.repr ++ " is out of range"
  | fractionTooLong => "fractional seconds have more than three digits"
  | trailingCharacter found => "unexpected character " ++ Text.quoted found ++ " after timestamp"
  | junkBeforeArrow => "unexpected text between start time and arrow"
  | unterminatedSettingName => "cue setting name is not followed by ':'"
  | emptySettingName => "cue setting name is empty"
  | emptySettingValue => "cue setting value is empty"
  | colonInSettingValue => "cue setting value contains ':'"

end WebVTT
