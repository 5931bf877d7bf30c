/-!
# Writing JSON

JSON is written without blanks. A string has escapes only where it must: for quotes, backslashes and
control characters.
-/

namespace WebVTT.Json

/-- A character as it is written in a string. -/
def escaped (c : Char) : List Char :=
  if c = '\x22' then ['\\', '\x22']
  else if c = '\\' then ['\\', '\\']
  else if c = '\x08' then ['\\', 'b']
  else if c = '\x0c' then ['\\', 'f']
  else if c = '\n' then ['\\', 'n']
  else if c = '\r' then ['\\', 'r']
  else if c = '\t' then ['\\', 't']
  else if c.toNat < 0x20 then
    ['\\', 'u', '0', '0', Nat.digitChar (c.toNat / 16), Nat.digitChar (c.toNat % 16)]
  else [c]

/-- A string. -/
def string (text : String) : String :=
  String.ofList ('\x22' :: text.toList.flatMap escaped ++ ['\x22'])

/-- A truth value. -/
def bool (b : Bool) : String := if b then "true" else "false"

/-- An array of values that are written already. -/
def array (items : List String) : String := "[" ++ ",".intercalate items ++ "]"

/-- An object whose values are written already. -/
def object (members : List (String × String)) : String :=
  "\x7b" ++ ",".intercalate (members.map fun (key, value) ↦ string key ++ ":" ++ value) ++ "\x7d"

end WebVTT.Json
