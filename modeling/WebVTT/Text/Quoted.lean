import WebVTT.Text.Unprintable

/-!
# Quoted characters

A character in a message stands between single quotes. NUL, tab, line ends, the quote and the
backslash have short escapes; what cannot be seen on its own is named by its code point.
-/

namespace WebVTT.Text

/-- The code point of a character in lower-case hexadecimal, as in `\u{1f600}`. -/
def codePointEscape (c : Char) : List Char :=
  ['\\', 'u', '\x7b'] ++ Nat.toDigits 16 c.toNat ++ ['\x7d']

/-- A character as it is shown between quotes. -/
def escaped (c : Char) : List Char :=
  if c = '\x00' then ['\\', '0']
  else if c = '\t' then ['\\', 't']
  else if c = '\r' then ['\\', 'r']
  else if c = '\n' then ['\\', 'n']
  else if c = '\x27' then ['\\', '\x27']
  else if c = '\\' then ['\\', '\\']
  else if isOverlay c || isUnprintable c then codePointEscape c
  else [c]

/-- A character between single quotes. -/
def quoted (c : Char) : String := String.ofList ('\x27' :: escaped c ++ ['\x27'])

end WebVTT.Text
