/-!
# Tokens of JSON

A JSON text is cut into tokens in one pass over its characters: six marks, strings, and words, which
are the runs of characters between blanks, marks and strings. A word has to be `null`, `true`,
`false` or a number.

A string may name characters by UTF-16 units, and units may fail to pair up. Such a string is still a
token; it only has no text. A number that is not a natural number written plainly is a token
too, without its value.
-/

namespace WebVTT.Json

/-- A value that holds no other value. -/
inductive Scalar where
  | null
  | bool (value : Bool)
  /-- A natural number written as digits alone. -/
  | natural (value : Nat)
  /-- Any other number. -/
  | otherNumber
  /-- A string, with its text unless its escapes make none. -/
  | string (text? : Option String)
deriving DecidableEq, Repr

/-- The smallest part of a JSON text that has a meaning. -/
inductive Token where
  | leftBrace
  | rightBrace
  | leftBracket
  | rightBracket
  | colon
  | comma
  | scalar (value : Scalar)
deriving DecidableEq, Repr

namespace Token

/-- Whether a character separates tokens and means nothing. -/
def isSpace (c : Char) : Bool := c = ' ' || c = '\t' || c = '\n' || c = '\r'

/-- The token that a character stands for on its own. -/
def mark? (c : Char) : Option Token :=
  if c = '\x7b' then some leftBrace
  else if c = '\x7d' then some rightBrace
  else if c = '[' then some leftBracket
  else if c = ']' then some rightBracket
  else if c = ':' then some colon
  else if c = ',' then some comma
  else none

/-! ## Strings -/

/-- The quote around a string. -/
def quote : Char := '\x22'

/-- What a string is made of. -/
inductive Piece where
  /-- A character, as it is or by a short escape. -/
  | char (value : Char)
  /-- A UTF-16 unit, by its number. -/
  | unit (value : Nat)
deriving DecidableEq, Repr

/-- The character that a pair of surrogates stands for. -/
def pairChar (lead trail : Nat) : Char :=
  Char.ofNat (0x10000 + (lead - 0xD800) * 0x400 + (trail - 0xDC00))

/-- The text of a string, given the text before. A leading surrogate has to be followed by a
trailing one, and a trailing one has to follow a leading one. -/
def textAfter? (text : String) : List Piece → Option String
  | [] => some text
  | .char c :: rest => textAfter? (text.push c) rest
  | .unit lead :: .unit trail :: rest =>
    if 0xD800 ≤ lead ∧ lead < 0xDC00 then
      if 0xDC00 ≤ trail ∧ trail < 0xE000 then textAfter? (text.push (pairChar lead trail)) rest
      else none
    else if 0xDC00 ≤ lead ∧ lead < 0xE000 then none
    else textAfter? (text.push (Char.ofNat lead)) (.unit trail :: rest)
  | .unit value :: rest =>
    if 0xD800 ≤ value ∧ value < 0xE000 then none
    else textAfter? (text.push (Char.ofNat value)) rest

/-- The character of a short escape, which a backslash sets off. -/
def escape? (c : Char) : Option Char :=
  if c = quote ∨ c = '\\' ∨ c = '/' then some c
  else if c = 'b' then some '\x08'
  else if c = 'f' then some '\x0c'
  else if c = 'n' then some '\n'
  else if c = 'r' then some '\r'
  else if c = 't' then some '\t'
  else none

/-- The value of a hexadecimal digit. -/
def hexValue? (c : Char) : Option Nat :=
  if c.isDigit then some (c.toNat - '0'.toNat)
  else if 'a' ≤ c ∧ c ≤ 'f' then some (c.toNat - 'a'.toNat + 10)
  else if 'A' ≤ c ∧ c ≤ 'F' then some (c.toNat - 'A'.toNat + 10)
  else none

/-! ## Words -/

/-- What is left after an exponent, if the text begins with one or with nothing of the kind. -/
def dropExponent? : List Char → Option (List Char)
  | [] => some []
  | mark :: rest =>
    if mark = 'e' ∨ mark = 'E' then
      let digits := if rest.head? = some '+' ∨ rest.head? = some '-' then rest.tail else rest
      if digits.head?.any Char.isDigit then some (digits.dropWhile Char.isDigit) else none
    else
      some (mark :: rest)

/-- What is left after a fraction, if the text begins with one or with nothing of the kind. -/
def dropFraction? : List Char → Option (List Char)
  | '.' :: rest => if rest.head?.any Char.isDigit then some (rest.dropWhile Char.isDigit) else none
  | rest => some rest

/-- The number that a word spells. It has no sign but a minus, and no zero in front. -/
def number? (word : List Char) : Option Scalar := do
  let unsigned := if word.head? = some '-' then word.tail else word
  let digits := unsigned.takeWhile Char.isDigit
  if digits.isEmpty ∨ (digits.head? = some '0' ∧ digits ≠ ['0']) then
    none
  else if digits = word then
    some (.natural (Nat.ofDigitChars 10 digits 0))
  else
    let left ← dropFraction? (unsigned.dropWhile Char.isDigit) >>= dropExponent?
    if left.isEmpty then some .otherNumber else none

/-- The scalar that a word spells. -/
def ofWord? (word : List Char) : Option Scalar :=
  if word = ['n', 'u', 'l', 'l'] then some .null
  else if word = ['t', 'r', 'u', 'e'] then some (.bool true)
  else if word = ['f', 'a', 'l', 's', 'e'] then some (.bool false)
  else number? word

/-! ## Cutting a text -/

/-- What the characters read so far leave open. -/
inductive Lexing where
  /-- Nothing. -/
  | idle
  /-- A word. -/
  | word (characters : Array Char)
  /-- A string. -/
  | string (pieces : Array Piece)
  /-- A string with a backslash at its end. -/
  | escape (pieces : Array Piece)
  /-- A string with so many digits of a unit at its end. -/
  | unit (pieces : Array Piece) (value : Nat) (digits : Nat)

/-- Go on with a character that begins something new, given the tokens before. -/
def begin (found : Array Token) (c : Char) : Lexing × Array Token :=
  if isSpace c then (.idle, found)
  else if c = quote then (.string #[], found)
  else
    match mark? c with
    | some token => (.idle, found.push token)
    | none => (.word #[c], found)

/-- Go on with a character. -/
def advance : Lexing × Array Token → Char → Option (Lexing × Array Token)
  | (.idle, found), c => some (begin found c)
  | (.word characters, found), c =>
    if isSpace c || c = quote || (mark? c).isSome then do
      let value ← ofWord? characters.toList
      return begin (found.push (.scalar value)) c
    else
      some (.word (characters.push c), found)
  | (.string pieces, found), c =>
    if c = quote then
      some (.idle, found.push (.scalar (.string (textAfter? "" pieces.toList))))
    else if c = '\\' then some (.escape pieces, found)
    else if c.toNat < 0x20 then none
    else some (.string (pieces.push (.char c)), found)
  | (.escape pieces, found), c =>
    if c = 'u' then
      some (.unit pieces 0 0, found)
    else do
      let escaped ← escape? c
      return (.string (pieces.push (.char escaped)), found)
  | (.unit pieces value digits, found), c => do
    let extended := value * 16 + (← hexValue? c)
    if digits = 3 then
      return (.string (pieces.push (.unit extended)), found)
    else
      return (.unit pieces extended (digits + 1), found)

/-- The tokens of a text, if it can be cut into any. -/
def ofText? (text : String) : Option (List Token) := do
  match ← text.toList.foldlM advance (.idle, #[]) with
  | (.idle, found) => return found.toList
  | (.word characters, found) =>
    let value ← ofWord? characters.toList
    return (found.push (.scalar value)).toList
  | (.string _, _) | (.escape _, _) | (.unit .., _) => none

end Token

end WebVTT.Json
