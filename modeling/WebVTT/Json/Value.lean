import WebVTT.Json.Token

/-!
# JSON values

A value is built from tokens one at a time, with the containers it stands in kept aside, so
values may be nested to any depth. Members of an object stay as written: in order, with repeated
keys.
-/

namespace WebVTT.Json

/-- A JSON value. -/
inductive Value where
  | scalar (value : Scalar)
  | array (items : List Value)
  /-- Keys with their values; a key has no text if its escapes make none. -/
  | object (members : List (Option String × Value))

namespace Value

/-- A container that a value stands in, and what it holds before that value. -/
inductive Frame where
  | array (items : Array Value)
  | object (members : Array (Option String × Value)) (key : Option String)

/-- What may come next, and the containers around it, innermost first. -/
inductive Building where
  /-- A value. -/
  | value (around : List Frame)
  /-- A value, or the end of an array that has just begun. -/
  | item (around : List Frame)
  /-- A key, or the end of an object that has just begun. -/
  | member (around : List Frame)
  /-- A key. -/
  | key (members : Array (Option String × Value)) (around : List Frame)
  /-- The colon after a key. -/
  | colon (members : Array (Option String × Value)) (key : Option String) (around : List Frame)
  /-- Whatever may follow a value. -/
  | complete (value : Value) (around : List Frame)

/-- Go on with a token that begins a value. -/
def begin (around : List Frame) : Token → Option Building
  | .scalar s => some (.complete (.scalar s) around)
  | .leftBracket => some (.item around)
  | .leftBrace => some (.member around)
  | .rightBracket | .rightBrace | .colon | .comma => none

/-- Go on with a token. -/
def advance : Building → Token → Option Building
  | .value around, token => begin around token
  | .item around, .rightBracket => some (.complete (.array []) around)
  | .item around, token => begin (.array #[] :: around) token
  | .member around, .rightBrace => some (.complete (.object []) around)
  | .member around, .scalar (.string key) => some (.colon #[] key around)
  | .key members around, .scalar (.string key) => some (.colon members key around)
  | .colon members key around, .colon => some (.value (.object members key :: around))
  | .complete v (.array items :: around), .comma => some (.value (.array (items.push v) :: around))
  | .complete v (.array items :: around), .rightBracket =>
    some (.complete (.array (items.push v).toList) around)
  | .complete v (.object members key :: around), .comma =>
    some (.key (members.push (key, v)) around)
  | .complete v (.object members key :: around), .rightBrace =>
    some (.complete (.object (members.push (key, v)).toList) around)
  | _, _ => none

/-- The value that a text spells, if it spells one and nothing else. -/
def ofText? (text : String) : Option Value := do
  match ← (← Token.ofText? text).foldlM advance (.value []) with
  | .complete v [] => return v
  | _ => none

/-! ## Reading values -/

/-- The text of a string. -/
def text? : Value → Option String
  | .scalar (.string text?) => text?
  | _ => none

/-- A truth value. -/
def bool? : Value → Option Bool
  | .scalar (.bool b) => some b
  | _ => none

/-- A natural number below a bound. -/
def natural? (bound : Nat) : Value → Option Nat
  | .scalar (.natural n) => if n < bound then some n else none
  | _ => none

/-- The items of an array, each read in the same way. -/
def items? {α : Type} (read : Value → Option α) : Value → Option (List α)
  | .array items => items.mapM read
  | _ => none

/-- The values of the fields of a record, where they are given. A record is an object, whose other
members mean nothing, or an array of the first fields in order. No field may be given twice. -/
def fields? (names : List String) : Value → Option (List (Option Value))
  | .object members => do
    let named ← members.mapM fun (key, v) ↦ key.map (·, v)
    names.mapM fun name ↦
      match named.filter (·.1 = name) with
      | [] => some none
      | [(_, v)] => some (some v)
      | _ :: _ :: _ => none
  | .array items =>
    if items.length ≤ names.length then some (names.mapIdx fun i _ ↦ items[i]?) else none
  | .scalar _ => none

end Value

end WebVTT.Json
