import WebVTT.Time.Basic

/-!
# Parts of a document

A stream begins with a header: a byte order mark, which may be left out, the signature, a
description on the same line, and an empty line. Cues follow it. A cue shows some lines of text from
one time to another. Its settings say where and how; they are kept in the order of the file,
repeated names included.
-/

namespace WebVTT

/-! ## Headers -/

/-- What a header says. -/
structure Header where
  /-- Whether the stream begins with a byte order mark. -/
  hasBom : Bool := false
  /-- The text after the signature, without the blanks before it. -/
  description : String := ""
deriving DecidableEq, Repr, Inhabited

/-! ## Cues -/

/-- A cue setting, written `name:value`. -/
structure Setting where
  /-- The text before the colon. -/
  name : String
  /-- The text after the colon. -/
  value : String
deriving DecidableEq, Repr, Inhabited

/-- Lines of text shown from one time to another. -/
structure Cue where
  /-- The line before the timings, empty where there is none. -/
  identifier : String := ""
  /-- When the text appears. -/
  start : Time := .zero
  /-- When the text goes. -/
  stop : Time := .zero
  /-- Where and how the text is shown. -/
  settings : List Setting := []
  /-- The lines of text. -/
  payload : List String := []
deriving DecidableEq, Repr, Inhabited

namespace Cue

/-- Whether the cue has an identifier. -/
def hasIdentifier (c : Cue) : Bool := !c.identifier.isEmpty

/-- How long the cue is shown, in milliseconds; negative if it stops before it starts. -/
def duration (c : Cue) : Int64 := c.stop - c.start

/-- The value of the first setting of a name. -/
def setting? (c : Cue) (name : String) : Option String :=
  (c.settings.find? (·.name = name)).map (·.value)

/-- The lines of text in one, with line feeds between them. -/
def text (c : Cue) : String := "\n".intercalate c.payload

end Cue

end WebVTT
