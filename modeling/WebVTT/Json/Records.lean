import WebVTT.Document
import WebVTT.Json.Value
import WebVTT.Json.Writing

/-!
# Documents in JSON

Every type of a document, and the limits on reading one, can be written as a JSON object and read
back. All fields have to be given, except those of limits, which fall back on the usual limits.
-/

namespace WebVTT

open Json (Value)

/-- A 32-bit word in JSON. -/
def Json.Value.word32? (v : Value) : Option UInt32 := (v.natural? UInt32.size).map UInt32.ofNat

/-- A 64-bit word in JSON. -/
def Json.Value.word64? (v : Value) : Option UInt64 := (v.natural? UInt64.size).map UInt64.ofNat

/-! ## Times -/

/-- A time in JSON. -/
def Time.toJson (t : Time) : String :=
  Json.object [("hours", t.hours.toNat.repr), ("minutes", t.minutes.toNat.repr),
    ("seconds", t.seconds.toNat.repr), ("milliseconds", t.milliseconds.toNat.repr)]

/-- The time that a JSON value stands for. -/
def Time.ofJson? (v : Value) : Option Time := do
  match ← v.fields? ["hours", "minutes", "seconds", "milliseconds"] with
  | [some hours, some minutes, some seconds, some milliseconds] =>
    return ⟨← hours.word32?, ← minutes.word32?, ← seconds.word32?, ← milliseconds.word32?⟩
  | _ => none

/-! ## Cues -/

/-- A setting in JSON. -/
def Setting.toJson (s : Setting) : String :=
  Json.object [("name", Json.string s.name), ("value", Json.string s.value)]

/-- The setting that a JSON value stands for. -/
def Setting.ofJson? (v : Value) : Option Setting := do
  match ← v.fields? ["name", "value"] with
  | [some name, some value] => return ⟨← name.text?, ← value.text?⟩
  | _ => none

/-- A cue in JSON. -/
def Cue.toJson (c : Cue) : String :=
  Json.object [("identifier", Json.string c.identifier), ("start_time", c.start.toJson),
    ("stop_time", c.stop.toJson), ("settings", Json.array (c.settings.map Setting.toJson)),
    ("payload", Json.array (c.payload.map Json.string))]

/-- The cue that a JSON value stands for. -/
def Cue.ofJson? (v : Value) : Option Cue := do
  match ← v.fields? ["identifier", "start_time", "stop_time", "settings", "payload"] with
  | [some identifier, some start, some stop, some settings, some payload] =>
    return ⟨← identifier.text?, ← Time.ofJson? start, ← Time.ofJson? stop,
      ← settings.items? Setting.ofJson?, ← payload.items? Value.text?⟩
  | _ => none

/-! ## Documents -/

/-- A header in JSON. -/
def Header.toJson (h : Header) : String :=
  Json.object [("has_bom", Json.bool h.hasBom), ("description", Json.string h.description)]

/-- The header that a JSON value stands for. -/
def Header.ofJson? (v : Value) : Option Header := do
  match ← v.fields? ["has_bom", "description"] with
  | [some hasBom, some description] => return ⟨← hasBom.bool?, ← description.text?⟩
  | _ => none

/-- A document in JSON. -/
def Document.toJson (d : Document) : String :=
  Json.object [("header", d.header.toJson), ("cues", Json.array (d.cues.map Cue.toJson))]

/-- The document that a JSON value stands for. -/
def Document.ofJson? (v : Value) : Option Document := do
  match ← v.fields? ["header", "cues"] with
  | [some header, some cues] => return ⟨← Header.ofJson? header, ← cues.items? Cue.ofJson?⟩
  | _ => none

/-! ## Limits -/

/-- Limits in JSON. -/
def Limits.toJson (l : Limits) : String :=
  Json.object [("max_line_length", l.maxLineLength.toNat.repr),
    ("max_payload_lines", l.maxPayloadLines.toNat.repr)]

/-- The limits that a JSON value stands for. -/
def Limits.ofJson? (v : Value) : Option Limits := do
  let usual : Limits := {}
  match ← v.fields? ["max_line_length", "max_payload_lines"] with
  | [maxLineLength?, maxPayloadLines?] =>
    return ⟨← maxLineLength?.elim (some usual.maxLineLength) Value.word64?,
      ← maxPayloadLines?.elim (some usual.maxPayloadLines) Value.word64?⟩
  | _ => none

end WebVTT
