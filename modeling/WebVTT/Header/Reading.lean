import WebVTT.LineStream.Line
import WebVTT.Timings.Scan

/-!
# Reading a header

The byte order mark and the signature are matched byte by byte, so neither needs a line end after
it. What the rest of the line and the next line hold is then a matter of lines.
-/

namespace WebVTT

namespace LineStream

variable {σ : Type} [Source σ]

/-- Take exactly these bytes, given what to report where the stream ends among them and where it
goes on otherwise. -/
def expectBytes (atEnd otherwise : Violation) : List UInt8 → Reading σ Unit
  | [] => return ()
  | expected :: rest => do
    match ← takeByte with
    | none => refuse atEnd
    | some found =>
      if found = expected then expectBytes atEnd otherwise rest else refuse otherwise

/-- Take a byte order mark if there is one, and tell whether there was. -/
def readBom : Reading σ Bool := do
  match ← takeByteIf 0xEF with
  | none => refuse (.unexpectedEnd 1)
  | some false => return false
  | some true =>
    expectBytes .incompleteBom .incompleteBom [0xBB, 0xBF]
    return true

/-- Take the signature. -/
def readSignature : Reading σ Unit :=
  expectBytes (.unexpectedEnd 1) .missingSignature "WEBVTT".toUTF8.toList

/-- Read the description, which a blank sets off from the signature. -/
def readDescription (text : String) : Reading σ String := do
  match text.toList with
  | [] => return ""
  | first :: rest =>
    if isBlank first then
      return String.ofList ((first :: rest).dropWhile isBlank)
    else
      refuse (.invalidSignatureLine (← get).line)

/-- Read a header and the empty line after it. Either line may be missing where the stream ends. -/
def readHeader : Reading σ Header := do
  let hasBom ← readBom
  readSignature
  match ← readLine with
  | none => return { hasBom }
  | some text =>
    let description ← readDescription text
    match ← readLine with
    | none => return { hasBom, description }
    | some separator =>
      if separator.isEmpty then
        return { hasBom, description }
      else
        refuse (.missingHeaderSeparator (← get).line)

end LineStream

end WebVTT
