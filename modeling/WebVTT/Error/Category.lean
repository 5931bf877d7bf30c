/-!
# Categories of errors

A caller that cannot handle every error on its own handles them by category.
-/

namespace WebVTT

/-- What kind of thing went wrong. -/
inductive Category where
  /-- The source failed. -/
  | io
  /-- The stream lacks the structure of WebVTT. -/
  | parsing
  /-- A line is of the right kind and malformed. -/
  | format
  /-- Bytes are not text. -/
  | encoding
  /-- A limit is exceeded. -/
  | resource
  /-- A call comes out of order. -/
  | usage
deriving DecidableEq, Repr

namespace Category

/-- The category as it appears in the middle of a message. -/
def label : Category → String
  | io => "io"
  | parsing => "parsing"
  | format => "format"
  | encoding => "encoding"
  | resource => "resource"
  | usage => "usage"

/-- The category as a heading. -/
def title : Category → String
  | io => "I/O"
  | parsing => "Parsing"
  | format => "Format"
  | encoding => "Encoding"
  | resource => "Resource"
  | usage => "Usage"

/-- Whether the author of the stream can mend errors of the category. -/
def isUserFixable : Category → Bool
  | parsing | format | encoding => true
  | io | resource | usage => false

end Category

end WebVTT
