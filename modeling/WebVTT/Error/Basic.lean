import WebVTT.Error.Category
import WebVTT.Error.Violation
import WebVTT.Source.Basic

/-!
# Errors

Reading stops at a failure of the source, which is handed on as it came, or at a violation.
-/

namespace WebVTT

/-- The category of a violation. -/
def Violation.category : Violation → Category
  | invalidTimings .. => .format
  | invalidUtf8 _ => .encoding
  | lineTooLong .. | tooManyPayloadLines .. => .resource
  | headerUnread | headerAlreadyRead | headerRejected => .usage
  | unexpectedEnd _ | incompleteBom | missingSignature | invalidSignatureLine _
  | missingHeaderSeparator _ | missingTimings _ | emptyPayload _ => .parsing

/-- Why a header or a cue could not be read. -/
inductive Error where
  /-- The source failed. -/
  | source (failure : Failure)
  /-- The stream, or the call, is at fault. -/
  | violation (violation : Violation)
deriving DecidableEq, Repr

namespace Error

/-- The category of an error. -/
def category : Error → Category
  | source _ => .io
  | violation v => v.category

/-- Whether the author of the stream can mend the error. -/
def isUserFixable (e : Error) : Bool := e.category.isUserFixable

/-- Whether the source is at fault. -/
def isSourceError : Error → Bool
  | source _ => true
  | violation _ => false

/-- The line that an error points to. -/
def line? : Error → Option Nat
  | source _ => none
  | violation v => v.line?

/-- The error in words. -/
def message : Error → String
  | source failure => "character source failed: " ++ failure.message
  | violation v => v.message

end Error

end WebVTT
