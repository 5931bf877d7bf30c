import WebVTT.Session.Cues
import WebVTT.Source.Slice

/-!
# Documents

A document is a header and all its cues. It takes a single error to refuse it.
-/

namespace WebVTT

/-- A whole stream of cues. -/
structure Document where
  /-- What the header says. -/
  header : Header := {}
  /-- The cues, in the order of the stream. -/
  cues : List Cue := []
deriving DecidableEq, Repr, Inhabited

namespace Document

/-- The number of cues. -/
def size (d : Document) : Nat := d.cues.length

/-- Whether there is no cue. -/
def isEmpty (d : Document) : Bool := d.cues.isEmpty

/-- Read all of a source. -/
def read {σ : Type} [Source σ] (source : σ) (limits : Limits := {}) : Except Error Document :=
  match (Session.ofSource source limits).readHeader with
  | .error e _ => .error e
  | .ok header s => do
    let cues ← ({ session := s : Cues σ }.collect.1).mapM id
    return { header, cues }

/-- Read a text. -/
def parse (text : String) : Except Error Document := read (Slice.ofString text)

end Document

/-! ## Version -/

/-- The version of the library. -/
def version : String := "0.1.0"

end WebVTT
