/-!
# Byte sources

Text is pulled one byte at a time from a *source*. A pull yields a byte, the end of the
stream, or a failure of whatever lies behind the source; the end is kept apart from failures,
and neither is final: a source may go on after it.

`Source` asks one law of an instance: a size that no pull makes larger, and that every byte
delivered makes smaller. It is what makes reading to the end of a line, of a cue or of a stream
total for every source at once. It shuts out a supply of bytes that never ends, but such a supply is a
source once it is cut off after a number of pulls, however large (`Curtailed`).
-/

namespace WebVTT

/-! ## Failures -/

/-- The class of a failure, for callers that react to some failures and not to others. All that a
source makes of it is to try again after an interruption, and a reader hands on any class as it is. -/
inductive FailureKind where
  | notFound
  | permissionDenied
  | connectionReset
  | brokenPipe
  | wouldBlock
  | invalidData
  | timedOut
  | interrupted
  | unexpectedEof
  | other
  /-- A class that has a name of its own. -/
  | named (name : String)
deriving DecidableEq, Repr

/-- A failure of a source: its class, and a text for people. -/
structure Failure where
  /-- The class of the failure. -/
  kind : FailureKind
  /-- What went wrong, in words. -/
  message : String
deriving DecidableEq, Repr

/-! ## Events -/

/-- What one pull from a source yields. -/
inductive Event where
  /-- The next byte of the stream. -/
  | byte (value : UInt8)
  /-- No byte is left, for now. -/
  | ended
  /-- The source could not tell. -/
  | failed (failure : Failure)
deriving DecidableEq, Repr

namespace Event

/-- How much of a stream an event stands for: a byte weighs one, all else nothing. -/
def weight : Event → Nat
  | byte _ => 1
  | ended | failed _ => 0

@[simp] theorem weight_byte (b : UInt8) : (byte b).weight = 1 := rfl
@[simp] theorem weight_ended : ended.weight = 0 := rfl
@[simp] theorem weight_failed (f : Failure) : (failed f).weight = 0 := rfl

theorem weight_le_one (e : Event) : e.weight ≤ 1 := by
  cases e with
  | byte => exact Nat.le_refl 1
  | ended | failed => exact Nat.zero_le 1

/-- How much of a stream these events stand for. -/
def totalWeight : List Event → Nat
  | [] => 0
  | e :: rest => e.weight + totalWeight rest

@[simp] theorem totalWeight_nil : totalWeight [] = 0 := rfl
@[simp] theorem totalWeight_cons (e : Event) (rest : List Event) :
    totalWeight (e :: rest) = e.weight + totalWeight rest := rfl

/-- Whether an event is a failure of the kind that asks for another try. -/
def isInterruption : Event → Bool
  | failed f => f.kind = .interrupted
  | byte _ | ended => false

end Event

/-! ## Sources -/

/-- A supply of bytes that is finite, whatever ends and failures are mixed into it. -/
class Source (σ : Type) where
  /-- Pull once. -/
  next : σ → Event × σ
  /-- An upper bound on the bytes that the source can still deliver. -/
  size : σ → Nat
  /-- A pull never makes the bound larger, and a byte makes it smaller. -/
  size_next_le (s : σ) : size (next s).2 + (next s).1.weight ≤ size s

end WebVTT
