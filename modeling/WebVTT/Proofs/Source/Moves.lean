import Mathlib.Data.List.Induction
import WebVTT.LineStream.Line

/-!
# Moves of bytes

Between a source and whoever reads from it there is room for one byte that was taken too early. A `Move`
is what happens to bytes there: one is pulled from the source, one is handed back, one that was handed
back is delivered again; and a line terminator is finished, which may take one byte more. Moves are
orderly (`Move.Orderly`) if a byte is handed back only right after it was delivered and while there is
room for it, and only what ends a line is finished as a terminator. Then no byte is lost, doubled or put
out of order (`Move.Orderly.balanced`).
-/

namespace WebVTT

open LineStream (lineFeed carriageReturn)

/-- The byte that was yielded, if one was. -/
def Event.byte? : Event → Option UInt8
  | byte b => some b
  | ended | failed _ => none

/-- What may happen to bytes between a source and its reader. -/
inductive Move where
  /-- The source was pulled from, and what it yielded was delivered. -/
  | pulled (event : Event)
  /-- The byte that had been handed back was delivered. -/
  | redelivered (b : UInt8)
  /-- The byte was handed back. -/
  | handedBack (b : UInt8)
  /-- The line terminator that begins with the byte was to be finished. -/
  | terminator (b : UInt8)
deriving DecidableEq, Repr

namespace Move

/-- The byte that is delivered, if one is. -/
def delivered : Move → Option UInt8
  | pulled event => event.byte?
  | redelivered b => some b
  | handedBack _ | terminator _ => none

/-- The event that is pulled, if one is. -/
def event? : Move → Option Event
  | pulled event => some event
  | redelivered _ | handedBack _ | terminator _ => none

/-! ## Accounts -/

/-- Where the bytes are after some moves. -/
structure Account where
  /-- The bytes that came from the source, in order. -/
  pulled : List UInt8 := []
  /-- The bytes that were delivered and not handed back, in order of delivery. -/
  consumed : List UInt8 := []
  /-- The byte that was handed back and not delivered again. -/
  held : Option UInt8 := none
deriving DecidableEq, Repr

/-- The account after one move more. A byte that is handed back takes the place of any other. -/
def Account.enter (a : Account) : Move → Account
  | .pulled (.byte b) => { a with pulled := a.pulled ++ [b], consumed := a.consumed ++ [b] }
  | .pulled .ended | .pulled (.failed _) | .terminator _ => a
  | .redelivered b => { a with consumed := a.consumed ++ [b], held := none }
  | .handedBack b => { a with consumed := a.consumed.dropLast, held := some b }

/-- The account of these moves. -/
def account (moves : List Move) : Account := moves.foldl Account.enter {}

variable {moves before : List Move} {move : Move} {b : UInt8}

theorem account_append_singleton (moves : List Move) (move : Move) :
    account (moves ++ [move]) = (account moves).enter move := by
  rw [account, List.foldl_append]
  rfl

/-- The bytes that came from the source are those among the events that were pulled. -/
theorem pulled_account (moves : List Move) :
    (account moves).pulled = (moves.filterMap event?).filterMap Event.byte? := by
  induction moves using List.reverseRecOn with
  | nil => rfl
  | append_singleton moves move ih =>
    rw [account_append_singleton, List.filterMap_append, List.filterMap_append, ← ih]
    cases move with
    | pulled event =>
      cases event with
      | byte => rfl
      | ended | failed => exact (List.append_nil _).symm
    | redelivered | handedBack | terminator => exact (List.append_nil _).symm

/-- A pull changes nothing about what is held. -/
theorem held_pulled (a : Account) (event : Event) : (a.enter (.pulled event)).held = a.held := by
  cases event <;> rfl

/-- The bytes pulled are those consumed, each once, and after them the one that is held. -/
def Account.Balanced (a : Account) : Prop := a.pulled = a.consumed ++ a.held.toList

instance (a : Account) : Decidable a.Balanced := inferInstanceAs (Decidable (_ = _))

/-! ## Order -/

/-- The byte was delivered by the last of these moves. -/
def JustDelivered (b : UInt8) (moves : List Move) : Prop :=
  moves.getLast?.bind delivered = some b

/-- After these moves the next one is in order. -/
def Allowed (before : List Move) : Move → Prop
  | pulled _ => (account before).held = none
  | redelivered b => (account before).held = some b
  | handedBack b => (account before).held = none ∧ JustDelivered b before
  | terminator b => (b = lineFeed ∨ b = carriageReturn) ∧ JustDelivered b before

/-- Every move is in order after those before it. -/
inductive Orderly : List Move → Prop where
  | nil : Orderly []
  | snoc {moves : List Move} {move : Move} : Orderly moves → Allowed moves move →
      Orderly (moves ++ [move])

/-- A byte that was just delivered is the last one consumed. -/
theorem JustDelivered.exists_consumed (h : JustDelivered b moves) :
    ∃ bytes, (account moves).consumed = bytes ++ [b] := by
  cases moves using List.reverseRecOn with
  | nil => cases h
  | append_singleton before move =>
    have hmove : move.delivered = some b := by simpa [JustDelivered] using h
    rw [account_append_singleton]
    refine ⟨(account before).consumed, ?_⟩
    cases move with
    | pulled event =>
      cases event with
      | byte =>
        cases hmove
        rfl
      | ended | failed => cases hmove
    | redelivered =>
      cases hmove
      rfl
    | handedBack | terminator => cases hmove

/-- A move that is in order keeps the account balanced. -/
theorem Allowed.balanced (h : Allowed before move) (hbefore : (account before).Balanced) :
    (account (before ++ [move])).Balanced := by
  rw [account_append_singleton]
  unfold Account.Balanced at hbefore ⊢
  cases move with
  | pulled event =>
    have hheld : (account before).held = none := h
    cases event with
    | byte b => simpa [Account.enter, hheld] using hbefore
    | ended | failed => exact hbefore
  | redelivered b =>
    have hheld : (account before).held = some b := h
    simpa [Account.enter, hheld] using hbefore
  | handedBack b =>
    obtain ⟨hheld, hlast⟩ := h
    obtain ⟨bytes, hconsumed⟩ := hlast.exists_consumed
    simpa [Account.enter, hheld, hconsumed] using hbefore
  | terminator => exact hbefore

namespace Orderly

/-- Orderly moves keep the account balanced. -/
theorem balanced (h : Orderly moves) : (account moves).Balanced := by
  induction h with
  | nil => rfl
  | snoc _ hmove ih => exact hmove.balanced ih

theorem of_snoc (h : Orderly (moves ++ [move])) : Orderly moves ∧ Allowed moves move := by
  generalize hall : moves ++ [move] = all at h
  cases h with
  | nil => simp at hall
  | snoc h hmove =>
    obtain ⟨rfl, hlast⟩ := List.append_inj' hall rfl
    cases hlast
    exact ⟨h, hmove⟩

/-- What is orderly was orderly before. -/
theorem of_append {more : List Move} (h : Orderly (moves ++ more)) : Orderly moves := by
  induction more using List.reverseRecOn with
  | nil => rwa [List.append_nil] at h
  | append_singleton more move ih =>
    rw [← List.append_assoc] at h
    exact ih h.of_snoc.1

/-- Each of the moves was in order when it was made. -/
theorem allowed {after : List Move} (h : Orderly (before ++ move :: after)) :
    Allowed before move := by
  rw [← List.singleton_append, ← List.append_assoc] at h
  exact h.of_append.of_snoc.2

end Orderly

end Move

end WebVTT
