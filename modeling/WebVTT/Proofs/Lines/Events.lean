import WebVTT.LineStream.Line

/-!
# The lines among events

A reader that pulls events and takes lines from them completes some lines and gives up others.
`linesAmong` tells which, looking at the events alone: a line is complete at its terminator or
where the stream ends, and one that the source fails in or that grows too long is not. After a
carriage return the reader looks at one event more, so the line is complete only if that event has
come and is no failure.

`Completes` says the same of the events that a reader takes one line at a time.
-/

namespace WebVTT

open LineStream (lineFeed carriageReturn)

/-- The bytes of the lines that these events complete, where lines may have so many bytes, given the
line that a carriage return has ended just now, if one has, and the bytes of the line that has
begun. -/
def linesAmong (limit : Nat) (returned : Option (List UInt8)) (begun : List UInt8) :
    List Event → List (List UInt8)
  | [] => []
  | .ended :: rest =>
    returned.toList ++ (if begun = [] then [] else [begun]) ++ linesAmong limit none [] rest
  | .failed _ :: rest => linesAmong limit none [] rest
  | .byte b :: rest =>
    if b = lineFeed then
      returned.getD begun :: linesAmong limit none [] rest
    else if b = carriageReturn then
      returned.toList ++ linesAmong limit (some begun) [] rest
    else
      returned.toList ++
        linesAmong limit none (if begun.length < limit then begun ++ [b] else []) rest

/-- The first line ends with two bytes, the second grows too long, and its rest is a line without
bytes; the third is lost with the failure. -/
example : linesAmong 2 none [] ([65, 66, 13, 10, 65, 66, 67, 10, 65, 13].map .byte ++
    [.failed ⟨.other, "broken"⟩, .ended]) = [[65, 66], []] := by
  decide

/-! ## Events taken line by line -/

/-- The events go on with the byte at hand, if there is one. -/
def GoesOn (ahead : Option UInt8) (events : List Event) : Prop :=
  ∀ b ∈ ahead, events.head? = some (.byte b)

theorem goesOn_cons {ahead : Option UInt8} {event : Event} (h : ∀ b ∈ ahead, event = .byte b)
    (events : List Event) : GoesOn ahead (event :: events) := by
  intro b hb
  rw [h b hb]
  rfl

theorem GoesOn.append {ahead : Option UInt8} {events : List Event} (h : GoesOn ahead events)
    (more : List Event) : GoesOn ahead (events ++ more) := by
  intro b hb
  rw [List.head?_append, h b hb]
  rfl

/-- After the bytes of a line that has begun, these events complete just these lines, and the next
line begins after them, with the byte ahead if there is one. -/
def Completes (limit : Nat) (begun : List UInt8) (events : List Event) (ahead : Option UInt8)
    (lines : List (List UInt8)) : Prop :=
  ∀ more, GoesOn ahead more →
    linesAmong limit none begun (events ++ more) = lines ++ linesAmong limit none [] more

namespace Completes

variable {limit : Nat} {begun : List UInt8} {b : UInt8} {failure : Failure}

theorem nil : Completes limit [] [] none [] := fun _ _ ↦ rfl

/-- Lines are completed one after the other. -/
theorem append {events events' : List Event} {ahead ahead' : Option UInt8}
    {lines lines' : List (List UInt8)} (h : Completes limit begun events ahead lines)
    (h' : Completes limit [] events' ahead' lines') (hahead : GoesOn ahead events') :
    Completes limit begun (events ++ events') ahead' (lines ++ lines') := by
  intro more hmore
  rw [List.append_assoc, h _ (hahead.append more), h' more hmore, List.append_assoc]

/-! ### One line -/

/-- The end of the stream completes the line, unless it is empty. -/
theorem ended : Completes limit begun [.ended] none (if begun = [] then [] else [begun]) :=
  fun _ _ ↦ rfl

theorem failed : Completes limit begun [.failed failure] none [] := fun _ _ ↦ rfl

theorem line_feed : Completes limit begun [.byte lineFeed] none [begun] := fun _ _ ↦ rfl

/-- A carriage return completes the line if another byte comes after it. -/
theorem carriage_return (hb : b ≠ lineFeed) :
    Completes limit begun [.byte carriageReturn] (some b) [begun] := by
  intro more hmore
  obtain ⟨rest, rfl⟩ := List.head?_eq_some_iff.mp (hmore b rfl)
  show linesAmong limit (some begun) [] (.byte b :: rest) = _
  unfold linesAmong
  rw [if_neg hb, if_neg hb]
  split <;> rfl

/-- A line feed after it belongs to it. -/
theorem return_line_feed :
    Completes limit begun [.byte carriageReturn, .byte lineFeed] none [begun] := fun _ _ ↦ rfl

theorem return_ended : Completes limit begun [.byte carriageReturn, .ended] none [begun] :=
  fun _ _ ↦ rfl

theorem return_failed : Completes limit begun [.byte carriageReturn, .failed failure] none [] :=
  fun _ _ ↦ rfl

theorem linesAmong_cons (hb : ¬(b = lineFeed ∨ b = carriageReturn)) (rest : List Event) :
    linesAmong limit none begun (.byte b :: rest) =
      linesAmong limit none (if begun.length < limit then begun ++ [b] else []) rest := by
  obtain ⟨hfeed, hreturn⟩ := not_or.mp hb
  rw [linesAmong, if_neg hfeed, if_neg hreturn]
  rfl

/-- A byte too many gives the line up. -/
theorem excess (hb : ¬(b = lineFeed ∨ b = carriageReturn)) (hlength : limit ≤ begun.length) :
    Completes limit begun [.byte b] none [] := by
  intro more _
  rw [List.singleton_append, linesAmong_cons hb, if_neg (Nat.not_lt.mpr hlength)]
  rfl

/-- Any other byte goes to the line. -/
theorem content {events : List Event} {ahead : Option UInt8} {lines : List (List UInt8)}
    (hb : ¬(b = lineFeed ∨ b = carriageReturn)) (hlength : begun.length < limit)
    (h : Completes limit (begun ++ [b]) events ahead lines) :
    Completes limit begun (.byte b :: events) ahead lines := by
  intro more hmore
  rw [List.cons_append, linesAmong_cons hb, if_pos hlength, h more hmore]

end Completes

end WebVTT
