import WebVTT.Proofs.LineStream.Cases
import WebVTT.Proofs.LineStream.Tally
import WebVTT.Proofs.Lines.Events

/-!
# Notices of lines

The events that a stream takes from its source fall into lines, and what a stream tells of the
lines it reads agrees with that: it counts the lines that the events complete, and leaves a notice
of each with the number and the length of the line (`LineStream.Tells`). Lines that cannot be read
to their end are neither counted nor told of.

Before the first line comes a preamble. Where the events taken do not begin with one, no line is
read (`Strays`).
-/

namespace WebVTT

open Reading (Leaves)

/-- The notices of lines of these bytes, the first line being number one. -/
def lineNotices (lines : List (List UInt8)) : List Notice :=
  lines.mapIdx fun k bytes ↦ .lineRead (k + 1) bytes.length

/-- Whether a notice is of a line. -/
def Notice.isOfLine (n : Notice) : Bool := n.message = "read line"

namespace LineStream

variable {σ : Type} [Source σ] {s t : LineStream (Recorded σ)} {limit : Nat} {before : List Event}

/-! ## Taking a line -/

/-- The events taken from one state of a stream to another complete these lines, given the bytes of
the line that had begun, and no line feed is handed back. -/
def TakesLines (limit : Nat) (before : List Event) (begun : List UInt8)
    (s : LineStream (Recorded σ)) (lines : List (List UInt8)) (t : LineStream (Recorded σ)) : Prop :=
  (∃ events, t.HasTaken (before ++ events) ∧ GoesOn s.returned events ∧
    Completes limit begun events t.returned lines) ∧ ∀ b ∈ t.returned, b ≠ lineFeed

theorem TakesLines.of_next {begun : List UInt8} {lines : List (List UInt8)} {event : Event}
    (h : s.HasTaken before) (hnext : s.next = (event, t))
    (hcompletes : Completes limit begun [event] none lines) :
    TakesLines limit before begun s lines t := by
  obtain ⟨htaken, hroom, hreturned⟩ := h.next hnext
  unfold TakesLines
  rw [hroom]
  exact ⟨⟨[event], htaken, goesOn_cons hreturned [], hcompletes⟩, nofun⟩

/-- A terminator completes the line, unless the source fails where the terminator might go on. -/
theorem HasTaken.finishTerminator (limit : Nat) (begun : List UInt8) {first : UInt8}
    (h : s.HasTaken before) (hnext : s.next = (.byte first, t))
    (hfirst : first = lineFeed ∨ first = carriageReturn) :
    Leaves (fun _ ↦ TakesLines limit before begun s [begun]) (TakesLines limit before begun s [])
      (finishTerminator first t) := by
  rcases hfirst with rfl | rfl
  · exact .ok _ (.of_next h hnext .line_feed)
  · obtain ⟨htaken, hroom, hreturned⟩ := h.next hnext
    have hgoes := goesOn_cons hreturned
    refine Leaves.bind ?_ fun _ _ h ↦ .ok _ h
    unfold takeByteIf
    cases hlook : t.nextIf lineFeed with
    | mk event u =>
      rcases htaken.nextIf hlook with ⟨b, rfl, hb, hu, hback⟩ | ⟨hb, hu, hnone⟩
      · refine .ok _ ⟨⟨_, hu, hgoes [], ?_⟩, ?_⟩
        · rw [hback]
          exact .carriage_return hb
        · rw [hback]
          rintro _ ⟨⟩
          exact hb
      · rw [List.append_assoc] at hu
        cases event with
        | byte b =>
          obtain rfl := hb b rfl
          refine .ok _ ⟨⟨_, hu, hgoes _, ?_⟩, by rw [hnone]; exact nofun⟩
          rw [hnone]
          exact .return_line_feed
        | ended =>
          refine .ok _ ⟨⟨_, hu, hgoes _, ?_⟩, by rw [hnone]; exact nofun⟩
          rw [hnone]
          exact .return_ended
        | failed failure =>
          refine .error _ ⟨⟨_, hu, hgoes _, ?_⟩, by rw [hnone]; exact nofun⟩
          rw [hnone]
          exact .return_failed

theorem toList_ended (taken : ByteArray) :
    (if taken.isEmpty then none else some taken).toList.map (fun bytes ↦ bytes.data.toList) =
      if taken.data.toList = [] then [] else [taken.data.toList] := by
  obtain ⟨⟨_ | ⟨b, bytes⟩⟩⟩ := taken <;> rfl

/-- The line that is taken is the one that the events complete, and there is none where it is given
up. -/
theorem HasTaken.takeLineAfter (taken : ByteArray) (h : s.HasTaken before)
    (hlimit : s.limits.maxLineLength.toNat = limit) :
    Leaves (fun line? ↦ TakesLines limit before taken.data.toList s
        (line?.toList.map fun bytes ↦ bytes.data.toList))
      (TakesLines limit before taken.data.toList s []) (takeLineAfter taken s) := by
  fun_induction LineStream.takeLineAfter taken s generalizing before with
  | case1 taken s t hnext =>
    refine .ok _ (.of_next h hnext ?_)
    rw [toList_ended]
    exact .ended
  | case2 taken s failure t hnext => exact .error _ (.of_next h hnext .failed)
  | case3 taken s b t hnext hb _ u hfinish =>
    have hended := h.finishTerminator limit taken.data.toList hnext hb
    rw [hfinish] at hended
    exact .ok _ hended.of_ok
  | case4 taken s b t hnext hb e u hfinish =>
    have hended := h.finishTerminator limit taken.data.toList hnext hb
    rw [hfinish] at hended
    exact .error _ hended.of_error
  | case5 taken s b t hnext hb hfull =>
    rw [(kept_of_next hnext).limits_eq, hlimit] at hfull
    exact .error _ (.of_next h hnext (.excess hb hfull))
  | case6 taken s b t hnext hb hroom ih =>
    obtain ⟨htaken, -, hreturned⟩ := h.next hnext
    have hkept := kept_of_next hnext
    rw [hkept.limits_eq, hlimit] at hroom
    have hmore := ih htaken (by rw [hkept.limits_eq, hlimit])
    have hgoes : ∀ {lines u},
        TakesLines limit (before ++ [.byte b]) (taken.push b).data.toList t lines u →
          TakesLines limit before taken.data.toList s lines u := by
      rintro lines u ⟨⟨events, hu, -, hcompletes⟩, hne⟩
      have hall : u.HasTaken (before ++ .byte b :: events) := by simpa using hu
      refine ⟨⟨_, hall, goesOn_cons hreturned events, .content hb ?_ ?_⟩, hne⟩
      · exact Nat.lt_of_not_le hroom
      · simpa using hcompletes
    exact hmore.mono (fun _ _ ↦ hgoes) (fun _ ↦ hgoes)

/-! ## Telling of lines -/

/-- The events taken after these complete lines, and just these lines are counted and told of. -/
structure Tells (limits : Limits) (before : List Event) (s : LineStream (Recorded σ)) : Prop where
  limits_eq : s.limits = limits
  exists_lines : ∃ lines, (∃ events, s.HasTaken (before ++ events) ∧
      Completes limits.maxLineLength.toNat [] events s.returned lines) ∧
    (∀ b ∈ s.returned, b ≠ lineFeed) ∧ s.line = lines.length ∧
    s.notices.toList.filter Notice.isOfLine = lineNotices lines

omit [Source σ] in
/-- Notices of other things are none of a line. -/
theorem filter_notices_note {σ : Type} (s : LineStream σ) {n : Notice} (hn : n.isOfLine = false) :
    (s.note n).notices.toList.filter Notice.isOfLine =
      s.notices.toList.filter Notice.isOfLine := by
  show (s.notices.push n).toList.filter Notice.isOfLine = _
  rw [Array.toList_push, List.filter_append, List.filter_singleton, hn]
  exact List.append_nil _

namespace Tells

variable {limits : Limits}

omit [Source σ] in
/-- Nothing is told before the first line. -/
theorem start (h : s.HasTaken before) (hreturned : s.returned = none) (hlimits : s.limits = limits)
    (hline : s.line = 0) (hnotices : s.notices.toList.filter Notice.isOfLine = []) :
    s.Tells limits before := by
  refine ⟨hlimits, [], ⟨[], by simpa using h, ?_⟩, ?_, hline, hnotices⟩
  · rw [hreturned]
    exact .nil
  · rw [hreturned]
    exact nofun

omit [Source σ] in
/-- Notices of other things tell of no line. -/
theorem note (h : s.Tells limits before) {n : Notice} (hn : n.isOfLine = false) :
    (s.note n).Tells limits before := by
  obtain ⟨hlimits, lines, htaken, hreturned, hline, hnotices⟩ := h
  exact ⟨hlimits, lines, htaken, hreturned, hline, (filter_notices_note s hn).trans hnotices⟩

omit [Source σ] in
/-- The events of one line more. -/
theorem take (h : s.Tells limits before) {lines : List (List UInt8)}
    (ht : ∀ taken, s.HasTaken taken → TakesLines limits.maxLineLength.toNat taken [] s lines t)
    (hkept : Kept s t) : ∃ earlier,
      (∃ events, t.HasTaken (before ++ events) ∧
        Completes limits.maxLineLength.toNat [] events t.returned (earlier ++ lines)) ∧
      (∀ b ∈ t.returned, b ≠ lineFeed) ∧ t.limits = limits ∧ t.line = earlier.length ∧
      t.notices.toList.filter Notice.isOfLine = lineNotices earlier := by
  obtain ⟨hlimits, earlier, ⟨events, htaken, hearlier⟩, -, hline, hnotices⟩ := h
  obtain ⟨⟨events', ht, hgoes, hlines⟩, hreturned⟩ := ht _ htaken
  refine ⟨earlier, ⟨events ++ events', ?_, hearlier.append hlines hgoes⟩, hreturned,
    hkept.limits_eq.trans hlimits, hkept.line_eq.trans hline, ?_⟩
  · rwa [← List.append_assoc]
  · rw [hkept.notices_eq, hnotices]

theorem lineNotices_append_singleton (lines : List (List UInt8)) (bytes : List UInt8) :
    lineNotices (lines ++ [bytes]) =
      lineNotices lines ++ [.lineRead (lines.length + 1) bytes.length] :=
  List.mapIdx_concat

omit [Source σ] in
/-- A line that is complete is told of. -/
theorem complete (h : s.Tells limits before) {bytes : ByteArray}
    (ht : ∀ taken, s.HasTaken taken →
      TakesLines limits.maxLineLength.toNat taken [] s [bytes.data.toList] t)
    (hkept : Kept s t) : (completeLine bytes t).Tells limits before := by
  obtain ⟨earlier, htaken, hreturned, hlimits, hline, hnotices⟩ := h.take ht hkept
  refine ⟨hlimits, earlier ++ [bytes.data.toList], htaken, hreturned, ?_, ?_⟩
  · show t.line + 1 = _
    rw [hline, List.length_append, List.length_singleton]
  · show (t.notices.push (.lineRead (t.line + 1) bytes.size)).toList.filter Notice.isOfLine = _
    rw [Array.toList_push, List.filter_append, hnotices, hline, lineNotices_append_singleton]
    rfl

omit [Source σ] in
/-- A line that is given up is not told of. -/
theorem giveUp (h : s.Tells limits before)
    (ht : ∀ taken, s.HasTaken taken → TakesLines limits.maxLineLength.toNat taken [] s [] t)
    (hkept : Kept s t) : t.Tells limits before := by
  obtain ⟨earlier, htaken, hreturned, hlimits, hline, hnotices⟩ := h.take ht hkept
  rw [List.append_nil] at htaken
  exact ⟨hlimits, earlier, htaken, hreturned, hline, hnotices⟩

/-- Reading a line tells of it, however it comes out. -/
theorem readLine (h : s.Tells limits before) :
    Leaves (fun _ ↦ Tells limits before) (Tells limits before) (readLine s) := by
  have htakes : ∀ taken, s.HasTaken taken → _ := fun taken htaken ↦
    htaken.takeLineAfter .empty (congrArg (·.maxLineLength.toNat) h.limits_eq)
  have hkept := kept_takeLineAfter .empty (.refl s)
  have hcase := lineCase_readLine s
  generalize LineStream.readLine s = result at hcase ⊢
  cases hcase with
  | ended htake =>
    rw [htake] at htakes hkept
    exact .ok _ (h.giveUp (fun taken htaken ↦ (htakes taken htaken).of_ok) hkept.of_ok)
  | text htake =>
    rw [htake] at htakes hkept
    exact .ok _ (h.complete (fun taken htaken ↦ (htakes taken htaken).of_ok) hkept.of_ok)
  | undecodable htake =>
    rw [htake] at htakes hkept
    exact .error _ (h.complete (fun taken htaken ↦ (htakes taken htaken).of_ok) hkept.of_ok)
  | refused htake =>
    rw [htake] at htakes hkept
    exact .error _ (h.giveUp (fun taken htaken ↦ (htakes taken htaken).of_error) hkept.of_error)

end Tells

/-! ## Preambles -/

theorem takeByte_of_next {event : Event} : s.next = (event, t) →
    takeByte s = match event with
      | .byte b => .ok (some b) t
      | .ended => .ok none t
      | .failed failure => .error (.source failure) t := by
  intro h
  rw [takeByte, h]
  cases event <;> rfl

theorem takeByteIf_of_nextIf {expected : UInt8} {event : Event} :
    s.nextIf expected = (event, t) →
      takeByteIf expected s = match event with
        | .byte b => .ok (some (b = expected)) t
        | .ended => .ok none t
        | .failed failure => .error (.source failure) t := by
  intro h
  rw [takeByteIf, h]
  cases event <;> rfl

/-- Bytes that are not those expected are taken up to the first that differs. -/
theorem HasTaken.stray_of_expectBytes (atEnd otherwise : Violation) (expected : List UInt8)
    (h : s.HasTaken before) :
    Leaves (fun _ t ↦ s.returned = none ∨ expected ≠ [] → t.returned = none)
      (fun t ↦ t.returned = none ∧ ∃ events, t.HasTaken (before ++ events) ∧
        GoesOn s.returned events ∧ ¬expected.map .byte <+: events)
      (LineStream.expectBytes atEnd otherwise expected s) := by
  induction expected generalizing s before with
  | nil => exact .ok _ (fun hnone ↦ hnone.elim id (absurd rfl))
  | cons b expected ih =>
    unfold LineStream.expectBytes
    cases hnext : s.next with
    | mk event t =>
      obtain ⟨htaken, hroom, hreturned⟩ := h.next hnext
      have hgoes := goesOn_cons hreturned
      cases event with
      | failed failure =>
        rw [Reading.bind_of_error (takeByte_of_next hnext)]
        exact .error _ ⟨hroom, _, htaken, hgoes [], by simp⟩
      | ended =>
        rw [Reading.bind_of_ok (takeByte_of_next hnext)]
        exact .error _ ⟨hroom, _, htaken, hgoes [], by simp⟩
      | byte c =>
        rw [Reading.bind_of_ok (takeByte_of_next hnext)]
        dsimp only
        split
        · next hfound =>
          subst hfound
          refine (ih htaken).mono (fun _ u hu _ ↦ hu (.inl hroom)) ?_
          rintro u ⟨hnone, events, hu, -, hstray⟩
          refine ⟨hnone, .byte c :: events, by simpa using hu, hgoes events, ?_⟩
          rwa [List.map_cons, List.cons_prefix_cons, and_iff_right rfl]
        · next hfound =>
          refine .error _ ⟨hroom, _, htaken, hgoes [], ?_⟩
          rw [List.map_cons, List.cons_prefix_cons]
          rintro ⟨hfirst, -⟩
          exact hfound (Event.byte.inj hfirst).symm

/-- The events do not begin with a preamble. -/
def Strays (events : List Event) : Prop := ∀ hasBom, ¬(preamble hasBom).map .byte <+: events

theorem head?_of_preamble {hasBom : Bool} {events : List Event}
    (h : (preamble hasBom).map .byte <+: events) :
    events.head? = some (.byte (if hasBom then 0xEF else 0x57)) := by
  have hfirst : ∀ b, (preamble b).head? = some (if b then 0xEF else 0x57) := by decide +kernel
  obtain ⟨rest, rfl⟩ := h
  rw [List.head?_append, List.head?_map, hfirst]
  rfl

theorem strays_of_head {events : List Event} (h : ∀ b, events.head? ≠ some (.byte b)) :
    Strays events :=
  fun _ hprefix ↦ h _ (head?_of_preamble hprefix)

/-- A byte order mark that breaks off is no preamble. -/
theorem strays_of_mark {events : List Event} (h : ¬[0xBB, 0xBF].map .byte <+: events) :
    Strays (.byte 0xEF :: events) := by
  intro hasBom hprefix
  cases hasBom with
  | false => cases head?_of_preamble hprefix
  | true =>
    rw [preamble, List.map_append] at hprefix
    exact h ((List.prefix_append _ _).trans (List.cons_prefix_cons.mp hprefix).2)

/-- Without a signature there is no preamble. -/
theorem strays_of_signature {hasBom : Bool} {events : List Event}
    (hfirst : hasBom = false → events.head? ≠ some (.byte 0xEF))
    (h : ¬(Text.encode "WEBVTT").map .byte <+: events) :
    Strays ((if hasBom then [0xEF, 0xBB, 0xBF] else []).map .byte ++ events) := by
  intro other hprefix
  cases hasBom with
  | true =>
    cases other with
    | false => cases head?_of_preamble hprefix
    | true =>
      rw [preamble, List.map_append] at hprefix
      exact h ((List.prefix_append_right_inj _).mp hprefix)
  | false =>
    cases other with
    | false => exact h hprefix
    | true => exact hfirst rfl (head?_of_preamble hprefix)

/-- Where no byte order mark is found, the byte found in its place is handed back. -/
theorem HasTaken.stray_of_readBom (h : s.HasTaken []) :
    Leaves (fun hasBom t ↦ hasBom = false → ∃ b ∈ t.returned, b ≠ 0xEF)
      (fun t ↦ t.returned = none ∧ ∃ events, t.HasTaken events ∧ Strays events)
      (LineStream.readBom s) := by
  unfold LineStream.readBom
  cases hlook : s.nextIf 0xEF with
  | mk event t =>
    rcases h.nextIf hlook with ⟨b, rfl, hb, -, hback⟩ | ⟨hb, ht, hnone⟩
    · rw [Reading.bind_of_ok (takeByteIf_of_nextIf hlook), decide_eq_false hb]
      exact .ok _ fun _ ↦ ⟨b, hback, hb⟩
    · cases event with
      | failed failure =>
        rw [Reading.bind_of_error (takeByteIf_of_nextIf hlook)]
        exact .error _ ⟨hnone, _, ht, strays_of_head fun b h ↦ by cases h⟩
      | ended =>
        rw [Reading.bind_of_ok (takeByteIf_of_nextIf hlook)]
        exact .error _ ⟨hnone, _, ht, strays_of_head fun b h ↦ by cases h⟩
      | byte b =>
        obtain rfl := hb b rfl
        rw [Reading.bind_of_ok (takeByteIf_of_nextIf hlook), decide_eq_true rfl]
        have hmark := ht.stray_of_expectBytes .incompleteBom .incompleteBom [0xBB, 0xBF]
        refine Leaves.bind (P := fun _ _ ↦ True) (hmark.mono (fun _ _ _ ↦ trivial) ?_)
          fun _ _ _ ↦ .ok _ fun h ↦ by cases h
        rintro u ⟨hroom, events, hu, -, hstray⟩
        exact ⟨hroom, _, hu, strays_of_mark hstray⟩

end LineStream

end WebVTT
