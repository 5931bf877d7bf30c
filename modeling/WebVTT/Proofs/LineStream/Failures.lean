import WebVTT.Proofs.Cue.Cases
import WebVTT.Proofs.Source.Recorded

/-!
# Failures of a source

Whatever is read, be it a single byte or a whole cue, is read up to the first failure of the source
and no further, and that failure is the error (`LineStream.Forwards`). An error that is no failure of
the source is found without one.
-/

namespace WebVTT

/-! ## Failures -/

/-- The failure that an event is, if it is one. -/
def Event.failure? : Event → Option Failure
  | failed failure => some failure
  | byte _ | ended => none

/-- The failure that an error hands on, if it does. -/
def Error.failure? : Error → Option Failure
  | source failure => some failure
  | violation _ => none

/-- No event is a failure, except for the last one if a failure is given, and then it is this one. -/
def EndIn (failure? : Option Failure) (events : List Event) : Prop :=
  ∃ quiet, events = quiet ++ failure?.toList.map .failed ∧ ∀ e ∈ quiet, e.failure? = none

namespace EndIn

variable {failure? : Option Failure} {events : List Event}

theorem nil : EndIn none [] := ⟨[], rfl, nofun⟩

/-- After events that are no failures, another one decides. -/
theorem append_singleton (h : EndIn none events) (event : Event) :
    EndIn event.failure? (events ++ [event]) := by
  obtain ⟨quiet, rfl, hquiet⟩ := h
  simp only [Option.toList_none, List.map_nil, List.append_nil]
  cases event with
  | failed failure => exact ⟨quiet, rfl, hquiet⟩
  | byte b =>
    refine ⟨quiet ++ [.byte b], (List.append_nil _).symm, ?_⟩
    exact List.forall_mem_append.mpr ⟨hquiet, List.forall_mem_singleton.mpr rfl⟩
  | ended =>
    refine ⟨quiet ++ [.ended], (List.append_nil _).symm, ?_⟩
    exact List.forall_mem_append.mpr ⟨hquiet, List.forall_mem_singleton.mpr rfl⟩

/-- The failure is the only one. -/
theorem filterMap_eq (h : EndIn failure? events) :
    events.filterMap Event.failure? = failure?.toList := by
  obtain ⟨quiet, rfl, hquiet⟩ := h
  rw [List.filterMap_append, List.filterMap_eq_nil_iff.mpr hquiet, List.nil_append]
  cases failure? with
  | none => rfl
  | some failure => rfl

end EndIn

namespace LineStream

variable {σ : Type} [Source σ] {α β : Type} {before : List Event} {failure? : Option Failure}
  {s t : LineStream (Recorded σ)}

/-! ## Taking bytes -/

omit [Source σ] in
/-- The source has yielded these events and then more, which end in the failure if one is given. -/
def PulledAfter (before : List Event) (failure? : Option Failure)
    (s : LineStream (Recorded σ)) : Prop :=
  ∃ events, s.source.pulled = before ++ events ∧ EndIn failure? events

/-- A step is refused where the source fails, and not for any other failure. -/
inductive Forwards (before : List Event) :
    EStateM.Result Error (LineStream (Recorded σ)) α → Prop where
  | ok {t : LineStream (Recorded σ)} (a : α) :
      PulledAfter before none t → Forwards before (.ok a t)
  | error {t : LineStream (Recorded σ)} (e : Error) :
      PulledAfter before e.failure? t → Forwards before (.error e t)

namespace Forwards

omit [Source σ] in
theorem of_ok {a : α} (h : Forwards before (.ok a t)) : PulledAfter before none t := by
  cases h with
  | ok _ h => exact h

omit [Source σ] in
theorem of_error {e : Error} (h : Forwards (α := α) before (.error e t)) :
    PulledAfter before e.failure? t := by
  cases h with
  | error _ h => exact h

omit [Source σ] in
/-- A second step is taken only if the source has not failed. -/
theorem bind {x : Reading (Recorded σ) α} {f : α → Reading (Recorded σ) β}
    (h : Forwards before (x s)) (hmore : ∀ a t, PulledAfter before none t → Forwards before (f a t)) :
    Forwards before ((x >>= f) s) := by
  cases hx : x s with
  | ok a t =>
    rw [hx] at h
    rw [Reading.bind_of_ok hx]
    exact hmore a t h.of_ok
  | error e t =>
    rw [hx] at h
    rw [Reading.bind_of_error hx]
    exact .error e h.of_error

end Forwards

namespace PulledAfter

/-- What comes next is pulled, unless it is the byte handed back. -/
theorem next (h : s.PulledAfter before none) : s.next.2.PulledAfter before s.next.1.failure? := by
  unfold LineStream.next
  split
  · exact h
  · obtain ⟨events, hpulled, hquiet⟩ := h
    refine ⟨events ++ [(Source.next s.source).1], ?_, hquiet.append_singleton _⟩
    rw [Recorded.pulled_next, hpulled, List.append_assoc]

theorem of_next (h : s.PulledAfter before none) {event : Event} (hnext : s.next = (event, t)) :
    t.PulledAfter before event.failure? := by
  have hpulled := h.next
  rwa [hnext] at hpulled

theorem of_nextIf (h : s.PulledAfter before none) {expected : UInt8} {event : Event}
    (hnext : s.nextIf expected = (event, t)) : t.PulledAfter before event.failure? := by
  unfold nextIf at hnext
  split at hnext
  · next b u hfirst =>
    have hpulled := h.of_next hfirst
    cases hnext
    split
    · exact hpulled
    · exact hpulled
  · next hfirst =>
    cases hnext
    exact h.of_next hfirst

theorem takeByte (h : s.PulledAfter before none) : Forwards before (LineStream.takeByte s) := by
  unfold LineStream.takeByte
  split
  · next hnext => exact .ok _ (h.of_next hnext)
  · next hnext => exact .ok _ (h.of_next hnext)
  · next hnext => exact .error _ (h.of_next hnext)

theorem takeByteIf (h : s.PulledAfter before none) (expected : UInt8) :
    Forwards before (LineStream.takeByteIf expected s) := by
  unfold LineStream.takeByteIf
  split
  · next hnext => exact .ok _ (h.of_nextIf hnext)
  · next hnext => exact .ok _ (h.of_nextIf hnext)
  · next hnext => exact .error _ (h.of_nextIf hnext)

/-- A failure right after a carriage return is not taken for the end of the line. -/
theorem finishTerminator (h : s.PulledAfter before none) (first : UInt8) :
    Forwards before (LineStream.finishTerminator first s) := by
  unfold LineStream.finishTerminator
  split
  · exact (h.takeByteIf lineFeed).bind fun _ _ h ↦ .ok _ h
  · exact .ok _ h

/-- A failure in the middle of a line is not taken for its end. -/
theorem takeLineAfter (h : s.PulledAfter before none) (taken : ByteArray) :
    Forwards before (LineStream.takeLineAfter taken s) := by
  fun_induction LineStream.takeLineAfter taken s with
  | case1 taken s u hnext => exact .ok _ (h.of_next hnext)
  | case2 taken s failure u hnext => exact .error _ (h.of_next hnext)
  | case3 taken s b u hnext _ _ v hfinish =>
    have hfinished := (h.of_next hnext).finishTerminator b
    rw [hfinish] at hfinished
    exact .ok _ hfinished.of_ok
  | case4 taken s b u hnext _ e v hfinish =>
    have hfinished := (h.of_next hnext).finishTerminator b
    rw [hfinish] at hfinished
    exact .error _ hfinished.of_error
  | case5 taken s b u hnext => exact .error _ (h.of_next hnext)
  | case6 taken s b u hnext _ _ ih => exact ih (h.of_next hnext)

/-! ## Lines -/

theorem readLine (h : s.PulledAfter before none) : Forwards before (LineStream.readLine s) := by
  have htaken := h.takeLineAfter .empty
  have hcase := lineCase_readLine s
  generalize LineStream.readLine s = result at hcase ⊢
  cases hcase with
  | ended htake =>
    rw [htake] at htaken
    exact .ok _ htaken.of_ok
  | text htake =>
    rw [htake] at htaken
    exact .ok _ htaken.of_ok
  | undecodable htake =>
    rw [htake] at htaken
    exact .error _ htaken.of_ok
  | refused htake =>
    rw [htake] at htaken
    exact .error _ htaken.of_error

theorem of_readLine (h : s.PulledAfter before none) {line? : Option String}
    (hread : LineStream.readLine s = .ok line? t) : t.PulledAfter before none := by
  have hline := h.readLine
  rw [hread] at hline
  exact hline.of_ok

theorem of_readsLines (h : s.PulledAfter before none) {texts : List String}
    (hlines : ReadsLines s texts t) : t.PulledAfter before none := by
  induction hlines with
  | nil => exact h
  | cons hread _ ih => exact ih (h.of_readLine hread)

theorem of_closes (h : s.PulledAfter before none) (hcloses : Closes s t) :
    t.PulledAfter before none := by
  cases hcloses with
  | ended hread => exact h.of_readLine hread
  | blank hread => exact h.of_readLine hread

/-! ## Cues and headers -/

/-- A cue is given up at the first failure, whatever line of it the source fails in. -/
theorem readCue (h : s.PulledAfter before none) : Forwards before (LineStream.readCue s) := by
  obtain ⟨count, u, hblanks, hcase⟩ := exists_blockCase s
  have hu := h.of_readsLines hblanks
  generalize LineStream.readCue s = result at hcase ⊢
  cases hcase with
  | ended hread => exact .ok _ (hu.of_readLine hread)
  | unreadable _ hlines hread =>
    have hline := (hu.of_readsLines hlines).readLine
    rw [hread] at hline
    exact .error _ hline.of_error
  | unfinished _ _ hlines hread => exact .error _ ((hu.of_readsLines hlines).of_readLine hread)
  | untimed _ _ _ hlines => exact .error _ (hu.of_readsLines hlines)
  | mistimed _ _ hlines => exact .error _ (hu.of_readsLines hlines)
  | overfull _ _ _ hlines => exact .error _ (hu.of_readsLines hlines)
  | textless _ hlines hcloses => exact .error _ ((hu.of_readsLines hlines).of_closes hcloses)
  | cue _ _ _ _ hlines hcloses => exact .ok _ ((hu.of_readsLines hlines).of_closes hcloses)

theorem expectBytes (h : s.PulledAfter before none) (atEnd otherwise : Violation)
    (expected : List UInt8) :
    Forwards before (LineStream.expectBytes atEnd otherwise expected s) := by
  induction expected generalizing s with
  | nil => exact .ok _ h
  | cons b expected ih =>
    unfold LineStream.expectBytes
    refine h.takeByte.bind fun found? t ht ↦ ?_
    cases found? with
    | none => exact .error _ ht
    | some found =>
      dsimp only
      split
      · exact ih ht
      · exact .error _ ht

theorem readBom (h : s.PulledAfter before none) : Forwards before (LineStream.readBom s) := by
  unfold LineStream.readBom
  refine (h.takeByteIf 0xEF).bind fun taken t ht ↦ ?_
  match taken with
  | none => exact .error _ ht
  | some false => exact .ok _ ht
  | some true => exact (ht.expectBytes _ _ _).bind fun _ _ h ↦ .ok _ h

omit [Source σ] in
theorem readDescription (h : s.PulledAfter before none) (text : String) :
    Forwards before (LineStream.readDescription text s) := by
  unfold LineStream.readDescription
  cases text.toList with
  | nil => exact .ok _ h
  | cons first rest =>
    dsimp only
    split
    · exact .ok _ h
    · exact .error _ h

/-- A header is given up at the first failure, in the byte order mark, in the signature or after. -/
theorem readHeader (h : s.PulledAfter before none) : Forwards before (LineStream.readHeader s) := by
  unfold LineStream.readHeader
  refine h.readBom.bind fun hasBom t ht ↦ ?_
  refine (ht.expectBytes _ _ _).bind fun _ t ht ↦ ?_
  refine ht.readLine.bind fun text? t ht ↦ ?_
  cases text? with
  | none => exact .ok _ ht
  | some text =>
    refine (ht.readDescription text).bind fun description t ht ↦ ?_
    refine ht.readLine.bind fun separator? t ht ↦ ?_
    cases separator? with
    | none => exact .ok _ ht
    | some separator =>
      dsimp only
      split
      · exact .ok _ ht
      · exact .error _ ht

end PulledAfter

end LineStream

end WebVTT
