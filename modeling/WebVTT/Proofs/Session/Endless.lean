import WebVTT.Proofs.Session.Interchange

/-!
# Streams that never end

Nothing bounds what a supply without end can still deliver, so it is no `Source`. It is one once it is
cut off: a `Curtailed` supply is taken to have ended after a number of pulls, and up to there it yields
just what the supply does (`Curtailed.eventsOf_eq`). The number can be as large as one likes, and
whatever holds of every source holds of the supply, cut off anywhere.

A session over a supply cut off is one over the script of its first events
(`Session.interchangeable_curtailed`). As long as it has not come to the cut, all that it has pulled
are events of the supply (`Session.exists_pulled_curtailed`).
-/

namespace WebVTT

variable {σ : Type}

/-! ## The first events -/

/-- What so many pulls yield. -/
def eventsOf (pull : σ → Event × σ) : Nat → σ → List Event
  | 0, _ => []
  | n + 1, s => (pull s).1 :: eventsOf pull n (pull s).2

theorem Source.eventsOf_succ [Source σ] (n : Nat) (s : σ) :
    eventsOf next (n + 1) s = eventsOf next n s ++ [(next (pulled^[n] s)).1] := by
  induction n generalizing s with
  | zero => rfl
  | succ n ih =>
    rw [eventsOf, ih, Function.iterate_succ_apply]
    rfl

/-! ## Supplies cut off -/

/-- A supply that is taken to have ended after so many pulls more. -/
structure Curtailed (pull : σ → Event × σ) where
  /-- The supply as it is now. -/
  supply : σ
  /-- How often it is still pulled from. -/
  left : Nat

namespace Curtailed

variable {pull : σ → Event × σ}

/-- Pull from the supply, unless it is cut off here. -/
def next : Curtailed pull → Event × Curtailed pull
  | ⟨supply, 0⟩ => (.ended, ⟨supply, 0⟩)
  | ⟨supply, left + 1⟩ => ((pull supply).1, ⟨(pull supply).2, left⟩)

/-- However many bytes there are to come, no more are delivered than pulls are left. -/
instance : Source (Curtailed pull) where
  next := next
  size s := s.left
  size_next_le s := by
    obtain ⟨supply, _ | left⟩ := s
    · exact Nat.le_refl 0
    · exact Nat.add_le_add_left (pull supply).1.weight_le_one left

/-- The events up to the cut are those of the supply, and after it there are none. -/
theorem eventsOf_eq (supply : σ) (n k : Nat) :
    eventsOf Source.next k (⟨supply, n⟩ : Curtailed pull) =
      eventsOf pull (min k n) supply ++ List.replicate (k - n) .ended := by
  induction k generalizing supply n with
  | zero =>
    rw [Nat.zero_min, Nat.zero_sub]
    rfl
  | succ k ih =>
    cases n with
    | zero =>
      have hrest := ih supply 0
      rw [Nat.min_zero, Nat.sub_zero] at hrest
      rw [Nat.min_zero, Nat.sub_zero, List.replicate_succ]
      exact congrArg (Event.ended :: ·) hrest
    | succ n =>
      rw [Nat.succ_min_succ, Nat.succ_sub_succ]
      exact congrArg ((pull supply).1 :: ·) (ih (pull supply).2 n)

/-- A supply cut off yields what the script of its first events does. -/
theorem bisimulation :
    Source.Bisimulation fun (s : Curtailed pull) (t : Script) ↦
      t = ⟨eventsOf pull s.left s.supply⟩ := by
  rintro ⟨supply, _ | left⟩ _ rfl
  · exact ⟨rfl, rfl⟩
  · exact ⟨rfl, rfl⟩

end Curtailed

/-! ## Sessions over them -/

namespace Session

/-- Sessions make no difference between a supply cut off and the script of its first events. -/
theorem interchangeable_curtailed (pull : σ → Event × σ) (supply : σ) (n : Nat) :
    Interchangeable (⟨supply, n⟩ : Curtailed pull) (Script.mk (eventsOf pull n supply)) :=
  interchangeable_of_bisimulation Curtailed.bisimulation rfl

/-- Calls pull the first events that a source yields. -/
theorem pulled_eq_eventsOf [Source σ] (source : σ) (limits : Limits) (calls : List Call) :
    pulled source limits calls = eventsOf Source.next (pulled source limits calls).length source := by
  let B (s : Recorded σ) (t : σ) : Prop :=
    s.source = t ∧ t = Source.pulled^[s.pulled.length] source ∧
      s.pulled = eventsOf Source.next s.pulled.length source
  have hB : Source.Bisimulation B := by
    rintro s _ ⟨rfl, hsource, hpulled⟩
    refine ⟨rfl, rfl, ?_, ?_⟩
    · rw [Recorded.pulled_next, List.length_append, List.length_singleton,
        Function.iterate_succ_apply', ← hsource]
      rfl
    · rw [Recorded.pulled_next, List.length_append, List.length_singleton, Source.eventsOf_succ,
        ← hpulled, ← hsource]
      rfl
  have hsource : B (Recorded.ofSource source) source := ⟨rfl, rfl, rfl⟩
  obtain ⟨-, -, hover⟩ := run_of_bisimulation hB hsource limits calls
  exact hover.source.2.2

/-- Calls pull the first events of a supply, and find it ended if they come to the cut. -/
theorem exists_pulled_curtailed (pull : σ → Event × σ) (supply : σ) (n : Nat) (limits : Limits)
    (calls : List Call) :
    ∃ k, pulled (⟨supply, n⟩ : Curtailed pull) limits calls =
      eventsOf pull (min k n) supply ++ List.replicate (k - n) .ended := by
  refine ⟨(pulled (⟨supply, n⟩ : Curtailed pull) limits calls).length, ?_⟩
  rw [← Curtailed.eventsOf_eq]
  exact pulled_eq_eventsOf _ limits calls

end Session

end WebVTT
