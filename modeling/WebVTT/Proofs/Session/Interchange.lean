import WebVTT.Proofs.Session.Sources
import WebVTT.Proofs.Source.Delivery
import WebVTT.Source.Held
import WebVTT.Source.Retrying

/-!
# Sources are interchangeable

Sources differ in what they are made of and in how much they do at a pull: some look a byte up,
some pass the pull on, and some try again and again until they have something to say. None of this
shows in what is read. Each source is related to the plain list of the events that it yields, step
by step (`Source.Bisimulation`), and so sessions over them are answered the same and leave the same
notices (`Session.Interchangeable`).
-/

namespace WebVTT

open Source (Bisimulation Delivers)

/-! ## Sources that yield the same -/

/-- A pull that is passed on yields what the source itself does. -/
theorem Held.bisimulation {σ : Type} [Source σ] :
    Bisimulation fun (s : σ) (t : Held σ) ↦ t.source = s := by
  rintro _ t rfl
  exact ⟨rfl, rfl⟩

/-- All deliveries of the same bytes are alike. -/
theorem Source.Delivers.bisimulation {σ τ : Type} [Source σ] [Source τ] :
    Bisimulation fun (s : σ) (t : τ) ↦ ∃ bytes, Delivers s bytes ∧ Delivers t bytes := by
  rintro s t ⟨bytes, hs, ht⟩
  cases bytes with
  | nil =>
    exact ⟨hs.next_nil.1.trans ht.next_nil.1.symm, [], hs.next_nil.2, ht.next_nil.2⟩
  | cons b bytes =>
    exact ⟨hs.next_cons.1.trans ht.next_cons.1.symm, bytes, hs.next_cons.2, ht.next_cons.2⟩

namespace Retrying

/-- The events of these reads that are not interruptions. -/
def settled (reads : List Event) : List Event := reads.filter fun e ↦ !e.isInterruption

/-- However often a read is made again, it comes to the first event that is not an interruption. -/
theorem firstSettled_eq (reads : List Event) :
    (firstSettled reads).1 = (Script.next ⟨settled reads⟩).1 ∧
      (Script.next ⟨settled reads⟩).2 = ⟨settled (firstSettled reads).2⟩ := by
  induction reads with
  | nil => exact ⟨rfl, rfl⟩
  | cons e rest ih =>
    cases he : e.isInterruption with
    | true =>
      have hsettled : settled (e :: rest) = settled rest := List.filter_cons_of_neg (by simp [he])
      rw [firstSettled, if_pos he, hsettled]
      exact ih
    | false =>
      have hsettled : settled (e :: rest) = e :: settled rest :=
        List.filter_cons_of_pos (by simp [he])
      rw [firstSettled, if_neg (by simp [he]), hsettled]
      exact ⟨rfl, rfl⟩

/-- Reads that are made again yield what is left without the interruptions. -/
theorem bisimulation :
    Bisimulation fun (s : Retrying) (t : Script) ↦ t = ⟨settled s.reads⟩ := by
  rintro ⟨reads⟩ _ rfl
  exact firstSettled_eq reads

/-- Reads that find bytes only deliver them. -/
theorem delivers (bytes : List UInt8) : Delivers (Retrying.mk (bytes.map .byte)) bytes := by
  refine Delivers.of_step (P := fun s bytes ↦ s = ⟨bytes.map .byte⟩) ?_ ?_ rfl
  · rintro _ b bytes rfl
    exact ⟨rfl, rfl⟩
  · rintro _ rfl
    exact ⟨rfl, rfl⟩

end Retrying

/-! ## Sessions over them -/

namespace Session

variable {σ τ : Type} [Source σ] [Source τ]

/-- Whatever is called, sessions over these sources give the same answers, count the same lines by
each of them, and leave the same notices. -/
def Interchangeable (source : σ) (source' : τ) : Prop :=
  ∀ limits calls, (run source limits calls).1 = (run source' limits calls).1 ∧
    (run source limits calls).2.notices = (run source' limits calls).2.notices

theorem interchangeable_of_bisimulation {B : σ → τ → Prop} (hB : Bisimulation B) {source : σ}
    {source' : τ} (h : B source source') : Interchangeable source source' := by
  intro limits calls
  obtain ⟨hanswers, -, hover⟩ := run_of_bisimulation hB h limits calls
  exact ⟨hanswers, hover.notices_eq⟩

theorem interchangeable_of_delivers {bytes : List UInt8} {source : σ} {source' : τ}
    (h : Delivers source bytes) (h' : Delivers source' bytes) : Interchangeable source source' :=
  interchangeable_of_bisimulation Delivers.bisimulation ⟨bytes, h, h'⟩

/-- Reads that are made again after an interruption come to the same as their events without the
interruptions, one a pull. A source that is held, by reference or in a box, comes to the same as the
source itself, and so bytes in memory do, held or not, and the same bytes when they are read. -/
theorem interchangeable_sources :
    (∀ reads : List Event, Interchangeable (Retrying.mk reads)
        (Script.mk (reads.filter fun e ↦ !e.isInterruption))) ∧
      (∀ {σ : Type} [Source σ] (source : σ), Interchangeable source (Held.mk source)) ∧
      ∀ bytes : ByteArray,
        Interchangeable ({ bytes } : Slice) (Held.mk ({ bytes } : Slice)) ∧
          Interchangeable ({ bytes } : Slice) (Retrying.mk (bytes.data.toList.map .byte)) := by
  have hheld : ∀ {σ : Type} [Source σ] (source : σ), Interchangeable source (Held.mk source) := by
    intro σ _ source
    exact interchangeable_of_bisimulation Held.bisimulation rfl
  refine ⟨?_, hheld, ?_⟩
  · intro reads
    exact interchangeable_of_bisimulation Retrying.bisimulation rfl
  · intro bytes
    refine ⟨hheld _, ?_⟩
    have hslice : Delivers ({ bytes } : Slice) bytes.data.toList := by
      have hdelivers := Slice.delivers { bytes }
      rwa [Slice.toList_remaining, List.drop_zero] at hdelivers
    exact interchangeable_of_delivers hslice (Retrying.delivers _)

end Session

end WebVTT
