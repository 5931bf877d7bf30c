import WebVTT.Proofs.Cue.Blocks
import WebVTT.Proofs.Cue.Cases
import WebVTT.Proofs.LineStream.Position
import WebVTT.Proofs.Session.Cases

/-!
# Going on after errors that can be mended

An error that the author of a stream can mend is found once the line at fault has been taken as a
whole. So whoever goes on after such errors only, asks for every cue where a line begins, and no cue
is made of a part of a line or of a line that another cue is made of (`Session.inOrder_pursue`).
-/

namespace WebVTT

/-- The cues come from a stream in this order, and from its lines from line `k` on: each is what a
block of whole lines denotes, and the block of the next one begins after it. -/
inductive Cue.InOrder (bytes : List UInt8) : Nat → List Cue → Prop where
  | nil (k : Nat) : InOrder bytes k []
  | cons {k first : Nat} {block : List String} {cue : Cue} {cues : List Cue} :
      k ≤ first → Denotes block cue → Line.TextsFrom bytes first block →
      InOrder bytes (first + block.length) cues → InOrder bytes k (cue :: cues)

/-- Cues that come from later lines come from earlier ones on. -/
theorem Cue.InOrder.mono {bytes : List UInt8} {k n : Nat} {cues : List Cue}
    (h : InOrder bytes n cues) (hk : k ≤ n) : InOrder bytes k cues := by
  cases h with
  | nil => exact .nil k
  | cons hfirst hdenotes htexts hmore => exact .cons (Nat.le_trans hk hfirst) hdenotes htexts hmore

/-- How an attempt at a cue comes out that is made before line `k`. Unless it is refused for a
reason that cannot be mended, it ends before another line, and a cue comes from lines between. -/
inductive AttemptFrom {S : Type} (bytes : List UInt8) (Stands : Nat → S → Prop) (k : Nat) :
    EStateM.Result Error S (Option Cue) → Prop where
  | ended {n : Nat} {t : S} : k ≤ n → Stands n t → AttemptFrom bytes Stands k (.ok none t)
  | cue {first n : Nat} {block : List String} {cue : Cue} {t : S} :
      k ≤ first → Denotes block cue → Line.TextsFrom bytes first block →
      first + block.length ≤ n → Stands n t → AttemptFrom bytes Stands k (.ok (some cue) t)
  | error {e : Error} {t : S} : (e.isUserFixable → ∃ n, k ≤ n ∧ Stands n t) →
      AttemptFrom bytes Stands k (.error e t)

namespace LineStream

variable {σ : Type} [Source σ] {s t : LineStream σ} {limits : Limits} {bytes : List UInt8} {k : Nat}

/-- The end of a block is the end of a line. -/
theorem StandsBefore.of_closes (h : s.StandsBefore limits bytes k) (hcloses : Closes s t) :
    ∃ n, k ≤ n ∧ t.StandsBefore limits bytes n := by
  cases hcloses with
  | ended hread => exact ⟨k, Nat.le_refl k, h.of_ended hread (Nat.le_refl k)⟩
  | blank hread => exact ⟨k + 1, Nat.le_succ k, (h.of_text hread).2⟩

/-- From a place between lines, an attempt at a cue goes to another one. -/
theorem StandsBefore.readCue (h : s.StandsBefore limits bytes k) :
    AttemptFrom bytes (fun n t ↦ t.StandsBefore limits bytes n) k (LineStream.readCue s) := by
  obtain ⟨count, u, hblanks, hcase⟩ := exists_blockCase s
  obtain ⟨-, hu⟩ := h.of_readsLines hblanks
  rw [List.length_replicate] at hu
  have hk : k ≤ k + count := Nat.le_add_right k count
  generalize LineStream.readCue s = result at hcase ⊢
  cases hcase with
  | ended hread => exact .ended hk (hu.of_ended hread (Nat.le_refl _))
  | @unreadable v w ls e hbegun hlines hread =>
    refine .error fun hfixable ↦ ⟨k + count + ls.length + 1, by omega, ?_⟩
    exact (hu.of_readsLines hlines).2.of_fixable hread hfixable
  | unfinished _ _ hlines hread =>
    exact .error fun _ ↦ ⟨k + count + 1, by omega, (hu.of_readsLines hlines).2.of_ended hread
      (Nat.le_refl _)⟩
  | untimed _ _ _ hlines =>
    exact .error fun _ ↦ ⟨k + count + 2, by omega, (hu.of_readsLines hlines).2⟩
  | mistimed _ _ hlines =>
    exact .error fun _ ↦ ⟨_, Nat.le_trans hk (Nat.le_add_right _ _), (hu.of_readsLines hlines).2⟩
  | overfull => exact .error fun hfixable ↦ nomatch hfixable
  | textless _ hlines hcloses =>
    obtain ⟨n, hn, ht⟩ := (hu.of_readsLines hlines).2.of_closes hcloses
    exact .error fun _ ↦ ⟨n, by omega, ht⟩
  | @cue v w ls payload identifier timings hopens _ hne _ hlines hcloses =>
    obtain ⟨htexts, hv⟩ := hu.of_readsLines hlines
    obtain ⟨n, hn, ht⟩ := hv.of_closes hcloses
    exact .cue hk ⟨ls, hopens, rfl, hne⟩ htexts hn ht

end LineStream

namespace Session

variable {σ : Type} [Source σ] {s t : Session σ} {limits : Limits} {bytes : List UInt8} {k : Nat}

/-- Ask for so many cues, one after the other, as long as there is none that is refused for a reason
that cannot be mended. Each answer comes with the session that was asked. -/
def pursue : Nat → Session σ → List (Session σ × Except Error (Option Cue))
  | 0, _ => []
  | count + 1, s =>
    match nextCue s with
    | .ok cue? t => (s, .ok cue?) :: pursue count t
    | .error e t => (s, .error e) :: if e.isUserFixable then pursue count t else []

/-- The cues among the answers. -/
def pursued (count : Nat) (s : Session σ) : List Cue :=
  (pursue count s).filterMap fun attempt ↦ attempt.2.toOption.join

/-- The header has been read, and the stream stands before line `k`. -/
def StandsBefore (limits : Limits) (bytes : List UInt8) (k : Nat) (s : Session σ) : Prop :=
  s.phase = .atCues ∧ s.stream.StandsBefore limits bytes k

/-- From a place between lines, asking for a cue goes to another one. -/
theorem StandsBefore.nextCue (h : s.StandsBefore limits bytes k) :
    AttemptFrom bytes (StandsBefore limits bytes) k (Session.nextCue s) := by
  obtain ⟨hphase, hstands⟩ := h
  have hattempt := hstands.readCue
  have hcase := cueCase_nextCue s
  generalize Session.nextCue s = result at hcase ⊢
  cases hcase with
  | early hearly => cases hphase.symm.trans hearly
  | useless huseless => cases hphase.symm.trans huseless
  | read _ hread =>
    rw [hread] at hattempt
    cases hattempt with
    | ended hn ht => exact .ended hn ⟨rfl, ht.note _⟩
    | cue hfirst hdenotes htexts hn ht => exact .cue hfirst hdenotes htexts hn ⟨rfl, ht.note _⟩
  | refused _ hread =>
    rw [hread] at hattempt
    cases hattempt with
    | error hmended =>
      refine .error fun hfixable ↦ ?_
      obtain ⟨n, hn, ht⟩ := hmended hfixable
      exact ⟨n, hn, rfl, ht.note _⟩

/-- Going on goes from one place between lines to another, and the cues on the way come from the
lines between them. -/
theorem StandsBefore.pursue (h : s.StandsBefore limits bytes k) (count : Nat) :
    (∀ attempt ∈ Session.pursue count s, ∃ n, attempt.1.StandsBefore limits bytes n) ∧
      Cue.InOrder bytes k (pursued count s) := by
  induction count generalizing s k with
  | zero => exact ⟨fun _ hattempt ↦ (nomatch hattempt), .nil k⟩
  | succ count ih =>
    have hattempt := h.nextCue
    unfold pursued Session.pursue
    generalize Session.nextCue s = result at hattempt ⊢
    cases hattempt with
    | ended hn ht =>
      obtain ⟨hplaces, hcues⟩ := ih ht
      exact ⟨List.forall_mem_cons.mpr ⟨⟨k, h⟩, hplaces⟩, hcues.mono hn⟩
    | cue hfirst hdenotes htexts hn ht =>
      obtain ⟨hplaces, hcues⟩ := ih ht
      exact ⟨List.forall_mem_cons.mpr ⟨⟨k, h⟩, hplaces⟩,
        .cons hfirst hdenotes htexts (hcues.mono hn)⟩
    | @error e t hmended =>
      dsimp only
      by_cases hfixable : e.isUserFixable
      · obtain ⟨n, hn, ht⟩ := hmended hfixable
        obtain ⟨hplaces, hcues⟩ := ih ht
        rw [if_pos hfixable]
        exact ⟨List.forall_mem_cons.mpr ⟨⟨k, h⟩, hplaces⟩, hcues.mono hn⟩
      · rw [if_neg hfixable]
        exact ⟨List.forall_mem_singleton.mpr ⟨k, h⟩, .nil k⟩

/-- After its header a session stands before the third line. -/
theorem standsBefore_of_readHeader {source : σ} {header : Header}
    (hsource : Source.Delivers source bytes)
    (hok : readHeader (ofSource source limits) = .ok header s) : s.StandsBefore limits bytes 2 := by
  obtain ⟨t, hread, rfl⟩ := exists_of_readHeader_ofSource hok
  exact ⟨rfl, ((LineStream.at_ofSource hsource).standsBefore_of_readHeader hread).note _⟩

/-- After a header that is accepted, whoever goes on after errors that can be mended asks for every
cue at the beginning of a line or at the end of the stream, and the cues come from whole lines after
the header, one after the other. -/
theorem inOrder_pursue {source : σ} {header : Header} (hsource : Source.Delivers source bytes)
    (hok : readHeader (ofSource source limits) = .ok header s) (count : Nat) :
    (∀ attempt ∈ pursue count s, ∃ n, attempt.1.stream.StandsBefore limits bytes n) ∧
      Cue.InOrder bytes 2 (pursued count s) := by
  obtain ⟨hplaces, hcues⟩ := (standsBefore_of_readHeader hsource hok).pursue count
  refine ⟨fun attempt hattempt ↦ ?_, hcues⟩
  obtain ⟨n, -, hn⟩ := hplaces attempt hattempt
  exact ⟨n, hn⟩

/-- The cue after a block without timings comes from the fifth line and the sixth. -/
theorem inOrder_pursue_sample :
    ∃ header s, readHeader (ofSource (Slice.ofString "WEBVTT\n\nA\nB\n0:1 --> 0:2\nC")) =
        .ok header s ∧
      pursued 2 s = [{ start := ⟨0, 0, 1, 0⟩, stop := ⟨0, 0, 2, 0⟩, payload := ["C"] }] ∧
      (∀ attempt ∈ pursue 2 s, ∃ n, attempt.1.stream.StandsBefore {}
        (Text.encode "WEBVTT\n\nA\nB\n0:1 --> 0:2\nC") n) ∧
      Cue.InOrder (Text.encode "WEBVTT\n\nA\nB\n0:1 --> 0:2\nC") 2 (pursued 2 s) := by
  have hcues : (match readHeader (ofSource (Slice.ofString "WEBVTT\n\nA\nB\n0:1 --> 0:2\nC")) with
      | .ok _ s => pursued 2 s
      | .error .. => []) = [{ start := ⟨0, 0, 1, 0⟩, stop := ⟨0, 0, 2, 0⟩, payload := ["C"] }] := by
    decide +kernel
  cases hok : readHeader (ofSource (Slice.ofString "WEBVTT\n\nA\nB\n0:1 --> 0:2\nC")) with
  | ok header s =>
    rw [hok] at hcues
    exact ⟨header, s, rfl, hcues, inOrder_pursue (Slice.delivers_ofString _) hok 2⟩
  | error e s =>
    rw [hok] at hcues
    cases hcues

end Session

end WebVTT
