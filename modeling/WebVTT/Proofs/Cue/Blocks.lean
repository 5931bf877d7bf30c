import Mathlib.Data.List.Forall2
import WebVTT.Proofs.Session.Drain

/-!
# Blocks and cues

Empty lines set the lines of a stream apart into *blocks*. Where nothing is wrong with any of them,
the blocks are the cues, one for one (`CuesRead.denotes`), and lines whose blocks are cues are read
as these (`CuesRead.append_of_denotes`). No mention of the order of reading is left: what the grammar
does attempt by attempt is here said of the lines as a whole.
-/

namespace WebVTT

/-- The runs of lines that are not empty, each as long as can be. -/
def blocks (texts : List String) : List (List String) := (texts.splitOn "").filter (· ≠ [])

/-- A block is a cue if it opens with its identifier, or without one if that is empty, and with its
times and settings, and if the lines after that are its text, of which there is some. -/
def Denotes (block : List String) (cue : Cue) : Prop :=
  ∃ ls, Opens ls cue.identifier ⟨cue.start, cue.stop, cue.settings⟩ ∧
    block = ls ++ cue.payload ∧ cue.payload ≠ []

/-- The last block of these lines, if there is one, is over. -/
def Closed (texts : List String) : Prop := ∀ text ∈ texts.getLast?, text = ""

/-! ## Taking blocks off -/

@[simp] theorem blocks_nil : blocks [] = [] := rfl

/-- An empty line stands between blocks. -/
theorem blocks_append_blank (texts more : List String) :
    blocks (texts ++ "" :: more) = blocks texts ++ blocks more := by
  rw [blocks, List.splitOn_append_cons_self, List.filter_append]
  rfl

@[simp] theorem blocks_blank (texts : List String) : blocks ("" :: texts) = blocks texts :=
  blocks_append_blank [] texts

/-- Lines none of which is empty are a single block. -/
theorem blocks_of_payload {block : List String} (hblock : Payload block) (hne : block ≠ []) :
    blocks block = [block] := by
  have hblank : "" ∉ block := fun h ↦ hblock "" h rfl
  rw [blocks, List.splitOn_eq_singleton hblank]
  simp [hne]

theorem closed_nil : Closed [] := fun _ h ↦ nomatch h

/-- Lines are closed by an empty one. -/
theorem closed_append_blank (texts : List String) : Closed (texts ++ [""]) := by simp [Closed]

/-- Closed lines are none at all or end with an empty one. -/
theorem Closed.eq_nil_or_append_blank {texts : List String} (h : Closed texts) :
    texts = [] ∨ ∃ init, texts = init ++ [""] := by
  rcases List.eq_nil_or_concat texts with rfl | ⟨init, text, rfl⟩
  · exact .inl rfl
  · have htext : text = "" := h text (by simp)
    exact .inr ⟨init, by simp [htext]⟩

/-- Closed lines stay closed behind others. -/
theorem Closed.append {texts more : List String} (h : Closed texts) (hmore : Closed more) :
    Closed (texts ++ more) := by
  rcases hmore.eq_nil_or_append_blank with rfl | ⟨init, rfl⟩
  · rwa [List.append_nil]
  · rw [← List.append_assoc]
    exact closed_append_blank _

/-- Lines at the end of closed lines are closed. -/
theorem Closed.of_append {texts more : List String} (h : Closed (texts ++ more)) :
    Closed more := by
  intro text htext
  apply h text
  rw [List.getLast?_append, Option.mem_def.mp htext]
  rfl

/-- A block alone is not closed. -/
theorem Payload.not_closed {block : List String} (h : Payload block) (hne : block ≠ []) :
    ¬Closed block := fun hclosed ↦
  h _ (List.getLast_mem hne) (hclosed _ (List.getLast?_eq_some_getLast hne))

/-- No block goes on beyond closed lines. -/
theorem Closed.blocks_append {texts : List String} (h : Closed texts) (more : List String) :
    blocks (texts ++ more) = blocks texts ++ blocks more := by
  rcases h.eq_nil_or_append_blank with rfl | ⟨init, rfl⟩
  · rfl
  · rw [List.append_assoc, List.singleton_append, blocks_append_blank, blocks_append_blank,
      blocks_nil, List.append_nil]

/-- What holds of no lines and of a block, and of lines if it holds of what follows their first
empty line or their first block, holds of all lines. -/
theorem blocks_induction {P : List String → Prop} (nil : P [])
    (last : ∀ block, Payload block → block ≠ [] → P block)
    (blank : ∀ texts, P texts → P ("" :: texts))
    (block : ∀ block texts, Payload block → block ≠ [] → P texts → P (block ++ "" :: texts))
    (texts : List String) : P texts := by
  by_cases hblank : "" ∈ texts
  · obtain ⟨first, more, htexts, hfirst⟩ := List.eq_append_cons_of_mem hblank
    have hshorter : more.length < texts.length := by
      simp only [htexts, List.length_append, List.length_cons]
      omega
    have hmore : P more := blocks_induction nil last blank block more
    by_cases hne : first = []
    · subst hne
      exact htexts ▸ blank more hmore
    · refine htexts ▸ block first more (fun text htext h ↦ hfirst (h ▸ htext)) hne hmore
  · by_cases hne : texts = []
    · exact hne ▸ nil
    · exact last texts (fun text htext h ↦ hblank (h ▸ htext)) hne
termination_by texts.length

/-- No block has an empty line, nor more lines than there are. -/
theorem payload_of_mem_blocks {texts block : List String} (h : block ∈ blocks texts) :
    Payload block ∧ block.length ≤ texts.length := by
  induction texts using blocks_induction with
  | nil => cases h
  | last first hfirst hne =>
    rw [blocks_of_payload hfirst hne, List.mem_singleton] at h
    subst h
    exact ⟨hfirst, Nat.le_refl _⟩
  | blank texts ih =>
    rw [blocks_blank] at h
    exact ⟨(ih h).1, Nat.le_succ_of_le (ih h).2⟩
  | block first texts hfirst hne ih =>
    rw [blocks_append_blank, blocks_of_payload hfirst hne, List.singleton_append,
      List.mem_cons] at h
    rw [List.length_append, List.length_cons]
    rcases h with rfl | h
    · exact ⟨hfirst, by omega⟩
    · obtain ⟨hblock, hle⟩ := ih h
      exact ⟨hblock, by omega⟩

/-- Every cue is a block. -/
theorem exists_denotes_of_mem {blocks : List (List String)} {cues : List Cue} {cue : Cue}
    (h : List.Forall₂ Denotes blocks cues) (hcue : cue ∈ cues) :
    ∃ block ∈ blocks, Denotes block cue := by
  induction h with
  | nil => cases hcue
  | @cons block _ _ _ hdenotes _ ih =>
    rcases List.mem_cons.mp hcue with rfl | hcue
    · exact ⟨block, List.mem_cons_self, hdenotes⟩
    · obtain ⟨block', hblock', hdenotes'⟩ := ih hcue
      exact ⟨block', List.mem_cons_of_mem _ hblock', hdenotes'⟩

/-- A cue has no more lines of text than the lines it is found in. -/
theorem length_payload_le {texts : List String} {cues : List Cue} {cue : Cue}
    (h : List.Forall₂ Denotes (blocks texts) cues) (hcue : cue ∈ cues) :
    cue.payload.length ≤ texts.length := by
  obtain ⟨block, hblock, ls, -, rfl, -⟩ := exists_denotes_of_mem h hcue
  have hle := (payload_of_mem_blocks hblock).2
  rw [List.length_append] at hle
  exact Nat.le_of_add_left_le hle

/-! ## From attempts to blocks -/

/-- An attempt that comes off has taken the lines of the cue it yields, and no other block. It leaves
nothing if it yields no cue, and where it leaves anything, the block is over. -/
theorem CueRead.denotes {limits : Limits} {line line' : Nat} {rs rs' : List LineRead}
    {cue? : Option Cue} (h : CueRead limits line rs (.ok cue?) line' rs') :
    ∃ texts, rs = texts.map .ok ++ rs' ∧ line' = line + texts.length ∧ (Closed texts ∨ rs' = []) ∧
      List.Forall₂ Denotes (blocks texts) cue?.toList ∧
      (∀ cue ∈ cue?, cue.payload.length ≤ limits.maxPayloadLines.toNat) ∧
      (cue? = none → rs' = []) := by
  generalize hout : (.ok cue? : Except Violation (Option Cue)) = out at h
  induction h with
  | ended =>
    cases hout
    exact ⟨[], rfl, rfl, .inr rfl, .nil, by simp, fun _ ↦ rfl⟩
  | blank _ ih =>
    obtain ⟨texts, rfl, rfl, hclosed, hdenotes, hlength, hnone⟩ := ih hout
    refine ⟨"" :: texts, rfl, ?_, ?_, by simpa using hdenotes, hlength, hnone⟩
    · rw [List.length_cons]
      omega
    · exact hclosed.imp_left (closed_append_blank []).append
  | @cue line closing ls payload identifier timings rs rs' hopens hpayload hne hlength hclosing =>
    cases hout
    have hblock : blocks (ls ++ payload) = [ls ++ payload] :=
      blocks_of_payload (hopens.payload.append hpayload) (by simp [hne])
    have hdenotes : Denotes (ls ++ payload)
        ⟨identifier, timings.start, timings.stop, timings.settings, payload⟩ :=
      ⟨ls, hopens, rfl, hne⟩
    have hcue : List.Forall₂ Denotes (blocks (ls ++ payload))
        [⟨identifier, timings.start, timings.stop, timings.settings, payload⟩] := by
      rw [hblock]
      exact .cons hdenotes .nil
    cases hclosing with
    | ended =>
      refine ⟨ls ++ payload, rfl, ?_, .inr rfl, hcue, by simpa using hlength, nofun⟩
      rw [List.length_append, Nat.add_assoc, Nat.add_zero, Nat.add_assoc]
    | blank =>
      refine ⟨ls ++ payload ++ [""], by simp, ?_, .inl (closed_append_blank _), ?_,
        by simpa using hlength, nofun⟩
      · simp only [List.length_append, List.length_singleton]
        omega
      · rwa [blocks_append_blank, blocks_nil, List.append_nil]
  | _ => cases hout

section Sequences

variable {limits : Limits} {line : Nat} {rs : List LineRead} {cues : List Cue}
  {outs : List (Except Violation Cue)}

/-- Attempts that come off have taken the lines of the cues they yield, and no other block. -/
theorem CuesRead.exists_of_append (h : CuesRead limits line rs (cues.map .ok ++ outs)) :
    ∃ texts rest, rs = texts.map .ok ++ rest ∧ (Closed texts ∨ rest = []) ∧
      List.Forall₂ Denotes (blocks texts) cues ∧
      (∀ cue ∈ cues, cue.payload.length ≤ limits.maxPayloadLines.toNat) ∧
      CuesRead limits (line + texts.length) rest outs := by
  induction cues generalizing line rs with
  | nil => exact ⟨[], rs, rfl, .inl closed_nil, .nil, by simp, h⟩
  | cons c cues ih =>
    cases h with
    | cue hcue hmore =>
      obtain ⟨texts, rfl, rfl, hclosed, hdenotes, hlength, -⟩ := hcue.denotes
      obtain ⟨texts', rest, rfl, hclosed', hdenotes', hlength', hrest⟩ := ih hmore
      have hblocks : blocks (texts ++ texts') = blocks texts ++ blocks texts' := by
        rcases hclosed with hclosed | hnothing
        · exact hclosed.blocks_append texts'
        · have htexts' : texts' = [] := by simpa using (List.append_eq_nil_iff.mp hnothing).1
          rw [htexts', blocks_nil, List.append_nil, List.append_nil]
      refine ⟨texts ++ texts', rest, by simp, ?_, ?_, ?_, ?_⟩
      · rcases hclosed with hclosed | hnothing
        · exact hclosed'.imp_left hclosed.append
        · exact .inr (List.append_eq_nil_iff.mp hnothing).2
      · rw [hblocks]
        exact List.rel_append hdenotes hdenotes'
      · simpa using ⟨hlength c rfl, hlength'⟩
      · rwa [List.length_append, ← Nat.add_assoc]

/-- Where every attempt comes off, the blocks are the cues. -/
theorem CuesRead.denotes (h : CuesRead limits line rs (cues.map .ok)) :
    ∃ texts, rs = texts.map .ok ∧ List.Forall₂ Denotes (blocks texts) cues ∧
      ∀ cue ∈ cues, cue.payload.length ≤ limits.maxPayloadLines.toNat := by
  rw [← List.append_nil (cues.map _)] at h
  obtain ⟨texts, rest, rfl, hclosed, hdenotes, hlength, hrest⟩ := h.exists_of_append
  cases hrest with
  | ended hend =>
    obtain ⟨texts', rfl, -, -, hnone, -, hleft⟩ := hend.denotes
    obtain rfl := hleft rfl
    refine ⟨texts ++ texts', by simp, ?_, hlength⟩
    have hblocks : blocks texts' = [] := by simpa using hnone
    rcases hclosed with hclosed | hnothing
    · rwa [hclosed.blocks_append, hblocks, List.append_nil]
    · have htexts' : texts' = [] := by simpa using hnothing
      rwa [htexts', List.append_nil]

/-! ## From blocks to attempts -/

/-- A block that is a cue is read as that, whatever comes after it. -/
theorem CuesRead.cons_of_denotes {block : List String} {cue : Cue} {closing : Nat}
    {rs' : List LineRead} (hcue : Denotes block cue) (hblock : Payload block)
    (hlength : cue.payload.length ≤ limits.maxPayloadLines.toNat) (hclosing : Closing rs closing rs')
    (hmore : CuesRead limits (line + block.length + closing) rs' outs) :
    CuesRead limits line (block.map .ok ++ rs) (.ok cue :: outs) := by
  obtain ⟨ls, hopens, rfl, hne⟩ := hcue
  rw [List.length_append, ← Nat.add_assoc] at hmore
  have hpayload : Payload cue.payload := fun text h ↦ hblock text (List.mem_append_right ls h)
  exact .cue (.cue hopens hpayload hne hlength hclosing) hmore

/-- Lines whose blocks are cues are read as these, and what follows them as if nothing had come
before. -/
theorem CuesRead.append_of_denotes {texts : List String}
    (hcues : List.Forall₂ Denotes (blocks texts) cues) (hclosed : Closed texts ∨ rs = [])
    (hlength : ∀ cue ∈ cues, cue.payload.length ≤ limits.maxPayloadLines.toNat)
    (hmore : CuesRead limits (line + texts.length) rs outs) :
    CuesRead limits line (texts.map .ok ++ rs) (cues.map .ok ++ outs) := by
  induction texts using blocks_induction generalizing line cues with
  | nil =>
    cases hcues
    exact hmore
  | blank texts ih =>
    rw [blocks_blank] at hcues
    refine .blank (ih hcues ?_ hlength ?_)
    · exact hclosed.imp_left (@Closed.of_append [""] texts)
    · rwa [Nat.add_assoc, Nat.add_comm 1, ← List.length_cons]
  | last block hblock hne =>
    obtain rfl := hclosed.resolve_left (hblock.not_closed hne)
    rw [blocks_of_payload hblock hne] at hcues
    obtain ⟨cue, _, hcue, hnone, rfl⟩ := List.forall₂_cons_left_iff.mp hcues
    cases hnone
    exact .cons_of_denotes hcue hblock (hlength cue List.mem_cons_self) .ended hmore
  | block block texts hblock hne ih =>
    rw [blocks_append_blank, blocks_of_payload hblock hne] at hcues
    obtain ⟨cue, cues, hcue, hothers, rfl⟩ := List.forall₂_cons_left_iff.mp hcues
    rw [List.map_append, List.append_assoc]
    refine .cons_of_denotes hcue hblock (hlength cue List.mem_cons_self) .blank ?_
    refine ih hothers ?_ (fun c hc ↦ hlength c (List.mem_cons_of_mem cue hc)) ?_
    · exact hclosed.imp_left fun h ↦ @Closed.of_append [""] texts h.of_append
    · rwa [Nat.add_assoc, Nat.add_assoc, Nat.add_comm 1, ← List.length_cons, ← List.length_append]

/-- Lines whose blocks are cues are read as these. -/
theorem CuesRead.of_denotes {texts : List String}
    (hcues : List.Forall₂ Denotes (blocks texts) cues)
    (hlength : ∀ cue ∈ cues, cue.payload.length ≤ limits.maxPayloadLines.toNat) :
    CuesRead limits line (texts.map .ok) (cues.map .ok) := by
  rw [← List.append_nil (texts.map _), ← List.append_nil (cues.map _)]
  exact .append_of_denotes hcues (.inr rfl) hlength (.ended (.ended _))

end Sequences

end WebVTT
