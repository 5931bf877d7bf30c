import WebVTT.Proofs.Cue.Blocks
import WebVTT.Proofs.Document.Reading
import WebVTT.Proofs.Lines.Truncation

/-!
# A stream cut short makes up nothing

A stream that is cut at some byte may still be a document. It then has the cues of the whole, up to
the one where the stream is cut, and that one has lost nothing but text
(`Document.read_of_isPrefix`): a cut before the first line of text leaves a block that is no cue, so
a time or a setting that was cut short is never taken for a whole one.
-/

namespace WebVTT

/-- The first cue has no other text than the second, and everything else in common with it. -/
structure Cue.Truncates (c' c : Cue) : Prop where
  identifier_eq : c'.identifier = c.identifier
  start_eq : c'.start = c.start
  stop_eq : c'.stop = c.stop
  settings_eq : c'.settings = c.settings
  payload_ne_nil : c'.payload ≠ []
  payload : WebVTT.Truncates ShortenedText c'.payload c.payload

/-! ## Blocks -/

/-- A block that is cut has no empty line. -/
theorem Payload.of_cut {block' block : List String} (h : Payload block)
    (hcut : Cut ShortenedText block' block) : Payload block' :=
  hcut.forall_mem h fun _ _ h ↦ h.1

/-- A block that is cut is cut from the block, unless nothing is left of it. -/
theorem Payload.cut_blocks {block' block : List String} (h : Payload block)
    (hcut : Cut ShortenedText block' block) (more : List (List String)) :
    Cut (Cut ShortenedText) (blocks block') (block :: more) := by
  by_cases hne : block' = []
  · subst hne
    exact .nil _
  · rw [blocks_of_payload (h.of_cut hcut) hne]
    exact .last more hcut

/-- Nothing is left of an empty line but the line. -/
theorem eq_nil_or_blank_of_cut {texts' texts : List String}
    (hcut : Cut ShortenedText texts' ("" :: texts)) :
    texts' = [] ∨ ∃ more, texts' = "" :: more ∧ Cut ShortenedText more texts := by
  cases hcut with
  | nil => exact .inl rfl
  | last _ hshort =>
    exact absurd (String.toList_eq_nil_iff.mp (List.prefix_nil.mp hshort.2)) hshort.1
  | cons _ hmore => exact .inr ⟨_, rfl, hmore⟩

/-- Lines that are cut have the blocks of the lines, cut. -/
theorem cut_blocks {texts' texts : List String} (hcut : Cut ShortenedText texts' texts) :
    Cut (Cut ShortenedText) (blocks texts') (blocks texts) := by
  induction texts using blocks_induction generalizing texts' with
  | nil =>
    cases hcut
    exact .nil _
  | last block hblock hne =>
    rw [blocks_of_payload hblock hne]
    exact hblock.cut_blocks hcut []
  | blank texts ih =>
    rw [blocks_blank]
    rcases eq_nil_or_blank_of_cut hcut with rfl | ⟨more, rfl, hmore⟩
    · exact .nil _
    · rw [blocks_blank]
      exact ih hmore
  | block block texts hblock hne ih =>
    rw [blocks_append_blank, blocks_of_payload hblock hne, List.singleton_append]
    rcases hcut.append_cases with hwithin | ⟨rest, rfl, hbehind⟩
    · exact hblock.cut_blocks hwithin _
    rcases eq_nil_or_blank_of_cut hbehind with rfl | ⟨more, rfl, hmore⟩
    · rw [List.append_nil, blocks_of_payload hblock hne]
      exact .cons block (.nil _)
    · rw [blocks_append_blank, blocks_of_payload hblock hne, List.singleton_append]
      exact .cons block (ih hmore)

/-! ## Cues -/

/-- A block opens in one way only. -/
theorem Opens.unique {ls ls' more more' : List String} {identifier identifier' : String}
    {timings timings' : Timings} (h : Opens ls identifier timings)
    (h' : Opens ls' identifier' timings') (hmore : ls ++ more = ls' ++ more') :
    identifier = identifier' ∧ timings = timings' ∧ more = more' := by
  obtain ⟨line, hopening, hparse⟩ := h
  obtain ⟨line', hopening', hparse'⟩ := h'
  obtain ⟨-, hidentifier, rfl, hmore⟩ := hopening.unique hopening' hmore
  rw [hparse] at hparse'
  exact ⟨hidentifier, Except.ok.inj hparse', hmore⟩

/-- A block is one cue only. -/
theorem Denotes.unique {block : List String} {cue cue' : Cue} (h : Denotes block cue)
    (h' : Denotes block cue') : cue = cue' := by
  obtain ⟨ls, hopens, hblock, -⟩ := h
  obtain ⟨ls', hopens', hblock', -⟩ := h'
  obtain ⟨hidentifier, htimings, hpayload⟩ := hopens.unique hopens' (hblock ▸ hblock')
  cases cue
  cases cue'
  simp_all

/-- The cue of a block that is cut lacks text at most. -/
theorem Denotes.truncates {block' block : List String} {cue' cue : Cue} (h' : Denotes block' cue')
    (h : Denotes block cue) (hblock' : Payload block') (hcut : Cut ShortenedText block' block) :
    cue'.Truncates cue := by
  obtain ⟨ls', hopens', rfl, hne⟩ := h'
  obtain ⟨ls, hopens, hblock, -⟩ := h
  -- there is text left, so all that comes before it is there
  obtain ⟨payload, hlines, hcut⟩ := hcut.exists_of_append hne
  obtain ⟨hidentifier, htimings, rfl⟩ := hopens'.unique hopens (hlines ▸ hblock)
  obtain ⟨hstart, hstop, hsettings⟩ := Timings.mk.inj htimings
  refine ⟨hidentifier, hstart, hstop, hsettings, hne, hcut.truncates fun text htext ↦ ?_⟩
  exact ⟨hblock' text (List.mem_append_right ls' htext), List.prefix_rfl⟩

/-- The cues of blocks that are cut are the cues of the blocks, cut. -/
theorem cut_cues {blocks' blocks : List (List String)} {cues' cues : List Cue}
    (hcut : Cut (Cut ShortenedText) blocks' blocks) (hblocks' : ∀ block ∈ blocks', Payload block)
    (hcues' : List.Forall₂ Denotes blocks' cues') (hcues : List.Forall₂ Denotes blocks cues) :
    Cut Cue.Truncates cues' cues := by
  induction hcut generalizing cues' cues with
  | nil =>
    cases hcues'
    exact .nil _
  | last _ hblock =>
    obtain ⟨cue', _, hcue', hnone, rfl⟩ := List.forall₂_cons_left_iff.mp hcues'
    obtain ⟨cue, _, hcue, -, rfl⟩ := List.forall₂_cons_left_iff.mp hcues
    cases hnone
    exact .last _ (hcue'.truncates hcue (hblocks' _ List.mem_cons_self) hblock)
  | cons block _ ih =>
    obtain ⟨cue', _, hcue', hmore', rfl⟩ := List.forall₂_cons_left_iff.mp hcues'
    obtain ⟨cue, _, hcue, hmore, rfl⟩ := List.forall₂_cons_left_iff.mp hcues
    obtain rfl := hcue'.unique hcue
    exact .cons _ (ih (fun b hb ↦ hblocks' b (List.mem_cons_of_mem _ hb)) hmore' hmore)

/-! ## Headers -/

/-- Dropping characters from the front keeps a prefix a prefix. -/
theorem dropWhile_prefix_of_prefix {α : Type} (q : α → Bool) {s l : List α} (h : s <+: l) :
    s.dropWhile q <+: l.dropWhile q := by
  obtain ⟨more, rfl⟩ := h
  rw [List.dropWhile_append]
  split
  · next hempty =>
    rw [List.isEmpty_iff.mp hempty]
    exact List.nil_prefix
  · exact List.prefix_append _ _

/-- Lines that are cut begin with a part of the first line. -/
theorem Cut.headD_prefix {texts' texts : List String} (hcut : Cut ShortenedText texts' texts) :
    (texts'.headD "").toList <+: (texts.headD "").toList := by
  cases hcut with
  | nil => exact List.nil_prefix
  | last _ hshort => exact hshort.2
  | cons => exact List.prefix_rfl

/-- Streams that begin alike have the same preamble, and go on alike. -/
theorem preamble_prefix {hasBom' hasBom : Bool} {rest' rest : List UInt8}
    (h : preamble hasBom' ++ rest' <+: preamble hasBom ++ rest) :
    hasBom' = hasBom ∧ rest' <+: rest := by
  have hfirst : ∀ b, (preamble b).head? = some (if b then 0xEF else 0x57) := by decide +kernel
  have hbom : hasBom' = hasBom := by
    obtain ⟨more, hmore⟩ := h
    have hhead := congrArg List.head? hmore
    simp only [List.head?_append, hfirst, Option.some_or, Option.some.injEq] at hhead
    revert hhead
    cases hasBom' <;> cases hasBom <;> decide
  subst hbom
  exact ⟨rfl, (List.prefix_append_right_inj _).mp h⟩

namespace Document

variable {σ τ : Type} [Source σ] [Source τ] {source : σ} {limits : Limits} {bytes p : List UInt8}
  {d d' : Document}

/-- The lines of a stream that is read as a document. -/
theorem exists_texts_of_read (hsource : Source.Delivers source bytes)
    (hread : read source limits = .ok d) :
    ∃ (rest : List UInt8) (texts : List String), bytes = preamble d.header.hasBom ++ rest ∧
      (Line.split rest).map (fun l ↦ Text.decode l.content) = texts.map some ∧
      d.header.description = String.ofList ((texts.headD "").toList.dropWhile isBlank) ∧
      List.Forall₂ Denotes (blocks (texts.drop 2)) d.cues := by
  obtain ⟨rest, line, rs, rfl, hheader, hcues⟩ := (read_eq_ok_iff hsource).mp hread
  obtain ⟨texts, rfl, hdenotes, -⟩ := hcues.denotes
  obtain ⟨lines, hlines, rfl, hdescription⟩ := hheader.exists_texts
  exact ⟨rest, lines, rfl, (reads_eq_map_ok_iff.mp hlines).2, hdescription, hdenotes⟩

/-- Where a stream and a prefix of it are both documents, the prefix has the byte order mark of the
stream, a prefix of its description, and its cues up to one, which may lack some text at its end. -/
theorem read_of_isPrefix {source' : τ} (hsource : Source.Delivers source bytes)
    (hsource' : Source.Delivers source' p) (hp : p <+: bytes)
    (hread : read source limits = .ok d) (hread' : read source' limits = .ok d') :
    d'.header.hasBom = d.header.hasBom ∧
      d'.header.description.toList <+: d.header.description.toList ∧
      Truncates Cue.Truncates d'.cues d.cues := by
  obtain ⟨rest, texts, rfl, htexts, hdescription, hcues⟩ := exists_texts_of_read hsource hread
  obtain ⟨rest', texts', rfl, htexts', hdescription', hcues'⟩ :=
    exists_texts_of_read hsource' hread'
  obtain ⟨hbom, hrest⟩ := preamble_prefix hp
  have hcut := cut_texts hrest htexts' htexts
  refine ⟨hbom, ?_, ?_⟩
  · rw [hdescription, hdescription', String.toList_ofList, String.toList_ofList]
    exact dropWhile_prefix_of_prefix isBlank hcut.headD_prefix
  · have hblocks' : ∀ block ∈ blocks (texts'.drop 2), Payload block :=
      fun block hblock ↦ (payload_of_mem_blocks hblock).1
    refine (cut_cues (cut_blocks (hcut.drop 2)) hblocks' hcues' hcues).truncates fun cue hcue ↦ ?_
    obtain ⟨block, hblock, hdenotes⟩ := exists_denotes_of_mem hcues' hcue
    exact hdenotes.truncates hdenotes (hblocks' block hblock) (.refl _ block)

/-- A stream cut in the text of its only cue. -/
theorem truncates_sample :
    Truncates Cue.Truncates [⟨"", ⟨0, 0, 1, 0⟩, ⟨0, 0, 2, 0⟩, [], ["Hé"]⟩]
      [⟨"", ⟨0, 0, 1, 0⟩, ⟨0, 0, 2, 0⟩, [], ["Hélas", "!"]⟩] := by
  have hsource := Slice.delivers_ofString "WEBVTT\n\n0:1 --> 0:2\r\nHélas\r\n!"
  have hsource' := Slice.delivers_ofString "WEBVTT\n\n0:1 --> 0:2\r\nHé"
  have hread : read (Slice.ofString "WEBVTT\n\n0:1 --> 0:2\r\nHélas\r\n!") {} =
      .ok ⟨{}, [⟨"", ⟨0, 0, 1, 0⟩, ⟨0, 0, 2, 0⟩, [], ["Hélas", "!"]⟩]⟩ := by decide +kernel
  have hread' : read (Slice.ofString "WEBVTT\n\n0:1 --> 0:2\r\nHé") {} =
      .ok ⟨{}, [⟨"", ⟨0, 0, 1, 0⟩, ⟨0, 0, 2, 0⟩, [], ["Hé"]⟩]⟩ := by decide +kernel
  have hp : Text.encode "WEBVTT\n\n0:1 --> 0:2\r\nHé" <+:
      Text.encode "WEBVTT\n\n0:1 --> 0:2\r\nHélas\r\n!" := by decide +kernel
  exact (read_of_isPrefix hsource hsource' hp hread hread').2.2

end Document

end WebVTT
