import WebVTT.Session.Basic

/-!
# The ways in which a session is asked

How far a session has come decides whether it is read from at all when it is asked for its header
(`HeaderCase`) or for a cue (`CueCase`). Each way names the reading behind it and the notice that it
leaves.
-/

namespace WebVTT.Session

variable {σ : Type} [Source σ]

/-- The ways in which asking for the header comes out. -/
inductive HeaderCase (s : Session σ) : EStateM.Result Error (Session σ) Header → Prop where
  /-- It has been read before. -/
  | again : s.phase = .atCues → HeaderCase s (.error (.violation .headerAlreadyRead) s)
  /-- It was refused before. -/
  | useless : s.phase = .rejected → HeaderCase s (.error (.violation .headerRejected) s)
  /-- It is read. -/
  | accepted {header : Header} {t : LineStream σ} : s.phase = .atHeader →
      LineStream.readHeader s.stream = .ok header t →
      HeaderCase s (.ok header ⟨t.note (.headerAccepted header), .atCues⟩)
  /-- It is refused. -/
  | refused {e : Error} {t : LineStream σ} : s.phase = .atHeader →
      LineStream.readHeader s.stream = .error e t →
      HeaderCase s (.error e ⟨t.note (.headerRejected t.line e), .rejected⟩)

/-- There is no other way. -/
theorem headerCase_readHeader (s : Session σ) : HeaderCase s (readHeader s) := by
  unfold readHeader
  cases hphase : s.phase with
  | atCues => exact .again hphase
  | rejected => exact .useless hphase
  | atHeader =>
    cases hread : LineStream.readHeader s.stream with
    | ok header t => exact .accepted hphase hread
    | error e t => exact .refused hphase hread

/-- A header that is read first is what the stream begins with. -/
theorem exists_of_readHeader_ofSource {source : σ} {limits : Limits} {header : Header}
    {s : Session σ} (h : readHeader (ofSource source limits) = .ok header s) :
    ∃ t, LineStream.readHeader { source, limits } = .ok header t ∧
      s = ⟨t.note (.headerAccepted header), .atCues⟩ := by
  have hcase := headerCase_readHeader (ofSource source limits)
  rw [h] at hcase
  cases hcase with
  | accepted _ hread => exact ⟨_, hread, rfl⟩

/-- The ways in which asking for a cue comes out. -/
inductive CueCase (s : Session σ) : EStateM.Result Error (Session σ) (Option Cue) → Prop where
  /-- The header has not been read. -/
  | early : s.phase = .atHeader → CueCase s (.error (.violation .headerUnread) s)
  /-- The header was refused. -/
  | useless : s.phase = .rejected → CueCase s (.error (.violation .headerRejected) s)
  /-- A cue is read, or the end of the stream. -/
  | read {cue? : Option Cue} {t : LineStream σ} : s.phase = .atCues →
      LineStream.readCue s.stream = .ok cue? t →
      CueCase s (.ok cue? ⟨t.note (cue?.elim (.streamEnded t.line) (.cueRead t.line)), .atCues⟩)
  /-- A cue is refused. -/
  | refused {e : Error} {t : LineStream σ} : s.phase = .atCues →
      LineStream.readCue s.stream = .error e t →
      CueCase s (.error e ⟨t.note (.cueRejected t.line e), .atCues⟩)

/-- There is no other way. -/
theorem cueCase_nextCue (s : Session σ) : CueCase s (nextCue s) := by
  obtain ⟨stream, phase⟩ := s
  cases phase with
  | atHeader => exact .early rfl
  | rejected => exact .useless rfl
  | atCues =>
    unfold nextCue
    dsimp only
    cases hread : LineStream.readCue stream with
    | ok cue? t =>
      cases cue? with
      | none => exact .read (s := ⟨stream, .atCues⟩) rfl hread
      | some cue => exact .read (s := ⟨stream, .atCues⟩) rfl hread
    | error e t => exact .refused (s := ⟨stream, .atCues⟩) rfl hread

end WebVTT.Session
