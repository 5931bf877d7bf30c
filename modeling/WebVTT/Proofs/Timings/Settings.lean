import WebVTT.Proofs.Timings.Reading

/-!
# Settings, run by run

Blanks cut a text into runs of other characters, and each run has to be a setting: a name and a
value with a colon between them, and no other colon. Scanning for settings does just that
(`Scan.settingsAfter_cases`): it takes one setting a run, in order, and what it reports is what is
wrong with the first run that is none.
-/

namespace WebVTT

/-! ## Runs -/

/-- The longest stretches of a text without blanks, in order. -/
def runs (text : List Char) : List (List Char) := (text.splitOnP isBlank).filter (· ≠ [])

@[simp] theorem runs_nil : runs [] = [] := rfl

theorem runs_cons_of_isBlank {c : Char} (h : isBlank c) (text : List Char) :
    runs (c :: text) = runs text := by
  unfold runs
  rw [List.splitOnP_cons_eq_if_modifyHead, if_pos h]
  exact List.filter_cons_of_neg (by simp)

/-- Blanks in front are in no run. -/
theorem runs_dropWhile (text : List Char) : runs (text.dropWhile isBlank) = runs text := by
  induction text with
  | nil => rfl
  | cons c text ih =>
    by_cases hc : isBlank c
    · rw [List.dropWhile_cons_of_pos hc, runs_cons_of_isBlank hc, ih]
    · rw [List.dropWhile_cons_of_neg hc]

/-- A run goes up to a blank or the end. -/
theorem runs_append {run rest : List Char} (hne : run ≠ []) (hrun : ∀ c ∈ run, ¬isBlank c)
    (hrest : ∀ c ∈ rest.head?, isBlank c) : runs (run ++ rest) = run :: runs rest := by
  have hrun' : ∀ c ∈ run, isBlank c = false := fun c hc ↦ Bool.eq_false_iff.mpr (hrun c hc)
  have hkeep : ∀ more : List (List Char),
      (run :: more).filter (· ≠ []) = run :: more.filter (· ≠ []) :=
    fun more ↦ List.filter_cons_of_pos (by simpa using hne)
  cases rest with
  | nil =>
    unfold runs
    rw [List.append_nil, List.splitOnP_eq_singleton hrun', hkeep]
    rfl
  | cons c rest =>
    have hc : isBlank c := hrest c rfl
    rw [runs_cons_of_isBlank hc]
    unfold runs
    rw [List.splitOnP_append_cons_of_forall_mem hrun' c hc, hkeep]

/-- Every text begins with blanks, and then has a run, unless it is over. -/
theorem exists_run {text : List Char} (h : text.dropWhile isBlank ≠ []) :
    ∃ run rest, text.dropWhile isBlank = run ++ rest ∧ run ≠ [] ∧ (∀ c ∈ run, ¬isBlank c) ∧
      ∀ c ∈ rest.head?, isBlank c := by
  refine ⟨(text.dropWhile isBlank).takeWhile (!isBlank ·),
    (text.dropWhile isBlank).dropWhile (!isBlank ·), List.takeWhile_append_dropWhile.symm,
    ?_, ?_, ?_⟩
  · intro hempty
    obtain ⟨c, more, hmore⟩ := List.exists_cons_of_ne_nil h
    have hc := List.head?_dropWhile_not isBlank text
    rw [hmore] at hc hempty
    rw [List.takeWhile_cons_of_pos (by simpa using hc)] at hempty
    cases hempty
  · intro c hc
    simpa using List.mem_takeWhile_imp hc
  · intro c hc
    have hblank := List.head?_dropWhile_not (!isBlank ·) (text.dropWhile isBlank)
    rw [Option.mem_def.mp hc] at hblank
    simpa using hblank

/-! ## Settings of a run -/

/-- A setting with a name and a value, neither of which has a colon. -/
structure Setting.Paired (s : Setting) : Prop where
  name_ne : s.name ≠ ""
  value_ne : s.value ≠ ""
  name_colon : ':' ∉ s.name.toList
  value_colon : ':' ∉ s.value.toList

/-- What is wrong with a run that is to be a setting, if anything is. -/
def runFault? (run : List Char) : Option TimingFault :=
  if ':' ∉ run then some .unterminatedSettingName
  else if run.head? = some ':' then some .emptySettingName
  else if run.count ':' ≠ 1 then some .colonInSettingValue
  else if run.getLast? = some ':' then some .emptySettingValue
  else none

/-- A run with one colon, which is neither its first nor its last character. -/
structure OneColonInside (run : List Char) : Prop where
  count_eq : run.count ':' = 1
  head?_ne : run.head? ≠ some ':'
  getLast?_ne : run.getLast? ≠ some ':'

/-- Nothing is wrong with such a run, and something is with any other. -/
theorem runFault?_eq_none_iff {run : List Char} : runFault? run = none ↔ OneColonInside run := by
  unfold runFault?
  constructor
  · intro h
    split at h
    · cases h
    split at h
    · cases h
    next hhead =>
    split at h
    · cases h
    next hcount =>
    split at h
    · cases h
    next hlast => exact ⟨not_not.mp hcount, hhead, hlast⟩
  · rintro ⟨hcount, hhead, hlast⟩
    have hcolon : ':' ∈ run := List.count_pos_iff.mp (hcount ▸ Nat.one_pos)
    rw [if_neg (not_not.mpr hcolon), if_neg hhead, if_neg (not_not.mpr hcount), if_neg hlast]

/-- After a name and its colon, all that matters is what comes then. -/
theorem runFault?_append {name : List Char} (hne : name ≠ []) (hname : ':' ∉ name)
    (more : List Char) : runFault? (name ++ ':' :: more) =
      if ':' ∈ more then some .colonInSettingValue
      else if more = [] then some .emptySettingValue else none := by
  obtain ⟨c, name, rfl⟩ := List.exists_cons_of_ne_nil hne
  have hc : c ≠ ':' := fun h ↦ hname (h ▸ List.mem_cons_self)
  have hcount : (c :: name ++ ':' :: more).count ':' = more.count ':' + 1 := by
    rw [List.count_append, List.count_eq_zero.mpr hname, Nat.zero_add, List.count_cons_self]
  unfold runFault?
  rw [if_neg (by simp), if_neg (by simpa using hc), hcount]
  by_cases hmore : ':' ∈ more
  · rw [if_pos (by simpa [List.count_eq_zero] using hmore), if_pos hmore]
  · rw [if_neg (by simpa [List.count_eq_zero] using hmore), if_neg hmore]
    cases more with
    | nil => rw [if_pos List.getLast?_concat, if_pos rfl]
    | cons d more =>
      rw [if_neg, if_neg (List.cons_ne_nil d more)]
      intro hlast
      rw [List.getLast?_append, List.getLast?_cons_cons] at hlast
      exact hmore (List.mem_of_getLast? (by simpa using hlast))

/-- The ways in which colons stand in a run. -/
inductive RunCase : List Char → Option TimingFault → Prop where
  | bare {run : List Char} : ':' ∉ run → RunCase run (some .unterminatedSettingName)
  | nameless (value : List Char) : RunCase (':' :: value) (some .emptySettingName)
  | divided {name value more : List Char} : name ≠ [] → ':' ∉ name → ':' ∉ value →
      RunCase (name ++ ':' :: (value ++ ':' :: more)) (some .colonInSettingValue)
  | valueless {name : List Char} : name ≠ [] → ':' ∉ name →
      RunCase (name ++ [':']) (some .emptySettingValue)
  | paired {s : Setting} : s.Paired → RunCase s.text.toList none

/-- There is no other way. -/
theorem runCase_runFault? (run : List Char) : RunCase run (runFault? run) := by
  by_cases hcolon : ':' ∈ run
  · obtain ⟨name, more, rfl, hname⟩ := List.eq_append_cons_of_mem hcolon
    by_cases hne : name = []
    · subst hne
      exact .nameless more
    · rw [runFault?_append hne hname]
      split
      · next hmore =>
        obtain ⟨value, more, rfl, hvalue⟩ := List.eq_append_cons_of_mem hmore
        exact .divided hne hname hvalue
      · next hmore =>
        split
        · next hempty =>
          subst hempty
          exact .valueless hne hname
        · next hvalue =>
          have hs : Setting.Paired ⟨String.ofList name, String.ofList more⟩ :=
            ⟨by simpa using hne, by simpa using hvalue, by simpa using hname, by simpa using hmore⟩
          simpa [Setting.toList_text] using RunCase.paired hs
  · unfold runFault?
    rw [if_pos hcolon]
    exact .bare hcolon

namespace Setting.Paired

variable {s s' : Setting}

/-- Nothing is wrong with the text of a setting. -/
theorem runFault?_text (hs : s.Paired) : runFault? s.text.toList = none := by
  have hname : s.name.toList ≠ [] := fun h ↦ hs.name_ne (String.toList_eq_nil_iff.mp h)
  have hvalue : s.value.toList ≠ [] := fun h ↦ hs.value_ne (String.toList_eq_nil_iff.mp h)
  rw [Setting.toList_text, runFault?_append hname hs.name_colon, if_neg hs.value_colon,
    if_neg hvalue]

/-- A name and a value can be told from their text. -/
theorem eq_of_text (hs : s.Paired) (hs' : s'.Paired) (h : s.text.toList = s'.text.toList) :
    s = s' := by
  have hsplit : ∀ {s : Setting}, s.Paired → s.text.toList.takeWhile (· ≠ ':') = s.name.toList ∧
      s.text.toList.dropWhile (· ≠ ':') = ':' :: s.value.toList := by
    intro s hs
    have hname : ∀ c ∈ s.name.toList, decide (c ≠ ':') :=
      fun c hc ↦ decide_eq_true fun h ↦ hs.name_colon (h ▸ hc)
    have hcolon : ∀ c ∈ (':' :: s.value.toList).head?, ¬decide (c ≠ ':') := by
      rintro c ⟨⟩
      decide
    rw [Setting.toList_text]
    exact ⟨Scan.takeWhile_append_of_head hname hcolon, Scan.dropWhile_append_of_head hname hcolon⟩
  obtain ⟨hname, hvalue⟩ := hsplit hs
  obtain ⟨hname', hvalue'⟩ := hsplit hs'
  rw [h] at hname hvalue
  have hnames : s.name = s'.name := String.toList_inj.mp (hname.symm.trans hname')
  have hvalues : s.value = s'.value :=
    String.toList_inj.mp (List.cons.inj (hvalue.symm.trans hvalue')).2
  cases s
  cases s'
  simp_all

/-- So can settings from the runs that they are. -/
theorem eq_of_map_text {ss ss' : List Setting} (hss : ∀ s ∈ ss, s.Paired)
    (hss' : ∀ s ∈ ss', s.Paired)
    (h : ss.map (fun s ↦ s.text.toList) = ss'.map (fun s ↦ s.text.toList)) : ss = ss' := by
  induction ss generalizing ss' with
  | nil => exact (List.map_eq_nil_iff.mp h.symm).symm
  | cons s ss ih =>
    obtain ⟨s', more, rfl, htext, hmore⟩ := List.map_eq_cons_iff.mp h.symm
    obtain ⟨hs, hss⟩ := List.forall_mem_cons.mp hss
    obtain ⟨hs', hss'⟩ := List.forall_mem_cons.mp hss'
    rw [hs.eq_of_text hs' htext.symm, ih hss hss' hmore.symm]

/-- Nothing is wrong with runs that are settings. -/
theorem findSome?_runFault? {ss : List Setting} (hss : ∀ s ∈ ss, s.Paired) :
    (ss.map fun s ↦ s.text.toList).findSome? runFault? = none := by
  rw [List.findSome?_eq_none_iff]
  intro run hrun
  obtain ⟨s, hs, rfl⟩ := List.mem_map.mp hrun
  exact (hss s hs).runFault?_text

end Setting.Paired

namespace Scan

variable {run rest : List Char}

theorem isSettingChar_iff {c : Char} : isSettingChar c ↔ ¬isBlank c ∧ c ≠ ':' := by
  simp [isSettingChar]

theorem forall_isSettingChar (hblank : ∀ c ∈ run, ¬isBlank c) (hcolon : ':' ∉ run) :
    ∀ c ∈ run, isSettingChar c :=
  fun c hc ↦ isSettingChar_iff.mpr ⟨hblank c hc, fun h ↦ hcolon (h ▸ hc)⟩

theorem not_isSettingChar_colon (more : List Char) :
    ∀ c ∈ (':' :: more).head?, ¬isSettingChar c := not_of_head?_cons (by decide) more

/-- What is scanned after a colon, given the name before it. -/
theorem setting_colon {name : List Char} (hname : ∀ c ∈ name, isSettingChar c) (more : List Char) :
    setting (name ++ ':' :: more) =
      if name.isEmpty then .error .emptySettingName (':' :: more)
      else if (more.dropWhile isSettingChar).head? = some ':' then
        .error .colonInSettingValue (more.dropWhile isSettingChar)
      else if (more.takeWhile isSettingChar).isEmpty then
        .error .emptySettingValue (more.dropWhile isSettingChar)
      else .ok ⟨String.ofList name, String.ofList (more.takeWhile isSettingChar)⟩
        (more.dropWhile isSettingChar) := by
  have hcolon := not_isSettingChar_colon more
  unfold setting
  rw [takeWhile_append_of_head hname hcolon, dropWhile_append_of_head hname hcolon]
  rfl

/-- A run up to a blank or the end is scanned as the setting that it is. -/
theorem setting_of_paired {s : Setting} (hs : s.Paired) (hrun : ∀ c ∈ s.text.toList, ¬isBlank c)
    (hrest : ∀ c ∈ rest.head?, isBlank c) : setting (s.text.toList ++ rest) = .ok s rest := by
  rw [Setting.toList_text] at hrun ⊢
  have hblank := List.forall_mem_append.mp hrun
  have hreadable : s.Readable := by
    refine ⟨hs.name_ne, hs.value_ne, forall_isSettingChar hblank.1 hs.name_colon, ?_⟩
    exact forall_isSettingChar (List.forall_mem_cons.mp hblank.2).2 hs.value_colon
  rw [List.append_assoc, List.cons_append]
  exact setting_append hreadable hrest

/-- A run up to a blank or the end is refused for what is wrong with it. -/
theorem setting_of_fault {fault : TimingFault} (h : RunCase run (some fault))
    (hrun : ∀ c ∈ run, ¬isBlank c) (hrest : ∀ c ∈ rest.head?, isBlank c) :
    ∃ left, setting (run ++ rest) = .error fault left := by
  have hend : ∀ c ∈ rest.head?, ¬isSettingChar c :=
    fun c hc htoken ↦ (isSettingChar_iff.mp htoken).1 (hrest c hc)
  cases h with
  | bare hcolon =>
    refine ⟨rest, ?_⟩
    unfold setting
    rw [dropWhile_append_of_head (forall_isSettingChar hrun hcolon) hend]
    dsimp only
    split
    · exact absurd (hrest ':' rfl) (by decide)
    · rfl
  | nameless value => exact ⟨_, @setting_colon [] nofun (value ++ rest)⟩
  | @divided name value more hne hname hvalue =>
    obtain ⟨hname', hmore⟩ := List.forall_mem_append.mp hrun
    have hvalues : ∀ c ∈ value, isSettingChar c :=
      forall_isSettingChar (fun c hc ↦ hmore c (by simp [hc])) hvalue
    have hcolon := not_isSettingChar_colon (more ++ rest)
    refine ⟨':' :: (more ++ rest), ?_⟩
    have hsplit : name ++ ':' :: (value ++ ':' :: more) ++ rest =
        name ++ ':' :: (value ++ ':' :: (more ++ rest)) := by simp
    rw [hsplit, setting_colon (forall_isSettingChar hname' hname),
      dropWhile_append_of_head hvalues hcolon, if_neg (by simpa using hne), if_pos List.head?_cons]
  | @valueless name hne hname =>
    have hname' := (List.forall_mem_append.mp hrun).1
    have hnone : rest.takeWhile isSettingChar = [] :=
      @takeWhile_append_of_head _ [] rest nofun hend
    have hleft : rest.dropWhile isSettingChar = rest :=
      @dropWhile_append_of_head _ [] rest nofun hend
    have hcolon : rest.head? ≠ some ':' := fun h ↦ absurd (hrest ':' h) (by decide)
    refine ⟨rest, ?_⟩
    rw [List.append_assoc, List.singleton_append, setting_colon (forall_isSettingChar hname' hname),
      hnone, hleft, if_neg (by simpa using hne), if_neg hcolon, if_pos List.isEmpty_nil]

/-- After blanks, the first run is scanned as the setting that it is, or refused. -/
theorem setting_cases {text : List Char} (h : text.dropWhile isBlank ≠ []) :
    (∃ s left, s.Paired ∧ runs text = s.text.toList :: runs left ∧
        setting (text.dropWhile isBlank) = .ok s left) ∨
      ∃ fault left run more, runFault? run = some fault ∧ runs text = run :: more ∧
        setting (text.dropWhile isBlank) = .error fault left := by
  obtain ⟨run, rest, htext, hne, hrun, hrest⟩ := exists_run h
  have hruns : runs text = run :: runs rest := by
    rw [← runs_dropWhile, htext, runs_append hne hrun hrest]
  have hcase := runCase_runFault? run
  rw [htext]
  cases hfault : runFault? run with
  | none =>
    rw [hfault] at hcase
    cases hcase with
    | @paired s hs => exact .inl ⟨s, rest, hs, hruns, setting_of_paired hs hrun hrest⟩
  | some fault =>
    rw [hfault] at hcase
    obtain ⟨left, hscan⟩ := setting_of_fault hcase hrun hrest
    exact .inr ⟨fault, left, run, runs rest, hfault, hruns, hscan⟩

/-! ## All settings -/

/-- Settings are scanned run by run, up to the first run that is none. -/
theorem settingsAfter_cases (found : Array Setting) (text : List Char) :
    (∃ ss : List Setting, runs text = ss.map (fun s ↦ s.text.toList) ∧ (∀ s ∈ ss, s.Paired) ∧
        settingsAfter found text = .ok (found.toList ++ ss) []) ∨
      ∃ fault left, (runs text).findSome? runFault? = some fault ∧
        settingsAfter found text = .error fault left := by
  fun_induction settingsAfter found text with
  | case1 found text hempty =>
    have hruns : runs text = [] := by
      rw [← runs_dropWhile, List.isEmpty_iff.mp hempty, runs_nil]
    exact .inl ⟨[], hruns, List.forall_mem_nil _, by rw [List.append_nil]⟩
  | case2 found text hne s left hsetting ih =>
    rcases setting_cases (mt List.isEmpty_iff.mpr hne) with
      ⟨s', left', hs, hruns, hscan⟩ | ⟨fault, left', run, more, -, -, hscan⟩
    · rw [hsetting] at hscan
      cases hscan
      rw [hruns]
      rcases ih with ⟨ss, hss, hpaired, hscan⟩ | ⟨fault, left', hfound, hscan⟩
      · have hpaired' : ∀ s' ∈ s :: ss, s'.Paired := List.forall_mem_cons.mpr ⟨hs, hpaired⟩
        refine .inl ⟨s :: ss, by rw [hss, List.map_cons], hpaired', ?_⟩
        rw [hscan, Array.toList_push, List.append_assoc, List.singleton_append]
      · exact .inr ⟨fault, left', by rw [List.findSome?_cons, hs.runFault?_text, hfound], hscan⟩
    · rw [hsetting] at hscan
      cases hscan
  | case3 found text hne fault left hsetting =>
    rcases setting_cases (mt List.isEmpty_iff.mpr hne) with
      ⟨s', left', -, -, hscan⟩ | ⟨fault', left', run, more, hfault, hruns, hscan⟩
    · rw [hsetting] at hscan
      cases hscan
    · rw [hsetting] at hscan
      cases hscan
      exact .inr ⟨fault, left, by rw [hruns, List.findSome?_cons, hfault], rfl⟩

/-- Settings are taken where every run is one, and only there. -/
theorem settings_eq_ok_iff {text : List Char} {ss : List Setting} :
    settings text = .ok ss [] ↔
      runs text = ss.map (fun s ↦ s.text.toList) ∧ ∀ s ∈ ss, s.Paired := by
  constructor
  · intro h
    rcases settingsAfter_cases #[] text with ⟨ss', hruns, hpaired, hscan⟩ | ⟨fault, left, -, hscan⟩
    · cases h.symm.trans hscan
      exact ⟨hruns, hpaired⟩
    · cases h.symm.trans hscan
  · rintro ⟨hruns, hpaired⟩
    rcases settingsAfter_cases #[] text with
      ⟨ss', hruns', hpaired', hscan⟩ | ⟨fault, left, hfound, -⟩
    · rw [← Setting.Paired.eq_of_map_text hpaired' hpaired (hruns'.symm.trans hruns)]
      exact hscan
    · rw [hruns, Setting.Paired.findSome?_runFault? hpaired] at hfound
      cases hfound

/-- Settings are refused for what is wrong with the first run that is none. -/
theorem settings_eq_error_iff {text : List Char} {fault : TimingFault} :
    (∃ left, settings text = .error fault left) ↔
      (runs text).findSome? runFault? = some fault := by
  rcases settingsAfter_cases #[] text with
    ⟨ss, hruns, hpaired, hscan⟩ | ⟨fault', left, hfound, hscan⟩
  · rw [hruns, Setting.Paired.findSome?_runFault? hpaired]
    refine iff_of_false ?_ nofun
    rintro ⟨left, h⟩
    cases h.symm.trans hscan
  · rw [hfound]
    constructor
    · rintro ⟨left, h⟩
      cases h.symm.trans hscan
      rfl
    · rintro ⟨⟩
      exact ⟨left, hscan⟩

/-- Where settings are taken, nothing is left of the text. -/
theorem eq_nil_of_settings {text left : List Char} {ss : List Setting}
    (h : settings text = .ok ss left) : left = [] := by
  rcases settingsAfter_cases #[] text with ⟨ss', -, -, hscan⟩ | ⟨fault, left', -, hscan⟩
  · cases h.symm.trans hscan
    rfl
  · cases h.symm.trans hscan

theorem of_settings_eq_ok_iff {text : List Char} {ss : List Setting} :
    settings.of text = .ok ss ↔ settings text = .ok ss [] := by
  unfold of
  cases hscan : settings text with
  | ok ss' left =>
    obtain rfl := eq_nil_of_settings hscan
    constructor <;> rintro ⟨⟩ <;> rfl
  | error fault left => exact iff_of_false nofun nofun

theorem of_eq_error_iff {α : Type} {scan : Scan α} {text : List Char} {fault : TimingFault} :
    scan.of text = .error fault ↔ ∃ left, scan text = .error fault left := by
  unfold of
  cases scan text with
  | ok a rest => exact iff_of_false nofun nofun
  | error fault' left =>
    constructor
    · rintro ⟨⟩
      exact ⟨left, rfl⟩
    · rintro ⟨_, ⟨⟩⟩
      rfl

/-- The first run that is no setting comes after some that are. -/
theorem findSome?_runFault?_eq_some_iff {rs : List (List Char)} {fault : TimingFault} :
    rs.findSome? runFault? = some fault ↔ ∃ before run after, rs = before ++ run :: after ∧
      (∀ r ∈ before, OneColonInside r) ∧ runFault? run = some fault := by
  simp only [List.findSome?_eq_some_iff, runFault?_eq_none_iff]
  constructor
  · rintro ⟨before, run, after, hruns, hfault, hbefore⟩
    exact ⟨before, run, after, hruns, hbefore, hfault⟩
  · rintro ⟨before, run, after, hruns, hbefore, hfault⟩
    exact ⟨before, run, after, hruns, hfault, hbefore⟩

/-- Settings are taken where every run has one colon and has it inside. -/
theorem exists_settings_eq_ok_iff {text : List Char} :
    (∃ ss, settings text = .ok ss []) ↔ ∀ run ∈ runs text, OneColonInside run := by
  simp only [← runFault?_eq_none_iff, ← List.findSome?_eq_none_iff]
  rcases settingsAfter_cases #[] text with
    ⟨ss, hruns, hpaired, hscan⟩ | ⟨fault, left, hfound, hscan⟩
  · rw [hruns, Setting.Paired.findSome?_runFault? hpaired]
    exact iff_of_true ⟨ss, hscan⟩ rfl
  · rw [hfound]
    refine iff_of_false ?_ nofun
    rintro ⟨ss, h⟩
    cases h.symm.trans hscan

/-- A text has settings exactly if every run has one colon and has it inside. They are then what
stands before and after these colons, run by run. Otherwise it is refused for what is wrong with the
first run that is not like this. -/
theorem of_settings_iff (text : String) :
    ((∃ ss, settings.of text.toList = .ok ss) ↔ ∀ run ∈ runs text.toList, OneColonInside run) ∧
      (∀ ss, settings.of text.toList = .ok ss ↔
        runs text.toList = ss.map (fun s ↦ s.text.toList) ∧ ∀ s ∈ ss, s.Paired) ∧
      ∀ fault, settings.of text.toList = .error fault ↔
        ∃ before run after, runs text.toList = before ++ run :: after ∧
          (∀ r ∈ before, OneColonInside r) ∧ runFault? run = some fault := by
  refine ⟨?_, fun ss ↦ of_settings_eq_ok_iff.trans settings_eq_ok_iff, fun fault ↦ ?_⟩
  · simp only [of_settings_eq_ok_iff]
    exact exists_settings_eq_ok_iff
  · rw [of_eq_error_iff, settings_eq_error_iff]
    exact findSome?_runFault?_eq_some_iff

/-- Blanks of both kinds separate, and a run with a colon too many does not hide the one before it. -/
example : settings.of "a:\x00é \tb:c".toList = .ok [⟨"a", "\x00é"⟩, ⟨"b", "c"⟩] ∧
    settings.of "a:b c: d:e:f".toList = .error .emptySettingValue := by decide +kernel

end Scan

end WebVTT
