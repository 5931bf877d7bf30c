import WebVTT.Proofs.Lines.Reads

/-!
# Streams cut short

A stream may be cut at any byte. What is left of its lines is then those before the cut, and what is
left of the line it goes through: `Cut R` says so of two lists, where `R` relates what is left of an
element to the element. The lines of a prefix are cut from those of the stream (`cut_split`), and
where all of them are texts, so are these (`cut_texts`), even if the cut goes through a character or
between a carriage return and its line feed.
-/

namespace WebVTT

/-- The first list is what is left of the second where it is cut, be it between two elements or
through one, of which `R` says what may be left. -/
inductive Cut {α : Type} (R : α → α → Prop) : List α → List α → Prop where
  /-- Nothing is left. -/
  | nil (bs : List α) : Cut R [] bs
  /-- The cut goes through the first element. -/
  | last {a b : α} (bs : List α) : R a b → Cut R [a] (b :: bs)
  /-- The first element is all there. -/
  | cons (a : α) {as bs : List α} : Cut R as bs → Cut R (a :: as) (a :: bs)

/-- The first list consists of elements of the second in order, but that `R` relates its last element
to the one there. -/
def Truncates {α : Type} (R : α → α → Prop) (as bs : List α) : Prop :=
  as = [] ∨ ∃ init a b more, as = init ++ [a] ∧ bs = init ++ b :: more ∧ R a b

namespace Cut

variable {α β : Type} {R S : α → α → Prop} {as bs cs : List α}

/-- Something is left only of something, and it is left in part or as a whole. -/
theorem cons_iff {a : α} :
    Cut R (a :: as) bs ↔ ∃ b bs', bs = b :: bs' ∧ (as = [] ∧ R a b ∨ a = b ∧ Cut R as bs') := by
  constructor
  · intro h
    cases h with
    | last bs hr => exact ⟨_, bs, rfl, .inl ⟨rfl, hr⟩⟩
    | cons _ h => exact ⟨a, _, rfl, .inr ⟨rfl, h⟩⟩
  · rintro ⟨b, bs, rfl, ⟨rfl, hr⟩ | ⟨rfl, h⟩⟩
    · exact .last bs hr
    · exact .cons a h

theorem refl (R : α → α → Prop) (as : List α) : Cut R as as := by
  induction as with
  | nil => exact .nil _
  | cons a as ih => exact .cons a ih

/-- A list is cut in its first part or after it. -/
theorem append_cases (h : Cut R as (bs ++ cs)) :
    Cut R as bs ∨ ∃ as', as = bs ++ as' ∧ Cut R as' cs := by
  induction bs generalizing as with
  | nil => exact .inr ⟨as, rfl, h⟩
  | cons b bs ih =>
    cases h with
    | nil => exact .inl (.nil _)
    | last _ hr => exact .inl (.last bs hr)
    | cons _ h =>
      rcases ih h with hleft | ⟨as', rfl, hright⟩
      · exact .inl (.cons b hleft)
      · exact .inr ⟨as', rfl, hright⟩

/-- What is left before something else that is left is all there. -/
theorem exists_of_append (h : Cut R (as ++ bs) cs) (hbs : bs ≠ []) :
    ∃ cs', cs = as ++ cs' ∧ Cut R bs cs' := by
  induction as generalizing cs with
  | nil => exact ⟨cs, rfl, h⟩
  | cons a as ih =>
    obtain ⟨c, cs, rfl, ⟨hnone, -⟩ | ⟨rfl, hrest⟩⟩ := cons_iff.mp h
    · exact absurd (List.append_eq_nil_iff.mp hnone).2 hbs
    · obtain ⟨cs', rfl, hcut⟩ := ih hrest
      exact ⟨cs', rfl, hcut⟩

/-- Without its first elements, a list is cut as before. -/
theorem drop (h : Cut R as bs) (n : Nat) : Cut R (as.drop n) (bs.drop n) := by
  induction h generalizing n with
  | nil => simpa using nil _
  | last bs hr =>
    cases n with
    | zero => exact .last bs hr
    | succ n => simpa using nil _
  | cons a h ih =>
    cases n with
    | zero => exact .cons a h
    | succ n => exact ih n

/-- What is left has a property if its elements have it, whole or not. -/
theorem forall_mem {P : α → Prop} (h : Cut R as bs) (hP : ∀ b ∈ bs, P b)
    (hR : ∀ a b, R a b → P a) : ∀ a ∈ as, P a := by
  induction h with
  | nil => simp
  | last _ hr => simpa using hR _ _ hr
  | cons a _ ih =>
    rw [List.forall_mem_cons] at hP ⊢
    exact ⟨hP.1, ih hP.2⟩

/-- A cut between elements may be said to go through a whole one. -/
theorem truncates (h : Cut R as bs) (hR : ∀ a ∈ as, R a a) : Truncates R as bs := by
  induction h with
  | nil => exact .inl rfl
  | last bs hr => exact .inr ⟨[], _, _, bs, rfl, rfl, hr⟩
  | @cons a as bs h ih =>
    obtain ⟨ha, has⟩ := List.forall_mem_cons.mp hR
    rcases ih has with rfl | ⟨init, a', b, more, rfl, rfl, hr⟩
    · exact .inr ⟨[], a, a, bs, rfl, rfl, ha⟩
    · exact .inr ⟨a :: init, a', b, more, rfl, rfl, hr⟩

theorem imp (h : Cut R as bs) (hRS : ∀ a b, R a b → S a b) : Cut S as bs := by
  induction h with
  | nil bs => exact .nil bs
  | last bs hr => exact .last bs (hRS _ _ hr)
  | cons a _ ih => exact .cons a ih

/-- Lists are cut like their images. -/
theorem of_map {f : β → α} (hf : ∀ b b', f b = f b' → b = b') {as bs : List β}
    (h : Cut R (as.map f) (bs.map f)) : Cut (fun a b ↦ R (f a) (f b)) as bs := by
  induction as generalizing bs with
  | nil => exact .nil _
  | cons a as ih =>
    obtain ⟨c, cs, hbs, hcut⟩ := cons_iff.mp h
    obtain ⟨b, bs, rfl, rfl, rfl⟩ := List.map_eq_cons_iff.mp hbs
    rcases hcut with ⟨has, hr⟩ | ⟨hab, hcut⟩
    · obtain rfl := List.map_eq_nil_iff.mp has
      exact .last bs hr
    · obtain rfl := hf a b hab
      exact .cons a (ih hcut)

end Cut

/-! ## Lines -/

/-- What is left of a line, if anything is. -/
def Shortened (p content : List UInt8) : Prop := p ≠ [] ∧ p <+: content

/-- What is left of a text, if anything is. -/
def ShortenedText (s text : String) : Prop := s ≠ "" ∧ s.toList <+: text.toList

/-- The beginning of a line is what is left of a line. -/
theorem cut_of_prefix {p content : List UInt8} (hp : p <+: content)
    (hcontent : Line.Unbroken content) (contents : List (List UInt8)) :
    Cut Shortened ((Line.split p).map Line.content) (content :: contents) := by
  by_cases hne : p = []
  · subst hne
    exact .nil _
  · rw [Line.split_of_unbroken (hcontent.mono hp) hne]
    exact .last _ ⟨hne, hp⟩

/-- A cut right after a line goes behind its ending, or between the two bytes of one. -/
theorem Ending.exists_of_prefix {e : Ending} {q rest : List UInt8} (hq : q <+: e.bytes ++ rest)
    (hne : q ≠ []) : (∃ p, q = e.bytes ++ p ∧ p <+: rest) ∨ q = cr.bytes := by
  obtain ⟨b, q, rfl⟩ := List.exists_cons_of_ne_nil hne
  cases e with
  | lf =>
    obtain ⟨rfl, hrest⟩ := List.cons_prefix_cons.mp hq
    exact .inl ⟨q, rfl, hrest⟩
  | cr =>
    obtain ⟨rfl, hrest⟩ := List.cons_prefix_cons.mp hq
    exact .inl ⟨q, rfl, hrest⟩
  | crlf =>
    obtain ⟨rfl, hmore⟩ := List.cons_prefix_cons.mp hq
    cases q with
    | nil => exact .inr rfl
    | cons c q =>
      obtain ⟨rfl, hrest⟩ := List.cons_prefix_cons.mp hmore
      exact .inl ⟨q, rfl, hrest⟩

/-- The lines of a prefix are those of the stream, cut. -/
theorem cut_split {p bytes : List UInt8} (hp : p <+: bytes) :
    Cut Shortened ((Line.split p).map Line.content) ((Line.split bytes).map Line.content) := by
  induction bytes using Line.split_induction generalizing p with
  | nil =>
    obtain rfl := List.prefix_nil.mp hp
    exact .nil _
  | unended content hcontent hne =>
    rw [Line.split_of_unbroken hcontent hne]
    exact cut_of_prefix hp hcontent []
  | ended content e rest hcontent he ih =>
    rw [Line.split_append hcontent he, List.map_cons]
    rcases List.prefix_or_prefix_of_prefix hp (List.prefix_append content _) with hshort | hlong
    · exact cut_of_prefix hshort hcontent _
    · obtain ⟨q, rfl⟩ := hlong
      have hq := (List.prefix_append_right_inj content).mp hp
      by_cases hne : q = []
      · subst hne
        exact cut_of_prefix (by simp) hcontent _
      rcases Ending.exists_of_prefix hq hne with ⟨p, rfl, hrest⟩ | rfl
      · rw [Line.split_append hcontent (he.mono hrest), List.map_cons]
        exact .cons _ (ih hrest)
      · have hsplit := Line.split_append hcontent (Ending.overBefore_nil .cr)
        rw [List.append_nil] at hsplit
        rw [hsplit]
        exact .cons content (.nil _)

/-- The texts on the lines of a prefix are those on the lines of the stream, cut. -/
theorem cut_texts {p bytes : List UInt8} {texts' texts : List String} (hp : p <+: bytes)
    (htexts' : (Line.split p).map (fun l ↦ Text.decode l.content) = texts'.map some)
    (htexts : (Line.split bytes).map (fun l ↦ Text.decode l.content) = texts.map some) :
    Cut ShortenedText texts' texts := by
  have hcontents : ∀ {ls : List Line} {texts : List String},
      ls.map (fun l ↦ Text.decode l.content) = texts.map some ↔
        ls.map Line.content = texts.map Text.encode :=
    map_eq_map_congr fun _ _ ↦ Text.decode_eq_some_iff.trans eq_comm
  have hcut := cut_split hp
  rw [hcontents.mp htexts', hcontents.mp htexts] at hcut
  refine (hcut.of_map fun b b' ↦ Text.encode_inj.mp).imp ?_
  rintro a b ⟨hne, hprefix⟩
  constructor
  · rintro rfl
    exact hne Text.encode_empty
  · exact Text.prefix_of_encode_prefix hprefix

end WebVTT
