import PageSplice.Page.Section
import PageSplice.Proofs.Search

/-!
# Markers in a text

`commentOf` reads a marker greedily, blank run after blank run; `IsComment` says what a marker is.
For a label that does not begin blank the two agree (`commentOf_eq_some_iff`).  Where no marker
reaches from one text into the next (`Seam`), a search in the two is a search in each
(`firstOccurrence?_append`).  That is so behind a `>`, if the label holds none, and before a `<`, if
the label holds no angle bracket at all or no marker begins in what stands there (`Begins`).
-/

namespace PageSplice

open Text

/-- A comment that holds a label with blanks around it. -/
def IsComment (label m : Text) : Prop :=
  ∃ u v, u.all isBlank ∧ v.all isBlank ∧ m = "<!--".toList ++ u ++ label ++ v ++ "-->".toList

/-- A label does not begin blank, so the blanks before it end where it begins. -/
def IsLabel (label : Text) : Prop := ∃ c rest, label = c :: rest ∧ isBlank c = false

/-- A label without angle brackets. -/
def IsPlain (label : Text) : Prop := '<' ∉ label ∧ '>' ∉ label

instance (label : Text) : Decidable (IsPlain label) := by unfold IsPlain; infer_instance

theorem isPlain_slash {name : Text} (h : IsPlain name) : IsPlain ('/' :: name) := by
  simpa [IsPlain] using h

theorem not_mem_slash {name : Text} (hc : '>' ∉ name) : '>' ∉ '/' :: name := by
  simpa using hc

theorem isLabel_of_isSectionName {name : Text} (h : IsSectionName name) : IsLabel name := by
  obtain ⟨hne, heq⟩ := h
  cases name with
  | nil => exact absurd rfl hne
  | cons c rest =>
    refine ⟨c, rest, rfl, ?_⟩
    -- a blank first character would make the trimmed name shorter
    refine Bool.eq_false_iff.2 fun hc => ?_
    have hlen := congrArg List.length heq
    have h₁ := (List.dropWhile_suffix (l := rest) isBlank).length_le
    have h₂ := (List.dropWhile_suffix (l := (rest.dropWhile isBlank).reverse) isBlank).length_le
    simp only [trim, List.dropWhile_cons, hc, if_true, List.length_reverse,
      List.length_cons] at hlen h₂
    omega

theorem isLabel_slash (name : Text) : IsLabel ('/' :: name) := ⟨'/', name, rfl, by decide⟩

/-! ## Reading a marker -/

theorem takeWhile_blank_append {u t : Text} (hu : u.all isBlank)
    (ht : t.head?.all fun c => !isBlank c) : (u ++ t).takeWhile isBlank = u ∧
      (u ++ t).dropWhile isBlank = t := by
  have hu : ∀ c ∈ u, isBlank c = true := List.all_eq_true.1 hu
  rw [List.takeWhile_append_of_pos hu, List.dropWhile_append_of_pos hu]
  cases t with
  | nil => simp
  | cons c t =>
    have hc : isBlank c = false := by simpa using ht
    simp [hc]

theorem commentOf_eq_some_iff {label t m r : Text} (hl : IsLabel label) :
    commentOf label t = some (m, r) ↔ IsComment label m ∧ m ++ r = t := by
  obtain ⟨c, rest, rfl, hc⟩ := hl
  simp only [commentOf, Pattern.andThen_eq_some_iff, literal_eq_some_iff, run, Option.some.injEq,
    Prod.mk.injEq]
  constructor
  · rintro ⟨_, r₁, _, ⟨_, r₂, v, ⟨_, r₃, _, ⟨_, r₄, u, ⟨rfl, h₄⟩, ⟨hu, h₃⟩, rfl⟩, ⟨rfl, h₂⟩, rfl⟩,
      ⟨hv, h₁⟩, rfl⟩, ⟨rfl, h₀⟩, rfl⟩
    refine ⟨⟨u, v, ?_, ?_, by simp⟩, ?_⟩
    · rw [← hu]; exact List.all_takeWhile
    · rw [← hv]; exact List.all_takeWhile
    · rw [← h₄, ← List.takeWhile_append_dropWhile (p := isBlank) (l := r₄), hu, h₃, ← h₂,
        ← List.takeWhile_append_dropWhile (p := isBlank) (l := r₂), hv, h₁, ← h₀]
      simp
  · rintro ⟨⟨u, v, hu, hv, rfl⟩, rfl⟩
    obtain ⟨hu₁, hu₂⟩ := takeWhile_blank_append (t := c :: rest ++ (v ++ ("-->".toList ++ r))) hu
      (by simp [hc])
    obtain ⟨hv₁, hv₂⟩ := takeWhile_blank_append (t := "-->".toList ++ r) hv
      (by simp; decide)
    exact ⟨_, _, _, ⟨_, _, v, ⟨_, _, _, ⟨_, _, u, ⟨rfl, by simp⟩, ⟨hu₁, hu₂⟩, rfl⟩, ⟨rfl, rfl⟩, rfl⟩,
      ⟨hv₁, hv₂⟩, rfl⟩, ⟨rfl, rfl⟩, by simp⟩

theorem IsComment.ne_nil {label m : Text} (h : IsComment label m) : m ≠ [] := by
  obtain ⟨u, v, -, -, rfl⟩ := h
  simp

theorem not_mem_of_all_blank {c : Char} {u : Text} (hu : u.all isBlank) (hc : isBlank c = false) :
    c ∉ u := fun h => by
  have := List.all_eq_true.1 hu c h
  simp [hc] at this

theorem IsComment.head? {label m : Text} (h : IsComment label m) : m.head? = some '<' := by
  obtain ⟨u, v, -, -, rfl⟩ := h
  rfl

/-- The only `<` of a plain marker is its first character. -/
theorem IsComment.eq_cons {label m : Text} (h : IsComment label m) (hp : IsPlain label) :
    ∃ m', m = '<' :: m' ∧ '<' ∉ m' := by
  obtain ⟨u, v, hu, hv, rfl⟩ := h
  refine ⟨"!--".toList ++ u ++ label ++ v ++ "-->".toList, by simp, ?_⟩
  have hu := not_mem_of_all_blank hu (c := '<') (by decide)
  have hv := not_mem_of_all_blank hv (c := '<') (by decide)
  simp [hu, hv, hp.1]

/-- If the label holds no `>`, the only one of a marker is its last character. -/
theorem IsComment.eq_concat {label m : Text} (h : IsComment label m) (hc : '>' ∉ label) :
    ∃ m', m = m' ++ ['>'] ∧ '>' ∉ m' := by
  obtain ⟨u, v, hu, hv, rfl⟩ := h
  refine ⟨"<!--".toList ++ u ++ label ++ v ++ "--".toList, by simp, ?_⟩
  have hu := not_mem_of_all_blank hu (c := '>') (by decide)
  have hv := not_mem_of_all_blank hv (c := '>') (by decide)
  simp [hu, hv, hc]

/-- At one place stands one marker at most, if labels hold no `>`. -/
theorem IsComment.eq_of_append_eq {label label' m m' r r' : Text} (hm : IsComment label m)
    (hm' : IsComment label' m') (hc : '>' ∉ label) (hc' : '>' ∉ label')
    (h : m ++ r = m' ++ r') : m = m' := by
  have hcut : ∀ {w t : Text}, '>' ∉ w → (w ++ ['>'] ++ t).takeWhile (· ≠ '>') = w := by
    intro w t hw
    have hne : ∀ c ∈ w, decide (c ≠ '>') = true := fun c hcw =>
      decide_eq_true (ne_of_mem_of_not_mem hcw hw)
    rw [List.append_assoc, List.takeWhile_append_of_pos hne]
    simp
  obtain ⟨w, rfl, hw⟩ := hm.eq_concat hc
  obtain ⟨w', rfl, hw'⟩ := hm'.eq_concat hc'
  rw [← hcut hw (t := r), h, hcut hw']

theorem dropWhile_reverse_of_isSectionName {name : Text} (h : IsSectionName name) :
    name.reverse.dropWhile isBlank = name.reverse := by
  obtain ⟨c, rest, hname, hc⟩ := isLabel_of_isSectionName h
  have htrim := h.2
  rw [trim, hname, List.dropWhile_cons_of_neg (by simp [hc]), ← hname] at htrim
  rw [← List.reverse_reverse (name.reverse.dropWhile isBlank), htrim]

theorem isSectionName_slash {name : Text} (h : IsSectionName name) : IsSectionName ('/' :: name) := by
  obtain ⟨c, rest, hname, -⟩ := isLabel_of_isSectionName h
  have hslash : isBlank '/' = false := by decide
  have hne : name.reverse.isEmpty = false := by simp [hname]
  have htrim : trim ('/' :: name) = '/' :: name := by
    rw [trim, List.dropWhile_cons_of_neg (by simp [hslash]), List.reverse_cons,
      List.dropWhile_append, dropWhile_reverse_of_isSectionName h, hne]
    simp
  refine ⟨?_, htrim⟩
  rw [htrim]
  exact List.cons_ne_nil _ _

theorem trim_append_blanks {name u v : Text} (h : IsSectionName name) (hu : u.all isBlank)
    (hv : v.all isBlank) : trim (u ++ name ++ v) = name := by
  obtain ⟨c, rest, hname, hc⟩ := isLabel_of_isSectionName h
  have hkeep : (name ++ v).dropWhile isBlank = name ++ v := by simp [hname, hc]
  have hv' : ∀ d ∈ v.reverse, isBlank d = true := by simpa using hv
  rw [trim, List.append_assoc, List.dropWhile_append_of_pos (List.all_eq_true.1 hu), hkeep,
    List.reverse_append, List.dropWhile_append_of_pos hv', dropWhile_reverse_of_isSectionName h,
    List.reverse_reverse]

/-- A marker is the marker of one name. -/
theorem IsComment.name_unique {m n t : Text} (hm : IsSectionName m) (hn : IsSectionName n)
    (htm : IsComment m t) (htn : IsComment n t) : m = n := by
  obtain ⟨u, v, hu, hv, rfl⟩ := htm
  obtain ⟨u', v', hu', hv', h⟩ := htn
  have h : u ++ m ++ v = u' ++ n ++ v' := by
    rw [List.append_left_inj] at h
    simpa using h
  rw [← trim_append_blanks hm hu hv, h, trim_append_blanks hn hu' hv']

/-! ## Texts that hold no marker -/

def Holds (label t : Text) : Prop := ∃ a m b, IsComment label m ∧ a ++ m ++ b = t

theorem commentOf_recognises {label : Text} (hl : IsLabel label) :
    (commentOf label).Recognises (IsComment label) :=
  fun _ _ _ => commentOf_eq_some_iff hl

theorem firstOccurrence?_eq_none_iff_not_holds {label t : Text} (hl : IsLabel label) :
    firstOccurrence? (commentOf label) t = none ↔ ¬ Holds label t :=
  firstOccurrence?_eq_none_iff_not_contains (commentOf_recognises hl)

theorem isComment_of_firstOccurrence? {label t : Text} {o : Occurrence} (hl : IsLabel label)
    (h : firstOccurrence? (commentOf label) t = some o) : IsComment label o.matched :=
  (isEarliest_of_firstOccurrence? (commentOf_recognises hl) h).belongs

theorem start_lt_stop_of_firstOccurrence? {label t : Text} {o : Occurrence} (hl : IsLabel label)
    (h : firstOccurrence? (commentOf label) t = some o) : o.start < o.stop := by
  have := List.length_pos_iff.2 (isComment_of_firstOccurrence? hl h).ne_nil
  simp only [Occurrence.start, Occurrence.stop]
  omega

/-! ## Cutting a text where no marker reaches across -/

/-- A place where a text may be cut: no marker that begins before it ends behind it. -/
def Seam (label x y : Text) : Prop :=
  ∀ ⦃u m b : Text⦄, u <:+ x → u ≠ [] → IsComment label m → m ++ b = u ++ y → ∃ u', u = m ++ u'

/-- A marker begins in the text.  It may end behind it, if a `<` comes next. -/
def Begins (label t : Text) : Prop :=
  ∃ u m b y, u <:+ t ∧ u ≠ [] ∧ IsComment label m ∧ y.head? = some '<' ∧ m ++ b = u ++ y

/-- It is enough to look at the markers that reach into the second text. -/
theorem seam_of_not_across {label x y : Text} (h : ∀ u c z b, u <:+ x → u ≠ [] →
    IsComment label (u ++ c :: z) → y ≠ c :: z ++ b) : Seam label x y := by
  intro u m b hu hne hm heq
  obtain ⟨u', rfl, -⟩ | ⟨z, rfl, hy⟩ := List.append_eq_append_iff.1 heq
  · exact ⟨u', rfl⟩
  · cases z with
    | nil => exact ⟨[], by simp⟩
    | cons c z => exact absurd hy (h u c z b hu hne hm)

/-- The `>` before the seam would stand inside a marker that reaches across. -/
theorem seam_of_closed {label x y : Text} (hc : '>' ∉ label) (hx : x.getLast? = some '>') :
    Seam label x y := by
  refine seam_of_not_across fun u c z b hu hne hm _ => ?_
  obtain ⟨m', hm', hnot⟩ := hm.eq_concat hc
  have hu' : u.getLast? = some '>' := by
    obtain ⟨w, rfl⟩ := hu
    rwa [List.getLast?_append, List.getLast?_eq_some_getLast hne, Option.some_or,
      ← List.getLast?_eq_some_getLast] at hx
  obtain ⟨u', rfl⟩ := List.getLast?_eq_some_iff.1 hu'
  have hinner : m' = u' ++ ['>'] ++ (c :: z).dropLast := by
    have hdrop := congrArg List.dropLast hm'
    simpa [List.dropLast_append_of_ne_nil] using hdrop.symm
  apply hnot
  simp [hinner]

/-- The `<` behind the seam would stand inside a plain marker that reaches across. -/
theorem seam_of_opened {label x y : Text} (hp : IsPlain label) (hy : y.head? = some '<') :
    Seam label x y := by
  refine seam_of_not_across fun u c z b _ hne hm heq => ?_
  obtain rfl : c = '<' := by simpa [heq] using hy
  obtain ⟨m', hm', hnot⟩ := hm.eq_cons hp
  cases u with
  | nil => exact hne rfl
  | cons d u =>
    apply hnot
    simp [← (List.cons.inj hm').2]

theorem seam_of_not_begins {label x y : Text} (h : ¬ Begins label x) (hy : y.head? = some '<') :
    Seam label x y :=
  fun u m b hu hne hm heq => absurd ⟨u, m, b, y, hu, hne, hm, hy, heq⟩ h

theorem Holds.begins {label t : Text} (h : Holds label t) : Begins label t := by
  obtain ⟨a, m, b, hm, rfl⟩ := h
  have hsuffix : m ++ b <:+ a ++ m ++ b := ⟨a, by simp⟩
  exact ⟨m ++ b, m, b ++ ['<'], ['<'], hsuffix, by simp [hm.ne_nil], hm, rfl, by simp⟩

/-- A plain marker that begins in a text ends there. -/
theorem begins_iff_holds {label t : Text} (hp : IsPlain label) : Begins label t ↔ Holds label t := by
  refine ⟨?_, Holds.begins⟩
  rintro ⟨u, m, b, y, ⟨w, rfl⟩, hne, hm, hy, h⟩
  obtain ⟨u', rfl⟩ := seam_of_opened hp hy (List.suffix_refl u) hne hm h
  exact ⟨w, m, u', hm, by simp⟩

/-- A marker begins as a comment does. -/
theorem Begins.isInfix {label t : Text} (h : Begins label t) : "<!--".toList <:+: t := by
  obtain ⟨u, m, b, y, ⟨w, rfl⟩, hne, ⟨v, v', -, -, rfl⟩, hy, h⟩ := h
  rw [List.append_assoc, List.append_assoc, List.append_assoc, List.append_assoc] at h
  obtain ⟨u', rfl, -⟩ | ⟨z, hz, hyz⟩ := List.append_eq_append_iff.1 h
  · exact ⟨w, u', by simp⟩
  · cases z with
    | nil => exact ⟨w, [], by simp [hz]⟩
    | cons c z =>
      -- a `<` would stand in `<!--` behind its first character
      exfalso
      obtain rfl : c = '<' := by simpa [hyz] using hy
      cases u with
      | nil => exact hne rfl
      | cons d u =>
        have hrest : "!--".toList = u ++ '<' :: z := List.tail_eq_of_cons_eq hz
        have hmem : '<' ∈ "!--".toList := by simp [hrest]
        exact absurd hmem (by decide)

theorem commentOf_append {label x y : Text} (hl : IsLabel label) (hs : Seam label x y)
    (hx : x ≠ []) :
    commentOf label (x ++ y) = (commentOf label x).map fun (m, r) => (m, r ++ y) := by
  ext ⟨m, r⟩
  rw [Option.map_eq_some_iff]
  constructor
  · intro h
    obtain ⟨hm, hr⟩ := (commentOf_eq_some_iff hl).1 h
    obtain ⟨x', rfl⟩ := hs (List.suffix_refl x) hx hm hr
    have hr : r = x' ++ y := by simpa using hr
    exact ⟨(m, x'), (commentOf_eq_some_iff hl).2 ⟨hm, rfl⟩, by rw [hr]⟩
  · rintro ⟨⟨m', x'⟩, h, heq⟩
    obtain ⟨rfl, rfl⟩ := Prod.mk.inj heq
    obtain ⟨hm, rfl⟩ := (commentOf_eq_some_iff hl).1 h
    exact (commentOf_eq_some_iff hl).2 ⟨hm, by simp⟩

/-- A place in a text to which more was appended. -/
def Text.Occurrence.followedBy (o : Occurrence) (y : Text) : Occurrence :=
  { o with after := o.after ++ y }

/-- A place in a text that was put behind another one. -/
def Text.Occurrence.behind (o : Occurrence) (x : Text) : Occurrence :=
  { o with before := x ++ o.before }

@[simp] theorem behind_nil (o : Occurrence) : o.behind [] = o := rfl

theorem Seam.tail {label x y : Text} {c : Char} (hs : Seam label (c :: x) y) : Seam label x y :=
  fun _ _ _ hu => hs (hu.trans (List.suffix_cons c x))

theorem firstOccurrence?_append {label x y : Text} (hl : IsLabel label) (hs : Seam label x y) :
    firstOccurrence? (commentOf label) (x ++ y) =
      ((firstOccurrence? (commentOf label) x).map (·.followedBy y)).or
        ((firstOccurrence? (commentOf label) y).map (·.behind x)) := by
  induction x with
  | nil =>
    have hnil : firstOccurrence? (commentOf label) [] = none := by
      rw [firstOccurrence?_eq_none_iff_not_holds hl]
      rintro ⟨a, m, b, hm, h⟩
      simp [hm.ne_nil] at h
    simp [hnil]
  | cons c x ih =>
    rw [List.cons_append, firstOccurrence?, firstOccurrence?, ← List.cons_append,
      commentOf_append hl hs (List.cons_ne_nil c x)]
    cases commentOf label (c :: x) with
    | some r => simp [Occurrence.followedBy]
    | none =>
      simp only [Option.map_none, ih hs.tail, Option.map_or, Option.map_map]
      rfl

/-- What a search finds behind the first part of a text it finds in the rest. -/
theorem exists_of_length_le_start {p : Pattern} {x y : Text} {o : Occurrence}
    (h : firstOccurrence? p (x ++ y) = some o) (hle : x.length ≤ o.start) :
    ∃ o', firstOccurrence? p y = some o' ∧ o'.behind x = o := by
  induction x generalizing o with
  | nil => exact ⟨o, h, rfl⟩
  | cons c x ih =>
    rw [List.cons_append, firstOccurrence?] at h
    split at h
    · cases h
      simp [Occurrence.start] at hle
    · obtain ⟨o₁, h₁, rfl⟩ := Option.map_eq_some_iff.1 h
      obtain ⟨o', ho', rfl⟩ := ih h₁ (by simpa [Occurrence.start] using hle)
      exact ⟨o', ho', rfl⟩

/-- A first marker stays the first one whatever is appended, if the label holds no `>`. -/
theorem firstOccurrence?_followedBy {label x : Text} {o : Occurrence} (hl : IsLabel label)
    (hc : '>' ∉ label) (h : firstOccurrence? (commentOf label) x = some o) (y : Text) :
    firstOccurrence? (commentOf label) (x ++ y) = some (o.followedBy y) := by
  have hfirst := isEarliest_of_firstOccurrence? (commentOf_recognises hl) h
  have hthrough := (firstOccurrence?_eq_some_iff (commentOf_recognises hl)).2 hfirst.through
  obtain ⟨m, hm, -⟩ := hfirst.belongs.eq_concat hc
  have hs : Seam label o.through (o.after ++ y) :=
    seam_of_closed hc (by simp [Occurrence.through, hm])
  have htext : x ++ y = o.through ++ (o.after ++ y) := by
    rw [← hfirst.text_eq, Occurrence.text, List.append_assoc]
    rfl
  rw [htext, firstOccurrence?_append hl hs, hthrough]
  rfl

end PageSplice
