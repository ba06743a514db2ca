import PageSplice.Text.Occurrence

/-!
# What a search finds

A pattern recognises a class of texts if the beginnings that it matches are the members of the
class (`Pattern.Recognises`).  A search with such a pattern comes back empty exactly from a text that
contains no member (`firstOccurrence?_eq_none_iff_not_contains`), and else it finds the member that
begins first (`firstOccurrence?_eq_some_iff`).
-/

namespace PageSplice.Text

/-- What a pattern matches at the beginning of a text are the members of a class. -/
def Pattern.Recognises (p : Pattern) (q : Text → Prop) : Prop :=
  ∀ ⦃t m r⦄, p t = some (m, r) ↔ q m ∧ m ++ r = t

/-- A member of the class stands somewhere in the text. -/
def Contains (q : Text → Prop) (t : Text) : Prop := ∃ a m b, q m ∧ a ++ m ++ b = t

/-- A place in a text where a member of the class stands and before which none begins. -/
structure IsEarliest (q : Text → Prop) (t : Text) (o : Occurrence) : Prop where
  text_eq : o.text = t
  belongs : q o.matched
  first : ∀ o' : Occurrence, o'.text = t → q o'.matched → o.start ≤ o'.start

variable {p : Pattern} {q : Text → Prop} {t : Text} {o : Occurrence}

theorem Pattern.Recognises.splits (hp : p.Recognises q) : p.Splits :=
  fun _ _ _ h => (hp.1 h).2

theorem Pattern.Recognises.eq_some_of_text_eq (hp : p.Recognises q) (ho : q o.matched)
    (ht : o.text = t) : p (t.drop o.start) = some (o.matched, o.after) := by
  subst ht
  rw [Occurrence.text, Occurrence.start, List.append_assoc, List.drop_left]
  exact hp.2 ⟨ho, rfl⟩

theorem firstOccurrence?_eq_none_iff_not_contains (hp : p.Recognises q) :
    firstOccurrence? p t = none ↔ ¬ Contains q t := by
  rw [firstOccurrence?_eq_none_iff]
  constructor
  · rintro h ⟨a, m, b, hm, rfl⟩
    have hnone := h a.length (by simp)
    have hsome := hp.eq_some_of_text_eq (o := ⟨a, m, b⟩) hm rfl
    rw [Occurrence.text, Occurrence.start, hnone] at hsome
    cases hsome
  · intro h i _
    cases hi : p (t.drop i) with
    | none => rfl
    | some mr =>
      obtain ⟨hm, hr⟩ := hp.1 hi
      exact absurd ⟨t.take i, mr.1, mr.2, hm, by rw [List.append_assoc, hr, List.take_append_drop]⟩ h

theorem isEarliest_of_firstOccurrence? (hp : p.Recognises q) (h : firstOccurrence? p t = some o) :
    IsEarliest q t o := by
  refine ⟨Occurrence.text_eq hp.splits h, (hp.1 (matches_of_firstOccurrence? h)).1, ?_⟩
  intro o' ht hm
  apply Nat.le_of_not_lt
  intro hlt
  have hnone := not_matches_before h hlt
  rw [hp.eq_some_of_text_eq hm ht] at hnone
  cases hnone

theorem IsEarliest.start_le_of_append (h : IsEarliest q t o) {o' : Occurrence} {y : Text}
    (hm : q o'.matched) (ht : o'.text ++ y = t) : o.start ≤ o'.start := by
  refine h.first ⟨o'.before, o'.matched, o'.after ++ y⟩ ?_ hm
  rw [← ht]
  simp [Occurrence.text]

/-- What begins first in a text does so in the part up to its end. -/
theorem IsEarliest.through (h : IsEarliest q t o) :
    IsEarliest q o.through ⟨o.before, o.matched, []⟩ := by
  refine ⟨by simp [Occurrence.text, Occurrence.through], h.belongs, ?_⟩
  intro o' ht hm
  have hle : o.start ≤ o'.start := h.start_le_of_append hm (y := o.after) (by rw [ht]; exact h.text_eq)
  exact hle

/-- Before the member that begins first stands no other one: it would begin there. -/
theorem IsEarliest.not_contains_before (h : IsEarliest q t o) (hne : ∀ m, q m → m ≠ []) :
    ¬ Contains q o.before := by
  rintro ⟨a, m, b, hm, hb⟩
  have hle : o.start ≤ a.length :=
    h.first ⟨a, m, b ++ o.onward⟩ (by rw [← h.text_eq]; simp [Occurrence.text, Occurrence.onward, ← hb])
      hm
  have hpos := List.length_pos_iff.2 (hne m hm)
  rw [Occurrence.start, ← hb, List.length_append, List.length_append] at hle
  omega

theorem Occurrence.length_through (o : Occurrence) : o.through.length = o.stop :=
  List.length_append

/-- At one place of a text stands one member of a recognised class at most. -/
theorem Pattern.Recognises.eq_of_start_eq (hp : p.Recognises q) {o' : Occurrence} (ho : q o.matched)
    (ho' : q o'.matched) (htext : o.text = o'.text) (hstart : o.start = o'.start) : o = o' := by
  -- the pattern matches one text there
  have hmatch := hp.eq_some_of_text_eq ho htext
  rw [hstart, hp.eq_some_of_text_eq ho' rfl, Option.some.injEq, Prod.mk.injEq] at hmatch
  rw [Occurrence.text, Occurrence.text, List.append_assoc, List.append_assoc] at htext
  have hbefore := (List.append_inj htext hstart).1
  cases o
  cases o'
  simp_all

/-- Only one member of a recognised class begins first. -/
theorem IsEarliest.unique (hp : p.Recognises q) {o' : Occurrence} (h : IsEarliest q t o)
    (h' : IsEarliest q t o') : o = o' :=
  hp.eq_of_start_eq h.belongs h'.belongs (h.text_eq.trans h'.text_eq.symm)
    (Nat.le_antisymm (h.first o' h'.text_eq h'.belongs) (h'.first o h.text_eq h.belongs))

theorem exists_isEarliest (hp : p.Recognises q) (h : Contains q t) : ∃ o, IsEarliest q t o := by
  cases hfound : firstOccurrence? p t with
  | none => exact absurd h ((firstOccurrence?_eq_none_iff_not_contains hp).1 hfound)
  | some o => exact ⟨o, isEarliest_of_firstOccurrence? hp hfound⟩

theorem firstOccurrence?_eq_some_iff (hp : p.Recognises q) :
    firstOccurrence? p t = some o ↔ IsEarliest q t o := by
  constructor
  · exact isEarliest_of_firstOccurrence? hp
  · intro h
    have hholds : Contains q t := ⟨o.before, o.matched, o.after, h.belongs, h.text_eq⟩
    cases hfound : firstOccurrence? p t with
    | none => exact absurd hholds ((firstOccurrence?_eq_none_iff_not_contains hp).1 hfound)
    | some o' => rw [h.unique hp (isEarliest_of_firstOccurrence? hp hfound)]

theorem literal_recognises (w : Text) : (literal w).Recognises (· = w) := by
  intro t m r
  rw [literal_eq_some_iff]
  constructor
  · rintro ⟨rfl, h⟩
    exact ⟨rfl, h⟩
  · rintro ⟨rfl, h⟩
    exact ⟨rfl, h⟩

theorem caseless_recognises (w : Text) : (caseless w).Recognises (lower · = w) :=
  fun _ _ _ => caseless_eq_some_iff

end PageSplice.Text
