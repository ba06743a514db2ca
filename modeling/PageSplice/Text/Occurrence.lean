import PageSplice.Text

/-!
# First occurrences

A `Pattern` says how much of a text's beginning it matches.  `firstOccurrence?` finds the leftmost
place where a pattern matches and cuts the text there in three; `pieces` cuts a text at every
occurrence of a word, from left to right and without overlap.  Main statements: the three parts
make up the text (`Occurrence.text_eq`), and no earlier place matches
(`firstOccurrence?_eq_none_iff`, `not_matches_before`).
-/

namespace PageSplice.Text

/-- What a text begins with: the matched part and what follows it. -/
abbrev Pattern := Text → Option (Text × Text)

/-- A pattern splits the text it matches. -/
def Pattern.Splits (p : Pattern) : Prop :=
  ∀ t m r, p t = some (m, r) → m ++ r = t

/-- The text after a beginning that is given. -/
def after? : Text → Text → Option Text
  | [], t => some t
  | _ :: _, [] => none
  | a :: lead, b :: t => if a = b then after? lead t else none

theorem after?_eq_some_iff {lead t r : Text} : after? lead t = some r ↔ lead ++ r = t := by
  induction lead generalizing t with
  | nil => simp [after?, eq_comm]
  | cons a lead ih =>
    cases t with
    | nil => simp [after?]
    | cons b t =>
      by_cases h : a = b
      · subst h; simp [after?, ih]
      · simp [after?, h]

/-- Matches a text letter for letter. -/
def literal (w : Text) : Pattern := fun t => (after? w t).map (w, ·)

theorem literal_eq_some_iff {w t m r : Text} :
    literal w t = some (m, r) ↔ m = w ∧ w ++ r = t := by
  simp only [literal, Option.map_eq_some_iff, after?_eq_some_iff, Prod.mk.injEq]
  constructor
  · rintro ⟨_, h, rfl, rfl⟩; exact ⟨rfl, h⟩
  · rintro ⟨rfl, h⟩; exact ⟨r, h, rfl, rfl⟩

/-- Matches a text given in lower case, in either case. -/
def caseless (w : Text) : Pattern := fun t =>
  if lower (t.take w.length) = w then some (t.splitAt w.length) else none

theorem caseless_eq_some_iff {w t m r : Text} :
    caseless w t = some (m, r) ↔ lower m = w ∧ m ++ r = t := by
  unfold caseless
  constructor
  · intro h
    split at h
    · next hw =>
      simp only [List.splitAt_eq, Option.some.injEq, Prod.mk.injEq] at h
      obtain ⟨rfl, rfl⟩ := h
      exact ⟨hw, List.take_append_drop ..⟩
    · simp at h
  · rintro ⟨rfl, rfl⟩
    simp

/-- Matches the longest run of characters of a class, possibly empty. -/
def run (q : Char → Bool) : Pattern := fun t => some (t.takeWhile q, t.dropWhile q)

/-- Matches one pattern and right behind it another. -/
def Pattern.andThen (p q : Pattern) : Pattern := fun t =>
  (p t).bind fun (m, r) => (q r).map fun (m', r') => (m ++ m', r')

theorem Pattern.andThen_eq_some_iff {p q : Pattern} {t m r : Text} :
    p.andThen q t = some (m, r) ↔
      ∃ m₁ r₁ m₂, p t = some (m₁, r₁) ∧ q r₁ = some (m₂, r) ∧ m = m₁ ++ m₂ := by
  simp only [Pattern.andThen, Option.bind_eq_some_iff, Option.map_eq_some_iff, Prod.mk.injEq,
    Prod.exists]
  constructor
  · rintro ⟨m₁, r₁, h₁, m₂, _, h₂, rfl, rfl⟩; exact ⟨m₁, r₁, m₂, h₁, h₂, rfl⟩
  · rintro ⟨m₁, r₁, m₂, h₁, h₂, rfl⟩; exact ⟨m₁, r₁, h₁, m₂, r, h₂, rfl, rfl⟩

theorem literal_splits (w : Text) : (literal w).Splits := by
  intro t m r h
  obtain ⟨rfl, h⟩ := literal_eq_some_iff.1 h
  exact h

theorem caseless_splits (w : Text) : (caseless w).Splits :=
  fun _ _ _ h => (caseless_eq_some_iff.1 h).2

theorem run_splits (q : Char → Bool) : (run q).Splits := by
  intro t m r h
  cases h
  exact List.takeWhile_append_dropWhile

theorem Pattern.Splits.andThen {p q : Pattern} (hp : p.Splits) (hq : q.Splits) :
    (p.andThen q).Splits := by
  intro t m r h
  obtain ⟨m₁, r₁, m₂, h₁, h₂, rfl⟩ := Pattern.andThen_eq_some_iff.1 h
  rw [List.append_assoc, hq _ _ _ h₂, hp _ _ _ h₁]

/-! ## The leftmost match -/

/-- One place in a text: what stands before it, what a pattern matched there, and the rest. -/
structure Occurrence where
  before : Text
  matched : Text
  after : Text
deriving DecidableEq, Repr

namespace Occurrence

def text (o : Occurrence) : Text := o.before ++ o.matched ++ o.after

/-- The position where the match begins. -/
def start (o : Occurrence) : Nat := o.before.length

/-- The position where the match ends. -/
def stop (o : Occurrence) : Nat := o.before.length + o.matched.length

/-- The text up to and including the match. -/
def through (o : Occurrence) : Text := o.before ++ o.matched

/-- The text from the match on. -/
def onward (o : Occurrence) : Text := o.matched ++ o.after

end Occurrence

def firstOccurrence? (p : Pattern) (t : Text) : Option Occurrence :=
  match p t with
  | some (m, r) => some ⟨[], m, r⟩
  | none => match t with
    | [] => none
    | c :: t => (firstOccurrence? p t).map fun o => { o with before := c :: o.before }

theorem Occurrence.text_eq {p : Pattern} (hp : p.Splits) {t : Text} {o : Occurrence}
    (h : firstOccurrence? p t = some o) : o.text = t := by
  induction t generalizing o with
  | nil =>
    unfold firstOccurrence? at h
    split at h
    · next m r hm =>
      cases h
      simpa [Occurrence.text] using hp _ _ _ hm
    · cases h
  | cons c t ih =>
    unfold firstOccurrence? at h
    split at h
    · next m r hm =>
      cases h
      simpa [Occurrence.text] using hp _ _ _ hm
    · obtain ⟨o', ho', rfl⟩ := Option.map_eq_some_iff.1 h
      have := ih ho'
      simp_all [Occurrence.text]

theorem matches_of_firstOccurrence? {p : Pattern} {t : Text} {o : Occurrence}
    (h : firstOccurrence? p t = some o) : p (t.drop o.start) = some (o.matched, o.after) := by
  induction t generalizing o with
  | nil =>
    unfold firstOccurrence? at h
    split at h
    · next m r hm => cases h; simpa [Occurrence.start] using hm
    · cases h
  | cons c t ih =>
    unfold firstOccurrence? at h
    split at h
    · next m r hm => cases h; simpa [Occurrence.start] using hm
    · obtain ⟨o', ho', rfl⟩ := Option.map_eq_some_iff.1 h
      simpa [Occurrence.start] using ih ho'

theorem not_matches_before {p : Pattern} {t : Text} {o : Occurrence}
    (h : firstOccurrence? p t = some o) {i : Nat} (hi : i < o.start) : p (t.drop i) = none := by
  induction t generalizing o i with
  | nil =>
    unfold firstOccurrence? at h
    split at h
    · cases h; simp [Occurrence.start] at hi
    · cases h
  | cons c t ih =>
    unfold firstOccurrence? at h
    split at h
    · cases h; simp [Occurrence.start] at hi
    · next hn =>
      obtain ⟨o', ho', rfl⟩ := Option.map_eq_some_iff.1 h
      cases i with
      | zero => simpa using hn
      | succ i => simpa using ih ho' (by simpa [Occurrence.start] using hi)

/-- A match is the first one if no place before it matches. -/
theorem firstOccurrence?_of_matches {p : Pattern} {before t m r : Text} (h : p t = some (m, r))
    (hbefore : ∀ i < before.length, p ((before ++ t).drop i) = none) :
    firstOccurrence? p (before ++ t) = some ⟨before, m, r⟩ := by
  induction before with
  | nil =>
    unfold firstOccurrence?
    rw [List.nil_append, h]
  | cons c before ih =>
    have hhead : p (c :: (before ++ t)) = none := by simpa using hbefore 0 (by simp)
    have hrest := ih fun i hi => by simpa using hbefore (i + 1) (by simpa using hi)
    rw [List.cons_append, firstOccurrence?, hhead, hrest]
    rfl

theorem firstOccurrence?_eq_none_iff {p : Pattern} {t : Text} :
    firstOccurrence? p t = none ↔ ∀ i ≤ t.length, p (t.drop i) = none := by
  induction t with
  | nil =>
    unfold firstOccurrence?
    constructor
    · intro h i _
      split at h
      · cases h
      · next hn => simpa using hn
    · intro h
      rw [show p [] = none by simpa using h 0 (Nat.zero_le _)]
  | cons c t ih =>
    unfold firstOccurrence?
    constructor
    · intro h i hi
      split at h
      · cases h
      · next hn =>
        cases i with
        | zero => simpa using hn
        | succ i => simpa using ih.1 (by simpa using h) i (by simpa using hi)
    · intro h
      rw [show p (c :: t) = none by simpa using h 0 (Nat.zero_le _)]
      simpa using ih.2 fun i hi => by simpa using h (i + 1) (by simpa using hi)

/-! ## Cutting at every occurrence of a word -/

theorem length_after_lt {w t : Text} {o : Occurrence} (hw : w ≠ [])
    (h : firstOccurrence? (literal w) t = some o) : o.after.length < t.length := by
  obtain ⟨rfl, ht⟩ := literal_eq_some_iff.1 (matches_of_firstOccurrence? h)
  have hl := congrArg List.length ht
  have hpos := List.length_pos_iff.2 hw
  simp only [List.length_append, List.length_drop] at hl
  omega

/-- The texts around the occurrences of a word; one more than there are occurrences. -/
def pieces (w : Text) (t : Text) : List Text :=
  if hw : w = [] then [t]
  else match h : firstOccurrence? (literal w) t with
    | none => [t]
    | some o =>
      have := length_after_lt hw h
      o.before :: pieces w o.after
termination_by t.length

theorem pieces_of_none {w t : Text} (h : firstOccurrence? (literal w) t = none) :
    pieces w t = [t] := by
  rw [pieces]
  split
  · rfl
  · split
    · rfl
    · next o ho => rw [h] at ho; cases ho

theorem pieces_of_some {w t : Text} {o : Occurrence} (hw : w ≠ [])
    (h : firstOccurrence? (literal w) t = some o) : pieces w t = o.before :: pieces w o.after := by
  rw [pieces, dif_neg hw]
  split
  · next hnone => rw [h] at hnone; cases hnone
  · next o' ho => rw [h] at ho; cases ho; rfl

/-- Every occurrence of `w` becomes `body`; what was inserted is not looked at again. -/
def replaceAll (w body t : Text) : Text := body.intercalate (pieces w t)

end PageSplice.Text
