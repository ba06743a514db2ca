import PageSplice.Page.Body
import PageSplice.Proofs.Search

/-!
# The tags around a body

`IsOpeningTag` and `IsClosingTag` say what the tags are, and `IsBody` what may stand between them.
Main statement: the body of a page is what stands between the opening tag that begins first and the
closing tag that begins first behind it; there is no body exactly if one of the two is missing
(`bodyOf_by_tags`).
-/

namespace PageSplice

open Text

/-- `<body` in either letter case, any characters but `>` and a line feed, and `>`. -/
def IsOpeningTag (m : Text) : Prop :=
  ∃ w a, lower w = "<body".toList ∧ (∀ c ∈ a, c ≠ '\n' ∧ c ≠ '>') ∧ m = w ++ a ++ ['>']

/-- `</body>` in either letter case. -/
def IsClosingTag (m : Text) : Prop := lower m = "</body>".toList

/-- What stands before a closing tag if none occurs or begins in it. -/
def IsBody (rest body : Text) : Prop :=
  ∃ close post, IsClosingTag close ∧ body ++ close ++ post = rest ∧
    ∀ x m y, IsClosingTag m → x ++ m ++ y = rest → body.length ≤ x.length

theorem isAttribute_iff {c : Char} : isAttribute c = true ↔ c ≠ '\n' ∧ c ≠ '>' := by
  simp [isAttribute, and_comm]

theorem openingTag_recognises : openingTag.Recognises IsOpeningTag := by
  intro t m r
  rw [openingTag_eq_some_iff]
  constructor
  · rintro ⟨w, a, hw, ha, hm, ht⟩
    refine ⟨⟨w, a, hw, ?_, hm⟩, ht⟩
    intro c hc
    exact isAttribute_iff.1 (List.all_eq_true.1 ha c hc)
  · rintro ⟨⟨w, a, hw, ha, hm⟩, ht⟩
    refine ⟨w, a, hw, ?_, hm, ht⟩
    rw [List.all_eq_true]
    intro c hc
    exact isAttribute_iff.2 (ha c hc)

theorem closingTag_recognises : closingTag.Recognises IsClosingTag := caseless_recognises _

theorem IsClosingTag.ne_nil {m : Text} (h : IsClosingTag m) : m ≠ [] := by
  rintro rfl
  cases h

theorem isBody_iff {rest body : Text} :
    IsBody rest body ↔ ∃ close post, IsEarliest IsClosingTag rest ⟨body, close, post⟩ := by
  constructor
  · rintro ⟨close, post, hclose, hrest, hfirst⟩
    exact ⟨close, post, hrest, hclose, fun o ht hm => hfirst o.before o.matched o.after hm ht⟩
  · rintro ⟨close, post, hrest, hclose, hfirst⟩
    exact ⟨close, post, hclose, hrest, fun x m y hm ht => hfirst ⟨x, m, y⟩ ht hm⟩

theorem IsBody.unique {rest body body' : Text} (h : IsBody rest body) (h' : IsBody rest body') :
    body' = body := by
  obtain ⟨close, post, h⟩ := isBody_iff.1 h
  obtain ⟨close', post', h'⟩ := isBody_iff.1 h'
  exact congrArg Occurrence.before (h'.unique closingTag_recognises h)

/-- A body holds no closing tag: one that stands in it would begin in it. -/
theorem IsBody.not_contains {rest body : Text} (h : IsBody rest body) :
    ¬ Contains IsClosingTag body := by
  obtain ⟨close, post, h⟩ := isBody_iff.1 h
  exact h.not_contains_before fun _ hm => hm.ne_nil

theorem bodyOf_eq_noOpening_iff {page : Text} :
    bodyOf page = .error (.noDelimiter "<body>".toList) ↔ ¬ Contains IsOpeningTag page := by
  rw [← firstOccurrence?_eq_none_iff_not_contains openingTag_recognises]
  unfold bodyOf
  split
  · next hopen => simp [hopen]
  · next tag hopen =>
    split
    · simp [hopen]
    · simp [hopen]

section
variable {page : Text} {tag : Occurrence} (h : IsEarliest IsOpeningTag page tag)
include h

theorem bodyOf_eq_noClosing_iff :
    bodyOf page = .error (.noDelimiter "</body>".toList) ↔ ¬ Contains IsClosingTag tag.after := by
  have hopen := (firstOccurrence?_eq_some_iff openingTag_recognises).2 h
  rw [← firstOccurrence?_eq_none_iff_not_contains closingTag_recognises, bodyOf, hopen]
  cases hclose : firstOccurrence? closingTag tag.after with
  | none => simp [hclose]
  | some close => simp [hclose]

theorem bodyOf_eq_ok_iff {body : Text} : bodyOf page = .ok body ↔ IsBody tag.after body := by
  have hopen := (firstOccurrence?_eq_some_iff openingTag_recognises).2 h
  rw [isBody_iff, bodyOf, hopen]
  simp only [← firstOccurrence?_eq_some_iff closingTag_recognises]
  cases hclose : firstOccurrence? closingTag tag.after with
  | none => simp
  | some close =>
    simp only [Except.ok.injEq, Option.some.injEq]
    constructor
    · rintro rfl
      exact ⟨close.matched, close.after, rfl⟩
    · rintro ⟨m, r, rfl⟩
      rfl

end

/-- Where `<body` begins before the first opening tag, no `>` follows on its line. -/
theorem not_mem_line_of_isEarliest {page x w y : Text} {tag : Occurrence}
    (h : IsEarliest IsOpeningTag page tag) (hw : lower w = "<body".toList) (ht : x ++ w ++ y = page)
    (hlt : x.length < tag.start) : '>' ∉ y.takeWhile (· != '\n') := by
  intro hmem
  -- up to the first `>` on the line it would be an opening tag
  obtain ⟨a, b, hline, hnot⟩ := List.eq_append_cons_of_mem hmem
  have hattr : ∀ c ∈ a, c ≠ '\n' ∧ c ≠ '>' := by
    intro c hc
    have hc' : c ∈ y.takeWhile (· != '\n') := by
      rw [hline]
      exact List.mem_append_left _ hc
    constructor
    · simpa using List.all_eq_true.1 List.all_takeWhile c hc'
    · rintro rfl
      exact hnot hc
  have hy : a ++ '>' :: (b ++ y.dropWhile (· != '\n')) = y := by
    have hsplit := List.takeWhile_append_dropWhile (p := (· != '\n')) (l := y)
    rwa [hline, List.append_assoc, List.cons_append] at hsplit
  have hle := h.first ⟨x, w ++ a ++ ['>'], b ++ y.dropWhile (· != '\n')⟩
    (by rw [← ht, ← hy]; simp [Occurrence.text, hy]) ⟨w, a, hw, hattr, rfl⟩
  exact absurd hlt (Nat.not_lt.2 hle)

/-- The body of a page is the text between its first opening tag and the first closing tag behind
that one.  What stands before the end of the opening tag makes no other difference. -/
theorem bodyOf_by_tags (page : Text) :
    (bodyOf page = .error (.noDelimiter "<body>".toList) ↔ ¬ Contains IsOpeningTag page) ∧
    (Contains IsOpeningTag page → ∃ tag, IsEarliest IsOpeningTag page tag) ∧
    ∀ tag, IsEarliest IsOpeningTag page tag →
      (∀ x w y, lower w = "<body".toList → x ++ w ++ y = page → x.length < tag.start →
        '>' ∉ y.takeWhile (· != '\n')) ∧
      (bodyOf page = .error (.noDelimiter "</body>".toList) ↔
        ¬ Contains IsClosingTag tag.after) ∧
      (Contains IsClosingTag tag.after →
        ∃ body, IsBody tag.after body ∧ ∀ body', IsBody tag.after body' → body' = body) ∧
      (∀ body, bodyOf page = .ok body ↔ IsBody tag.after body) ∧
      (∀ body, IsBody tag.after body → ¬ Contains IsClosingTag body) ∧
      ∀ page' tag', IsEarliest IsOpeningTag page' tag' → tag'.after = tag.after →
        bodyOf page' = bodyOf page := by
  refine ⟨bodyOf_eq_noOpening_iff, exists_isEarliest openingTag_recognises, fun tag h =>
    ⟨fun x w y => not_mem_line_of_isEarliest h, bodyOf_eq_noClosing_iff h, fun hclose => ?_,
      fun body => bodyOf_eq_ok_iff h, fun body => IsBody.not_contains, fun page' tag' h' heq => ?_⟩⟩
  · obtain ⟨close, hfirst⟩ := exists_isEarliest closingTag_recognises hclose
    have hbody : IsBody tag.after close.before := isBody_iff.2 ⟨close.matched, close.after, hfirst⟩
    exact ⟨close.before, hbody, fun body' h' => hbody.unique h'⟩
  · have hopen := (firstOccurrence?_eq_some_iff openingTag_recognises).2 h
    have hopen' := (firstOccurrence?_eq_some_iff openingTag_recognises).2 h'
    simp only [bodyOf, hopen, hopen', heq]

/-- The first `<body` has no `>` on its line; closing tags stand before the opening one and inside it,
and one that is cut off ends the body. -/
theorem bodyOf_by_tags_cut_off :
    let line := "\n</body><BODY a='</body'>x</body</Body>y</body>".toList
    let page := "<body".toList ++ line
    let tag : Occurrence :=
      ⟨"<body\n</body>".toList, "<BODY a='</body'>".toList, "x</body</Body>y</body>".toList⟩
    IsEarliest IsOpeningTag page tag ∧ '>' ∉ line.takeWhile (· != '\n') ∧
      bodyOf page = .ok "x</body".toList ∧ IsBody tag.after "x</body".toList ∧
      ¬ Contains IsClosingTag "x</body".toList := by
  intro line page tag
  have hfirst : IsEarliest IsOpeningTag page tag :=
    isEarliest_of_firstOccurrence? openingTag_recognises (by rfl)
  obtain ⟨-, -, htags⟩ := bodyOf_by_tags page
  obtain ⟨hskipped, -, -, hbody, hnot, -⟩ := htags tag hfirst
  have hok : bodyOf page = .ok "x</body".toList := by rfl
  have his := (hbody _).1 hok
  exact ⟨hfirst, hskipped [] "<body".toList line rfl rfl (by decide), hok, his, hnot _ his⟩

end PageSplice
