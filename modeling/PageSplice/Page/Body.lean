import PageSplice.Page.Fault
import PageSplice.Text.Occurrence

/-!
# The body of a page

`bodyOf` cuts out what stands between the first opening body tag of a page and the first
closing one behind it; `fillTemplate` puts a body in the place of every placeholder of a template.
Tags are recognised in either letter case.  An opening tag is `<body`, any characters but `>` and a
line feed, and `>`.
-/

namespace PageSplice

open Text

/-- The characters that may stand between `<body` and the `>` that ends the tag. -/
def isAttribute (c : Char) : Bool := c != '>' && c != '\n'

def openingTag : Pattern :=
  ((caseless "<body".toList).andThen (run isAttribute)).andThen (literal ['>'])

def closingTag : Pattern := caseless "</body>".toList

def bodyOf (page : Text) : Except PageFault Text :=
  match firstOccurrence? openingTag page with
  | none => .error (.noDelimiter "<body>".toList)
  | some tag =>
    match firstOccurrence? closingTag tag.after with
    | none => .error (.noDelimiter "</body>".toList)
    | some close => .ok close.before

/-- An empty placeholder occurs nowhere. -/
def fillTemplate (template placeholder body : Text) : Except PageFault Text :=
  if placeholder = [] ∨ firstOccurrence? (literal placeholder) template = none then
    .error (.noPlaceholder placeholder)
  else
    .ok (replaceAll placeholder body template)

/-- The page's body in the template. -/
def pageInTemplate (template placeholder page : Text) : Except PageFault Text :=
  (bodyOf page).bind (fillTemplate template placeholder)

/-! ## What the tags are -/

theorem openingTag_splits : openingTag.Splits :=
  ((caseless_splits _).andThen (run_splits _)).andThen (literal_splits _)

theorem closingTag_splits : closingTag.Splits := caseless_splits _

theorem openingTag_eq_some_iff {t m r : Text} :
    openingTag t = some (m, r) ↔
      ∃ w a, lower w = "<body".toList ∧ a.all isAttribute ∧ m = w ++ a ++ ['>'] ∧ m ++ r = t := by
  simp only [openingTag, Pattern.andThen_eq_some_iff, caseless_eq_some_iff, literal_eq_some_iff,
    run, Option.some.injEq, Prod.mk.injEq]
  constructor
  · rintro ⟨_, r₁, _, ⟨w, r₂, a, ⟨hw, hr₂⟩, ⟨ha, hr₁⟩, rfl⟩, ⟨rfl, hr⟩, rfl⟩
    refine ⟨w, a, hw, ?_, rfl, ?_⟩
    · rw [← ha]; exact List.all_takeWhile
    · rw [← hr₂, List.append_assoc, List.append_assoc, hr, ← ha, ← hr₁,
        List.takeWhile_append_dropWhile]
  · rintro ⟨w, a, hw, ha, rfl, rfl⟩
    have hall : ∀ c ∈ a, isAttribute c = true := List.all_eq_true.1 ha
    have hstop : isAttribute '>' = false := by decide
    refine ⟨w ++ a, '>' :: r, ['>'], ⟨w, a ++ '>' :: r, a, ⟨hw, by simp⟩, ⟨?_, ?_⟩, rfl⟩,
      ⟨rfl, rfl⟩, rfl⟩
    · rw [List.takeWhile_append_of_pos hall, List.takeWhile_cons, hstop]; simp
    · rw [List.dropWhile_append_of_pos hall, List.dropWhile_cons, hstop]; simp

end PageSplice
