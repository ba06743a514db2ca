import PageSplice.Page.Fault
import PageSplice.Text.Blank
import PageSplice.Text.Occurrence

/-!
# Named sections of a page

A section of the name `N` lies between the comments `<!-- N -->` and `<!-- /N -->`; blanks around
the name are optional.  Replacing it keeps both markers and everything outside them.  Several
sections are replaced one after the other, each in the result of the last.
-/

namespace PageSplice

open Text

/-- A section's name is not empty and neither begins nor ends blank. -/
def IsSectionName (name : Text) : Prop := trim name ≠ [] ∧ trim name = name

instance (name : Text) : Decidable (IsSectionName name) := by
  unfold IsSectionName; infer_instance

/-- A section to be filled, with the text to fill it. -/
structure Section where
  name : Text
  fragment : Text
  isName : IsSectionName name

def Section.make (name fragment : Text) : Except PageFault Section :=
  if h : IsSectionName name then .ok ⟨name, fragment, h⟩ else .error (.improperName name)

/-- A comment that holds nothing but the given label and blanks around it. -/
def commentOf (label : Text) : Pattern :=
  ((((literal "<!--".toList).andThen (run isBlank)).andThen (literal label)).andThen
    (run isBlank)).andThen (literal "-->".toList)

def startMarker (name : Text) : Pattern := commentOf name

def endMarker (name : Text) : Pattern := commentOf ('/' :: name)

/-- The usual way to write a marker, by which a message names it. -/
def writtenMarker (label : Text) : Text := "<!-- ".toList ++ label ++ " -->".toList

/-- Both markers are sought in the whole page, so an end marker may stand before the start. -/
def fillSection (page name fragment : Text) : Except PageFault Text :=
  match firstOccurrence? (startMarker name) page with
  | none => .error (.noDelimiter (writtenMarker name))
  | some start =>
    match firstOccurrence? (endMarker name) page with
    | none => .error (.noDelimiter (writtenMarker ('/' :: name)))
    | some stop =>
      if stop.start < start.stop then .error (.endBeforeStart name)
      else .ok (start.through ++ fragment ++ stop.onward)

def fillSections (page : Text) (sections : List Section) : Except PageFault Text :=
  sections.foldlM (fun page s => fillSection page s.name s.fragment) page

/-! ## Laws -/

theorem commentOf_splits (label : Text) : (commentOf label).Splits :=
  ((((literal_splits _).andThen (run_splits _)).andThen (literal_splits _)).andThen
    (run_splits _)).andThen (literal_splits _)

@[simp] theorem fillSections_nil (page : Text) : fillSections page [] = .ok page := rfl

theorem fillSections_cons (page : Text) (s : Section) (ss : List Section) :
    fillSections page (s :: ss) =
      (fillSection page s.name s.fragment).bind (fillSections · ss) := rfl

end PageSplice
