import PageSplice.Tree.Access
import PageSplice.Text.Blank
import PageSplice.Text.Lossy
import PageSplice.Page.Section

/-!
# Configuration

Which pages are rebuilt from which template, and which sections are filled from which fragments.
Every field has a default.  `verify` refuses what could only fail later, and `anchor` makes
paths absolute, which takes the bytes of a path for a text (`anchorBytes`).  Main statement: a
configuration is accepted exactly if it breaks no rule (`verify_eq_ok_iff`).
-/

namespace PageSplice

structure SectionEntry where
  name : Text
  fragment : Path
deriving DecidableEq, Repr

structure RebuildSettings where
  template : Path := "index_template.html".toList
  placeholder : Text := "__BODY__".toList
  sourceDir : Path := "docs".toList
  outputDir : Path := []
  pages : List Path := ["index.html".toList]
deriving DecidableEq, Repr

structure RetemplateSettings where
  sections : List SectionEntry :=
    [⟨"HEADER".toList, "header.html".toList⟩, ⟨"FOOTER".toList, "footer.html".toList⟩]
deriving DecidableEq, Repr

structure Config where
  /-- Where the configuration file is; empty until a command line tells. -/
  configPath : Path := []
  rebuild : RebuildSettings := {}
  retemplate : RetemplateSettings := {}
deriving DecidableEq, Repr

/-- The rule that a configuration breaks. -/
inductive ConfigProblem where
  | emptyPlaceholder
  | emptyPage
  | invalidName (name : Text)
  | duplicateName (name : Text)
  | emptyFragment (name : Text)
deriving DecidableEq, Repr

def ConfigProblem.message : ConfigProblem → String
  | emptyPlaceholder => "[rebuild.placeholder] must not be empty"
  | emptyPage => "[rebuild.pages] must not contain empty names"
  | invalidName n => s!"[retemplate.sections] invalid name `{String.ofList n}`"
  | duplicateName n => s!"[retemplate.sections] duplicate name `{String.ofList n}`"
  | emptyFragment n => s!"[retemplate.sections] `{String.ofList n}` has an empty fragment path"

namespace Config

def sourceOf (c : Config) (page : Path) : Path := Path.join c.rebuild.sourceDir page

def outputOf (c : Config) (page : Path) : Path := Path.join c.rebuild.outputDir page

def fragments (c : Config) : List Path := c.retemplate.sections.map (·.fragment)

/-! ## Rules -/

/-- The first rule broken by some sections that follow sections of the given names. -/
def checkSections (seen : List Text) : List SectionEntry → Except ConfigProblem Unit
  | [] => .ok ()
  | s :: rest =>
    if ¬ IsSectionName s.name then .error (.invalidName s.name)
    else if s.name ∈ seen then .error (.duplicateName s.name)
    else if s.fragment = [] then .error (.emptyFragment s.name)
    else checkSections (s.name :: seen) rest

def verify (c : Config) : Except ConfigProblem Unit :=
  if c.rebuild.placeholder = [] then .error .emptyPlaceholder
  else if [] ∈ c.rebuild.pages then .error .emptyPage
  else checkSections [] c.retemplate.sections

theorem checkSections_eq_ok_iff {seen : List Text} {ss : List SectionEntry} :
    checkSections seen ss = .ok () ↔
      (∀ s ∈ ss, IsSectionName s.name ∧ s.name ∉ seen ∧ s.fragment ≠ []) ∧
        (ss.map (·.name)).Nodup := by
  induction ss generalizing seen with
  | nil => simp [checkSections]
  | cons s ss ih =>
    simp only [checkSections]
    by_cases h₁ : IsSectionName s.name
    · by_cases h₂ : s.name ∈ seen
      · simp [h₁, h₂]
      · by_cases h₃ : s.fragment = []
        · simp [h₁, h₂, h₃]
        · simp only [h₁, not_true_eq_false, if_false, h₂, h₃, ih, List.mem_cons, not_or,
            List.map_cons, List.nodup_cons, List.mem_map, forall_eq_or_imp, true_and, ne_eq,
            not_false_eq_true, not_exists, not_and]
          constructor
          · rintro ⟨h, hn⟩
            exact ⟨fun x hx => ⟨(h x hx).1, (h x hx).2.1.2, (h x hx).2.2⟩,
              fun x hx => (h x hx).2.1.1, hn⟩
          · rintro ⟨h, hs, hn⟩
            exact ⟨fun x hx => ⟨(h x hx).1, ⟨hs x hx, (h x hx).2.1⟩, (h x hx).2.2⟩, hn⟩
    · simp [h₁]

theorem verify_eq_ok_iff {c : Config} :
    c.verify = .ok () ↔
      c.rebuild.placeholder ≠ [] ∧ [] ∉ c.rebuild.pages ∧
        (∀ s ∈ c.retemplate.sections, IsSectionName s.name ∧ s.fragment ≠ []) ∧
          (c.retemplate.sections.map (·.name)).Nodup := by
  unfold verify
  by_cases h₁ : c.rebuild.placeholder = []
  · simp [h₁]
  · by_cases h₂ : [] ∈ c.rebuild.pages
    · simp [h₁, h₂]
    · simp [h₁, h₂, checkSections_eq_ok_iff]

/-! ## Paths -/

/-- A configured path, given by its bytes, behind a root and with the home directory put in.  The
bytes are taken for a text, whatever they are. -/
def anchorBytes (t : Tree) (home root : Path) (b : ByteArray) : Path :=
  t.realOrAbsolute (Path.join root (Path.expandHome home (Text.lossy b)))

def anchorPath (t : Tree) (home root p : Path) : Path := anchorBytes t home root (Text.encode p)

/-- Page names stay as they are: they are put behind the source and the output directory. -/
def anchor (t : Tree) (home root : Path) (c : Config) : Config :=
  let root := t.realOrAbsolute root
  let here := anchorPath t home root
  { c with
    rebuild := { c.rebuild with
      template := here c.rebuild.template
      sourceDir := here c.rebuild.sourceDir
      outputDir := here c.rebuild.outputDir }
    retemplate := { sections := c.retemplate.sections.map fun s =>
      { s with fragment := here s.fragment } } }

end Config

end PageSplice
