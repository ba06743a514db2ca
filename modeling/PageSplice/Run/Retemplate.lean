import PageSplice.Run.Batch

/-!
# Retemplating files

Every fragment is read before any file is touched.  Then each file gets all sections filled, one
after the other, and is written back if that changed it.  The run is described on any host, and the
program takes it on the one that refuses nothing, for in the tree it gathers all is allowed.
-/

namespace PageSplice

namespace Host

variable (h : Host)

/-- The configured sections with the texts of their fragments. -/
def readSections (t : Tree) : List SectionEntry → Except Failure (List Section)
  | [] => .ok []
  | s :: rest =>
    match h.textAt t s.fragment with
    | .error e => .error { during := some (.loading s.name), cause := .file e }
    | .ok fragment =>
      match Section.make s.name fragment with
      | .error e => .error { cause := .page e }
      | .ok filled => (readSections t rest).map (filled :: ·)

def retemplateStep (sections : List Section) (check : Bool) : FileStep := fun t file =>
  match h.textAt t file with
  | .error e => { tree := t, notices := [.failing file], result := .error { cause := .file e } }
  | .ok content =>
    match fillSections content sections with
    | .error e =>
      { tree := t
        notices := [.failing file]
        result := .error { during := some (.retemplating file), cause := .page e } }
    | .ok filled =>
      settleFile h.storeText .retemplate check t file (some content.encode) filled

/-- With `check` set nothing is written. -/
def retemplateAll (c : Config) (targets : List Path) (check : Bool) (t : Tree) :
    Outcome Report :=
  match h.readSections t c.retemplate.sections with
  | .error f => { tree := t, result := .error f }
  | .ok sections =>
    let announced : Outcome (List Path) :=
      { tree := t
        notices := [.sections (sections.map (·.name))]
        result := (h.filesOf t targets c.fragments).mapError fun e => { cause := .file e } }
    announced.andThen fun t files =>
      (runBatch (h.retemplateStep sections check) t files).map .ofList

end Host

abbrev readSections (t : Tree) (entries : List SectionEntry) : Except Failure (List Section) :=
  Host.willing.readSections t entries

abbrev retemplateStep (sections : List Section) (check : Bool) : FileStep :=
  Host.willing.retemplateStep sections check

abbrev retemplateAll (c : Config) (targets : List Path) (check : Bool) (t : Tree) :
    Outcome Report :=
  Host.willing.retemplateAll c targets check t

end PageSplice
