import PageSplice.Page.Body
import PageSplice.Run.Batch

/-!
# Rebuilding pages

The body of each source page goes into the template, and the result is written where the page is
published.  The template is read once.
-/

namespace PageSplice

/-- The text to publish for a page. -/
def rebuiltPage (t : Tree) (c : Config) (template : Text) (page : Path) : Except Failure Text :=
  let source := c.sourceOf page
  match t.textAt source with
  | .error e => .error { cause := .file e }
  | .ok content =>
    match bodyOf content with
    | .error e => .error { during := some (.extracting source), cause := .page e }
    | .ok body =>
      match fillTemplate template c.rebuild.placeholder body with
      | .error e => .error { during := some (.filling c.rebuild.template), cause := .page e }
      | .ok html => .ok html

def rebuildStep (c : Config) (check : Bool) (template : Text) : FileStep := fun t page =>
  match rebuiltPage t c template page with
  | .error f => { tree := t, result := .error f }
  | .ok html =>
    let output := c.outputOf page
    match t.contentAt output with
    | .error e => { tree := t, result := .error { cause := .file e } }
    | .ok current => settleFile Tree.storeText .rebuild check t output current html

/-- With `check` set nothing is written. -/
def rebuildAll (c : Config) (check : Bool) (t : Tree) : Outcome Report :=
  match t.textAt c.rebuild.template with
  | .error e => { tree := t, result := .error { cause := .file e } }
  | .ok template => (runBatch (rebuildStep c check template) t c.rebuild.pages).map .ofList

end PageSplice
