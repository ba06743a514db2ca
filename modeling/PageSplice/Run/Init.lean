import PageSplice.Config.Writing
import PageSplice.Run.Batch

/-!
# Starting a project

Writes the default configuration to a file that is not there yet.
-/

namespace PageSplice

/-- A path that leads to something is refused.  One that leads nowhere is not, even if its name is
taken by a broken link: then the link's target is written. -/
def startProject (p : Path) (t : Tree) : Outcome Unit :=
  if t.leads p then { tree := t, result := .error { cause := .configExists p } }
  else
    match t.makeParents p with
    | (t', .error (q, e)) =>
      { tree := t', result := .error { during := some (.creating q), cause := .tree e } }
    | (t', .ok ()) =>
      match t'.write p (Config.write {}).encode with
      | .ok t'' => { tree := t'', result := .ok () }
      | .error e =>
        { tree := t', result := .error { during := some (.saving p), cause := .tree e } }

end PageSplice
