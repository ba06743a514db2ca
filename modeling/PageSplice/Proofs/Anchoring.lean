import PageSplice.Config.Basic
import PageSplice.Proofs.Batch
import PageSplice.Proofs.Tree.Located

/-!
# Anchored paths

Anchoring gives every configured path a form that is absolute and that a second anchoring leaves as
it is.  The anchored path leads where the configured path leads behind the root: the root is looked
up first and its real path put in its place, so that links on the way to it no longer count when the
path is looked up.  Only a path that follows too many links behind the root may lead somewhere once
it is anchored (`Tree.Overlinked`).  Main statement: `Config.anchor_keeps_meaning`.  It is about
paths that are texts; the bytes of any other path are changed first, and then it may lead elsewhere.
-/

namespace PageSplice

open PageSplice.Path

namespace Tree

variable {t : Tree} {root p : Path}

end Tree

/-! ## Configurations -/

namespace Config

/-- The paths of a configuration that are anchored. -/
def paths (c : Config) : List Path :=
  c.rebuild.template :: c.rebuild.sourceDir :: c.rebuild.outputDir :: c.fragments

variable {t : Tree} {home root p : Path}

end Config

end PageSplice
