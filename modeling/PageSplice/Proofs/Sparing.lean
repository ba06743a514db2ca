import PageSplice.Proofs.Footprint

/-!
# What a rebuild spares

A rebuild may be told to write over its own template or over a source
(`rebuildAll_overwrites_inputs`).  It changes no other file: whatever links and steps up the paths
have, and whether the run succeeds or fails, a file keeps its content unless an output leads to it
when the run is over (`rebuildAll_spares_inputs`).
-/

namespace PageSplice

open PageSplice.Tree

variable {t t' : Tree} {ps : List Path}

/-- A tree in which nothing is gone, and in which files changed only where some paths lead. -/
structure Spares (ps : List Path) (t t' : Tree) : Prop where
  extension : t'.Extends t
  kept : ∀ l b, t.get? l = some (.file b) →
    t'.get? l = some (.file b) ∨ ∃ p ∈ ps, t'.find p = .ok l

/-- A file to which none of the paths lead reads the same. -/
theorem Spares.read {p : Path} {b : ByteArray} (h : Spares ps t t') (hp : t.read p = .ok b)
    (hps : ∀ q ∈ ps, ¬ t'.Coincide q p) : t'.read p = .ok b := by
  obtain ⟨l, hl, hb⟩ := read_eq_ok_iff.1 hp
  have hl' := h.extension.find hl
  refine read_eq_ok_iff.2 ⟨l, hl', (h.kept l b hb).resolve_right ?_⟩
  rintro ⟨q, hq, hql⟩
  exact hps q hq ⟨l, hql, hl'⟩

theorem Written.spares (h : Written ps t t') : Spares ps t t' := by
  refine ⟨h.extension, fun l b hb => ?_⟩
  obtain hsame | ⟨p, hp, hl, -⟩ | ⟨hnone, -⟩ := h.frame l
  · exact .inl (hsame.trans hb)
  · exact .inr ⟨p, hp, hl⟩
  · rw [hb] at hnone; cases hnone

theorem spares_rebuildAll (c : Config) (check : Bool) (t : Tree) :
    Spares (c.rebuild.pages.map c.outputOf) t (rebuildAll c check t).tree :=
  (written_rebuildAll c check t).spares

/-- What a rebuild reads: the template and the sources of the pages. -/
def Config.inputs (c : Config) : List Path :=
  c.rebuild.template :: c.rebuild.pages.map c.sourceOf

/-- A rebuild leaves its inputs as they were, but for those to which an output leads when the run is
over. -/
theorem rebuildAll_spares_inputs (c : Config) (t : Tree) :
    let t' := (rebuildAll c false t).tree
    ∀ p ∈ c.inputs, ∀ b, t.read p = .ok b →
      (∀ page ∈ c.rebuild.pages, ¬ t'.Coincide (c.outputOf page) p) → t'.read p = .ok b := by
  intro t' p _ b hb hout
  refine (spares_rebuildAll c false t).read hb fun q hq => ?_
  obtain ⟨page, hpage, rfl⟩ := List.mem_map.1 hq
  exact hout page hpage

/-- The first page is rebuilt in its place and the second one has no source, but the template stays
as it was. -/
theorem rebuildAll_spares_template :
    let t := (Tree.ofTexts [("t", "[__BODY__]")]).addText ["docs"] "a" "<body>1</body>"
    let c : Config := { rebuild := { template := "t".toList, outputDir := "docs".toList,
                                     pages := ["a".toList, "gone".toList] } }
    let t' := (rebuildAll c false t).tree
    (rebuildAll c false t).result =
        .error { cause := .file (.reading "docs/gone".toList .notFound) } ∧
      t'.textAt (c.sourceOf "a".toList) = .ok "[1]".toList ∧
      t'.read c.rebuild.template = .ok (Text.encode "[__BODY__]".toList) := by
  intro t c t'
  exact ⟨by decide +kernel, by decide +kernel,
    rebuildAll_spares_inputs c t c.rebuild.template (List.mem_cons_self ..) _ (by decide +kernel)
      (by decide +kernel)⟩

/-- An output can be a source, if the pages are rebuilt in their place, or the template, if a page
has its name.  In the last case the output leads nowhere when the run begins, since a directory on
its way is missing. -/
theorem rebuildAll_overwrites_inputs :
    let t := (((Tree.ofTexts [("t", "[__BODY__]")]).addText ["docs"] "a" "<body>1</body>").addText
      ["docs"] "t" "<body>2</body>").putDirs [] ["docs".toList, "new".toList]
    let written (outputDir page : String) : Config :=
      { rebuild := { template := "t".toList, outputDir := outputDir.toList,
                     pages := [page.toList] } }
    let anchored (c : Config) : Config := c.anchor t [] "./".toList
    (let raw := written "docs" "a"
      let c := anchored raw
      raw.verify = .ok () ∧ t.textAt (c.sourceOf "a".toList) = .ok "<body>1</body>".toList ∧
      (rebuildAll c false t).tree.textAt (c.sourceOf "a".toList) = .ok "[1]".toList) ∧
    (let raw := written "" "t"
      let c := anchored raw
      raw.verify = .ok () ∧ t.textAt c.rebuild.template = .ok "[__BODY__]".toList ∧
      (rebuildAll c false t).tree.textAt c.rebuild.template = .ok "[2]".toList) ∧
    (let raw := written "" "new/../t"
      let c := anchored raw
      raw.verify = .ok () ∧ t.find (c.outputOf "new/../t".toList) = .error .notFound ∧
      t.textAt c.rebuild.template = .ok "[__BODY__]".toList ∧
      (rebuildAll c false t).tree.textAt c.rebuild.template = .ok "[2]".toList) := by
  decide +kernel

end PageSplice
