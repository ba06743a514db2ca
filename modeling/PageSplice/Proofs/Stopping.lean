import PageSplice.Proofs.Rebuilding
import PageSplice.Proofs.Retemplating
import PageSplice.Proofs.Tree.Growth

/-!
# Runs that fail

A run that fails stops at one file.  The files before it had their turns as in a run over them
alone, and those behind it are neither read nor written.  Retemplating leaves the tree as the files
before the failing one left it, unless this is a file that the system does not write: then it may be
cut off (`retemplateAll_stops`).  Rebuilding leaves it so too, unless the failing page's output
cannot be written: then directories on the way of that output may be new (`rebuildAll_stops`).
-/

namespace PageSplice

open PageSplice.Tree

variable {t : Tree} {check : Bool} {f : Failure}

/-! ## Retemplating -/

section Retemplate

variable {host : Host} {ss : List Section} {c : Config} {targets : List Path} {p : Path}

/-- Why a file's turn fails before anything is written: the file cannot be read, or a section cannot
be filled. -/
def CannotFill (host : Host) (t : Tree) (ss : List Section) (p : Path) (f : Failure) : Prop :=
  (∃ cause, host.textAt t p = .error (.reading p cause) ∧
      f = { cause := .file (.reading p cause) }) ∨
    ∃ text e, host.textAt t p = .ok text ∧ fillSections text ss = .error e ∧
      f = { during := some (.retemplating p), cause := .page e }

/-- A file's turn fails in writing: the file is to change, but the system refuses.  The file holds
what it held or the beginning of its new text, and all else stays. -/
def CannotWrite (host : Host) (t : Tree) (ss : List Section) (p : Path) (f : Failure)
    (t' : Tree) : Prop :=
  ∃ old new r l, host.textAt t p = .ok old ∧ fillSections old ss = .ok new ∧ new ≠ old ∧
    host.unwritten t p new.encode = some r ∧ f = { cause := .file (.writing p r.cause) } ∧
    host.storeText t p new = (t', .error (.writing p r.cause)) ∧
    t.find p = .ok l ∧ Overwritten l (r.left old.encode new.encode) t t'

/-- A file that was just read has its parent directories, so storing it fails only where the system
refuses to write it. -/
theorem cannotWrite_of_storeText {old new : Text} {e : FileFault} {t' : Tree}
    (ht : host.textAt t p = .ok old) (hfill : fillSections old ss = .ok new) (hne : new ≠ old)
    (h : host.storeText t p new = (t', .error e)) :
    CannotWrite host t ss p { cause := .file e } t' := by
  obtain ⟨l, hl, hb⟩ := read_eq_ok_iff.1 (Host.textAt_eq_ok_iff.1 ht).2
  obtain ⟨u, hok, -⟩ | ⟨r, u, hr, herror, hover⟩ := host.storeText_of_file hl hb new
  · rw [h] at hok
    cases hok
  · rw [h] at herror
    cases herror
    exact ⟨old, new, r, l, ht, hfill, hne, hr, rfl, h, hl, hover⟩

/-- A file's turn that fails changes nothing, or it fails in writing this file. -/
theorem retemplateStep_eq_error (h : (host.retemplateStep ss check t p).result = .error f) :
    (CannotFill host t ss p f ∧ (host.retemplateStep ss check t p).tree = t) ∨
      (check = false ∧ CannotWrite host t ss p f (host.retemplateStep ss check t p).tree) := by
  cases ht : host.textAt t p with
  | error e =>
    obtain ⟨cause, rfl⟩ := Host.exists_of_textAt_error ht
    simp only [Host.retemplateStep, ht] at h ⊢
    cases h
    exact .inl ⟨.inl ⟨cause, ht, rfl⟩, trivial⟩
  | ok old =>
    cases hfill : fillSections old ss with
    | error e =>
      simp only [Host.retemplateStep, ht, hfill] at h ⊢
      cases h
      exact .inl ⟨.inr ⟨old, e, ht, hfill, rfl⟩, trivial⟩
    | ok new =>
      rw [retemplateStep_eq check ht hfill] at h ⊢
      obtain ⟨hnew, hcheck, -, e, rfl, hstore⟩ := store_of_settleFile_error h
      refine .inr ⟨hcheck, cannotWrite_of_storeText ht hfill ?_ hstore⟩
      rintro rfl
      exact hnew rfl

/-- A run fails before any file has its turn, and the tree stays.  Or it fails at a file: the tree
is as the files before that one left it, but for that file's content if this is what could not be
written. -/
theorem retemplateAll_stops (h : (host.retemplateAll c targets check t).result = .error f) :
    let t' := (host.retemplateAll c targets check t).tree
    (host.readSections t c.retemplate.sections = .error f ∧ t' = t) ∨
      ∃ ss, host.readSections t c.retemplate.sections = .ok ss ∧
        ((∃ e, host.filesOf t targets c.fragments = .error e ∧ f = { cause := .file e } ∧ t' = t) ∨
          ∃ files k p done, host.filesOf t targets c.fragments = .ok files ∧ files[k]? = some p ∧
            let before := runBatch (host.retemplateStep ss check) t (files.take k)
            before.result = .ok done ∧
              ((CannotFill host before.tree ss p f ∧ t' = before.tree) ∨
                (check = false ∧ CannotWrite host before.tree ss p f t'))) := by
  cases hss : host.readSections t c.retemplate.sections with
  | error f' =>
    simp only [Host.retemplateAll, hss] at h ⊢
    cases h
    exact .inl ⟨rfl, trivial⟩
  | ok ss =>
    refine .inr ⟨ss, rfl, ?_⟩
    cases hfiles : host.filesOf t targets c.fragments with
    | error e =>
      simp only [Host.retemplateAll, hss, hfiles] at h ⊢
      cases h
      exact .inl ⟨e, rfl, rfl, rfl⟩
    | ok files =>
      have hrun : (runBatch (host.retemplateStep ss check) t files).result = .error f := by
        rw [(retemplateAll_eq check hss hfiles).2] at h
        exact Outcome.result_map_eq_error_iff.1 h
      obtain ⟨seen, p, rest, done, rfl, hseen, hp⟩ := exists_of_runBatch_error hrun
      refine .inr ⟨_, seen.length, p, done, rfl, by simp, ?_⟩
      rw [List.take_left, (retemplateAll_eq check hss hfiles).1,
        runBatch_append_of_error hseen hp]
      exact ⟨hseen, retemplateStep_eq_error hp⟩

/-- Three pages.  The first section of the second one could be filled, but not the second section.
Or all could be filled, but the disk is full when the second page has taken four bytes. -/
theorem retemplateAll_stops_second :
    let page := "<!--A-->1<!--/A--><!--B-->2<!--/B-->"
    let bad := "<!--A-->1<!--/A-->"
    let b := "b".toList
    let tree := fun second => Tree.ofTexts
      [("f", "F"), ("g", "G"), ("a", page), ("b", second), ("c", page)]
    let c := Config.ofSections [("A", "f"), ("B", "g")]
    let files := ["a".toList, b, "c".toList]
    (let t := tree bad
      let f : Failure := { during := some (.retemplating b),
                           cause := .page (.noDelimiter "<!-- B -->".toList) }
      (retemplateAll c files false t).result = .error f ∧
      (retemplateAll c files false t).tree = (retemplateAll c ["a".toList] false t).tree) ∧
    (let t := tree page
      let full : FileError := .refused 28 "No space left on device"
      let host : Host :=
        { unwritten := fun _ p _ => if p = b then some { cause := full, taken := some 4 } else none }
      let before := (host.retemplateAll c ["a".toList] false t).tree
      let after := (host.retemplateAll c files false t).tree
      let f : Failure := { cause := .file (.writing b full) }
      (host.retemplateAll c files false t).result = .error f ∧
      after.textAt b = .ok "<!--".toList ∧ ∃ ss, CannotWrite host before ss b f after) := by
  intro page bad b tree c files
  -- the run fails at one of the files
  have hstops : ∀ {host : Host} {t : Tree} {f : Failure},
      host.readSections t c.retemplate.sections ≠ .error f →
      host.filesOf t files c.fragments = .ok files →
      (host.retemplateAll c files false t).result = .error f →
      ∃ ss k p, host.readSections t c.retemplate.sections = .ok ss ∧ files[k]? = some p ∧
        let before := runBatch (host.retemplateStep ss false) t (files.take k)
        (CannotFill host before.tree ss p f ∧
            (host.retemplateAll c files false t).tree = before.tree) ∨
          CannotWrite host before.tree ss p f (host.retemplateAll c files false t).tree := by
    intro host t f hread hfiles h
    obtain ⟨hno, -⟩ | ⟨ss, hss, ⟨e, he, -⟩ | ⟨files', k, p, done, hfiles', hk, -, hwhy⟩⟩ :=
      retemplateAll_stops h
    · exact absurd hno hread
    · cases hfiles.symm.trans he
    · obtain rfl : files = files' := by simpa [hfiles] using hfiles'
      exact ⟨ss, k, p, hss, hk, hwhy.imp_right And.right⟩
  -- and only the second one is called so
  have hsecond : ∀ k, files[k]? = some b → k = 1 := by
    intro k hk
    match k, hk with
    | 0, hk => exact absurd hk (by decide)
    | 1, _ => rfl
    | 2, hk => exact absurd hk (by decide)
    | k + 3, hk => simp [files] at hk
  refine ⟨?_, ?_⟩
  · intro t f
    have h : (retemplateAll c files false t).result = .error f := by decide +kernel
    have hone : t.filesOf ["a".toList] c.fragments = .ok ["a".toList] := by decide +kernel
    refine ⟨h, ?_⟩
    obtain ⟨ss, k, p, hss, hk, ⟨⟨_, -, hf⟩ | ⟨_, _, -, -, hf⟩, htree⟩ | hwrite⟩ :=
      hstops (by decide +kernel) (by decide +kernel) h
    · simp [f] at hf
    · obtain rfl : b = p := by simpa [f] using congrArg Failure.during hf
      obtain rfl := hsecond k hk
      rw [htree, (retemplateAll_eq false hss hone).1]
      rfl
    · obtain ⟨_, _, _, _, -, -, -, -, hf, -⟩ := hwrite
      simp [f] at hf
  · intro t full host before after f
    have h : (host.retemplateAll c files false t).result = .error f := by decide +kernel
    have hone : host.filesOf t ["a".toList] c.fragments = .ok ["a".toList] := by decide +kernel
    refine ⟨h, by decide +kernel, ?_⟩
    obtain ⟨ss, k, p, hss, hk, ⟨⟨_, -, hf⟩ | ⟨_, _, -, -, hf⟩, -⟩ | hwrite⟩ :=
      hstops (by decide +kernel) (by decide +kernel) h
    · simp [f] at hf
    · simp [f] at hf
    · obtain rfl : b = p := by
        obtain ⟨_, _, _, _, -, -, -, -, hf, -⟩ := hwrite
        simp only [f, Failure.mk.injEq, Cause.file.injEq, FileFault.writing.injEq] at hf
        exact hf.2.1
      obtain rfl := hsecond k hk
      refine ⟨ss, ?_⟩
      rw [show before = _ from (retemplateAll_eq false hss hone).1]
      exact hwrite

end Retemplate

/-! ## Rebuilding -/

section Rebuild

variable {c : Config} {template : Text}

/-- A configuration with other pages. -/
def Config.withPages (c : Config) (pages : List Path) : Config :=
  { c with rebuild := { c.rebuild with pages } }

/-- What went wrong in writing a file. -/
def Cause.IsWriting (e : Cause) : Prop := ∃ p cause, e = .file (.writing p cause)

theorem not_isWriting_of_rebuiltPage {page : Path} (h : rebuiltPage t c template page = .error f) :
    ¬ f.cause.IsWriting := by
  rintro ⟨p, cause, hf⟩
  rw [rebuiltPage] at h
  cases hsource : t.textAt (c.sourceOf page) with
  | error e =>
    obtain ⟨cause', rfl⟩ := exists_of_textAt_error hsource
    simp only [hsource] at h
    cases h
    cases hf
  | ok source =>
    cases hbody : bodyOf source with
    | error e =>
      simp only [hsource, hbody] at h
      cases h
      cases hf
    | ok body =>
      cases hfill : fillTemplate template c.rebuild.placeholder body with
      | error e =>
        simp only [hsource, hbody, hfill] at h
        cases h
        cases hf
      | ok html => simp only [hsource, hbody, hfill, reduceCtorEq] at h

/-- A page's turn that fails changes nothing, or it fails in writing the output, and directories on
the way of the output are new. -/
theorem rebuildStep_eq_error {page : Path}
    (h : (rebuildStep c check template t page).result = .error f) :
    (¬ f.cause.IsWriting ∧ (rebuildStep c check template t page).tree = t) ∨
      (f.cause.IsWriting ∧
        GrownOnWay (c.outputOf page) t (rebuildStep c check template t page).tree) := by
  cases hhtml : rebuiltPage t c template page with
  | error f' =>
    simp only [rebuildStep, hhtml] at h ⊢
    cases h
    exact .inl ⟨not_isWriting_of_rebuiltPage hhtml, trivial⟩
  | ok html =>
    cases hcurrent : t.contentAt (c.outputOf page) with
    | error e =>
      simp only [rebuildStep, hhtml, hcurrent] at h ⊢
      cases h
      refine .inl ⟨?_, trivial⟩
      rintro ⟨q, cause, hf⟩
      unfold contentAt at hcurrent
      split at hcurrent <;> cases hcurrent
      cases hf
    | ok current =>
      rw [rebuildStep_eq hhtml hcurrent] at h ⊢
      obtain ⟨-, -, -, e, rfl, hstore⟩ := store_of_settleFile_error h
      obtain ⟨hgrown, q, cause, rfl⟩ := grown_of_storeText_error hstore
      exact .inr ⟨⟨q, cause, rfl⟩, hgrown⟩

/-- A run whose template cannot be read changes nothing.  A run that fails at a page leaves the tree
as the pages before that one left it, but for new directories on the way of its output if this is
what could not be written; nothing depends on the pages behind it. -/
theorem rebuildAll_stops :
    (∀ e, t.textAt c.rebuild.template = .error e →
      rebuildAll c check t = { tree := t, result := .error { cause := .file e } }) ∧
    ∀ template seen page rest report f, t.textAt c.rebuild.template = .ok template →
      c.rebuild.pages = seen ++ page :: rest →
      let before := rebuildAll (c.withPages seen) check t
      let last := rebuildStep c check template before.tree page
      before.result = .ok report → last.result = .error f →
        rebuildAll c check t =
          { tree := last.tree, notices := before.notices ++ last.notices, result := .error f } ∧
        (¬ f.cause.IsWriting → last.tree = before.tree) ∧
        (f.cause.IsWriting → GrownOnWay (c.outputOf page) before.tree last.tree) := by
  refine ⟨fun e ht => by simp only [rebuildAll, ht], ?_⟩
  intro template seen page rest report f ht hpages before last hbefore hlast
  -- the pages before it are a batch of the same steps
  let batch := runBatch (rebuildStep c check template) t seen
  have hrun : before = batch.map .ofList := by
    have ht : t.textAt (c.withPages seen).rebuild.template = .ok template := ht
    simp only [before, rebuildAll, ht]
    rfl
  have htree : before.tree = batch.tree := by rw [hrun]; rfl
  have hnotices : before.notices = batch.notices := by rw [hrun]; rfl
  rw [hrun] at hbefore
  obtain ⟨done, hdone, -⟩ := Outcome.result_map_eq_ok_iff.1 hbefore
  refine ⟨?_, ?_⟩
  · simp only [rebuildAll, ht, hpages, last, htree, hnotices]
    rw [runBatch_append_of_error hdone (by rw [← htree]; exact hlast)]
    rfl
  · obtain ⟨hnot, hsame⟩ | ⟨hwriting, hgrown⟩ := rebuildStep_eq_error hlast
    · exact ⟨fun _ => hsame, fun hwriting => absurd hwriting hnot⟩
    · exact ⟨fun hnot => absurd hwriting hnot, fun _ => hgrown⟩

/-- The directory of the second output is a broken link, and the way to it goes through a directory
that is missing.  This one is made before the failure. -/
theorem rebuildAll_stops_halfway :
    let files := ((Tree.ofTexts [("t", "[__BODY__]")]).addText ["docs"] "a"
      "<body>1</body>").addText ["docs", "x"] "b" "<body>2</body>"
    let t := (files.putDirs [] ["docs".toList, "new".toList]).put [] "x".toList
      (.link "nowhere".toList)
    let pages := ["a".toList, "new/../x/b".toList, "a".toList]
    let c : Config := { rebuild := { template := "t".toList, pages } }
    let f : Failure := { cause := .file (.writing "new/../x".toList .alreadyExists) }
    let before := rebuildAll (c.withPages ["a".toList]) false t
    let after := rebuildAll c false t
    before.result = .ok { written := ["a".toList] } ∧ after.result = .error f ∧
      GrownOnWay (c.outputOf "new/../x/b".toList) before.tree after.tree ∧
      before.tree.get? ["new".toList] = none ∧ after.tree.get? ["new".toList] = some .dir ∧
      rebuildAll c false .empty =
        { tree := .empty
          result := .error { cause := .file (.reading "t".toList .notFound) } } := by
  intro files t pages c f before after
  have ht : t.textAt c.rebuild.template = .ok "[__BODY__]".toList := by decide +kernel
  have hbefore : before.result = .ok { written := ["a".toList] } := by decide +kernel
  have hlast : (rebuildStep c false "[__BODY__]".toList before.tree "new/../x/b".toList).result =
      .error f := by decide +kernel
  have hnone : Tree.empty.textAt c.rebuild.template = .error (.reading "t".toList .notFound) := by
    decide +kernel
  have hmissing : before.tree.get? ["new".toList] = none := by decide +kernel
  have hmade : after.tree.get? ["new".toList] = some .dir := by decide +kernel
  -- from here on the files do not matter
  clear_value t
  obtain ⟨hafter, -, hgrown⟩ := rebuildAll_stops.2 _ _ _ _ _ _ ht rfl hbefore hlast
  have hafter : after = _ := hafter
  rw [hafter] at hmade ⊢
  exact ⟨hbefore, rfl, hgrown ⟨_, _, rfl⟩, hmissing, hmade, rebuildAll_stops.1 _ hnone⟩

end Rebuild

end PageSplice
