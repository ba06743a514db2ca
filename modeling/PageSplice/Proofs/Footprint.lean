import PageSplice.Proofs.Checking
import PageSplice.Proofs.Stopping

/-!
# What a run changes

Whether a run succeeds or fails, and whatever links and steps up the paths have, it takes nothing
away.  A rebuild fills files to which outputs lead when the run is over, and makes directories on
the way to them (`written_rebuildAll`).  Retemplating makes nothing, and changes no file but those
for which the targets stand (`refilled_retemplateAll`).
-/

namespace PageSplice

open PageSplice.Tree

variable {t t' t'' : Tree} {ps : List Path} {c : Config} {check : Bool}

/-! ## Writing -/

/-- A path leads to a file, which is new or was a file before. -/
def FilledBy (p : Path) (l : Location) (t t' : Tree) : Prop :=
  t'.find p = .ok l ∧ (t.get? l = none ∨ ∃ b, t.get? l = some (.file b)) ∧
    ∃ b, t'.get? l = some (.file b)

/-- A tree in which files were filled to which some paths lead, and directories were made on the way
of these paths. -/
structure Written (ps : List Path) (t t' : Tree) : Prop where
  here : t'.here = t.here
  frame : ∀ l, t'.get? l = t.get? l ∨ (∃ p ∈ ps, FilledBy p l t t') ∨
    t.get? l = none ∧ t'.get? l = some .dir ∧ ∃ p ∈ ps, t'.OnWay p l

namespace Written

theorem refl (ps : List Path) (t : Tree) : Written ps t t := ⟨rfl, fun _ => .inl rfl⟩

theorem extension (h : Written ps t t') : t'.Extends t := by
  refine ⟨h.here, fun l => ?_⟩
  obtain hsame | ⟨p, -, -, hold, b', hb'⟩ | ⟨hnone, -⟩ := h.frame l
  · exact .inr (.of_eq hsame)
  · exact hold.imp_right fun ⟨b, hb⟩ => .of_files hb hb'
  · exact .inl hnone

theorem trans (h : Written ps t t') (h' : Written ps t' t'') : Written ps t t'' := by
  refine ⟨h'.here.trans h.here, fun l => ?_⟩
  obtain hsame | ⟨p, hp, hl, hold, b, hb⟩ | ⟨hnone, hdir, p, hp, hway⟩ := h.frame l
  · simpa only [FilledBy, hsame] using h'.frame l
  · -- a file stays one
    refine .inr (.inl ⟨p, hp, h'.extension.find hl, hold, ?_⟩)
    obtain hsame | ⟨-, -, -, -, hb'⟩ | ⟨hnone, -⟩ := h'.frame l
    · exact ⟨b, hsame.trans hb⟩
    · exact hb'
    · rw [hb] at hnone; cases hnone
  · -- a new directory stays one
    refine .inr (.inr ⟨hnone, ?_, p, hp, hway.mono h'.extension⟩)
    exact h'.extension.dir hdir

theorem of_grown {p : Path} (h : GrownOnWay p t t') (hp : p ∈ ps) : Written ps t t' :=
  ⟨h.here, fun l => (h.frame l).imp_right fun ⟨hnone, hdir, hway⟩ =>
    .inr ⟨hnone, hdir, p, hp, hway⟩⟩

theorem of_stored {p : Path} {text : Text} {l : Location} (h : StoredUnder p text l t t')
    (hp : p ∈ ps) : Written ps t t' := by
  refine ⟨h.here, fun k => ?_⟩
  by_cases hk : k = l
  · subst hk
    exact .inr (.inl ⟨p, hp, h.found, h.old, _, h.new⟩)
  · exact (h.frame k hk).imp_right fun ⟨hnone, hdir, hway⟩ => .inr ⟨hnone, hdir, p, hp, hway⟩

end Written

theorem written_storeText {p : Path} (hp : p ∈ ps) (t : Tree) (text : Text) :
    Written ps t (t.storeText p text).1 := by
  cases hs : t.storeText p text with
  | mk t' r =>
    cases r with
    | ok u =>
      obtain ⟨l, hst⟩ := stored_of_storeText hs
      exact .of_stored hst hp
    | error e => exact .of_grown (grown_of_storeText_error hs).1 hp

theorem written_settleFile {p : Path} (hp : p ∈ ps) (job : Job) (check : Bool) (t : Tree)
    (current : Option ByteArray) (text : Text) :
    Written ps t (settleFile Tree.storeText job check t p current text).tree := by
  have hstore := written_storeText hp t text
  unfold settleFile
  split
  · exact .refl ps t
  · split
    · exact .refl ps t
    · generalize t.storeText p text = x at hstore
      obtain ⟨t', r⟩ := x
      cases r <;> exact hstore

theorem written_rebuildStep {page : Path} (hp : c.outputOf page ∈ ps) (check : Bool)
    (template : Text) (t : Tree) : Written ps t (rebuildStep c check template t page).tree := by
  unfold rebuildStep
  split
  · exact .refl ps t
  · next html _ =>
    simp only
    split
    · exact .refl ps t
    · next current _ => exact written_settleFile hp .rebuild check t current html

theorem written_rebuildAll (c : Config) (check : Bool) (t : Tree) :
    Written (c.rebuild.pages.map c.outputOf) t (rebuildAll c check t).tree := by
  cases ht : t.textAt c.rebuild.template with
  | error e =>
    simp only [rebuildAll, ht]
    exact .refl _ t
  | ok template =>
    rw [(rebuildAll_eq check ht).1]
    exact runBatch_invariant (.refl _ t) fun page hpage u hu =>
      hu.trans (written_rebuildStep (List.mem_map_of_mem hpage) check template u)

/-! ## Refilling -/

/-- A file's turn changes this file at most, and only if it can be read. -/
theorem refilled_retemplateStep {ss : List Section} {p : Path} {host : Host} (check : Bool)
    (hp : host.CanRead t p → p ∈ ps) :
    Refilled ps t (host.retemplateStep ss check t p).tree := by
  cases hr : (host.retemplateStep ss check t p).result with
  | error f =>
    obtain ⟨-, htree⟩ | ⟨-, _, _, _, l, ht, -, -, -, -, -, hl, hover⟩ :=
      retemplateStep_eq_error hr
    · rw [htree]
      exact .refl ps t
    · obtain ⟨k, hk, hb⟩ := read_eq_ok_iff.1 (Host.textAt_eq_ok_iff.1 ht).2
      obtain rfl : l = k := by simpa [hl] using hk
      exact hover.refilled hb hl (hp (Host.canRead_of_textAt ht))
  | ok a =>
    cases check with
    | true =>
      rw [(settles_retemplateStep host ss).tree_step t p]
      exact .refl ps t
    | false =>
      obtain ⟨l, old, new, hallowed, hl, hb, -, -, hover⟩ := retemplateStep_eq_ok hr
      exact hover.refilled hb hl (hp ⟨hallowed, _, read_eq_ok_iff.2 ⟨l, hl, hb⟩⟩)

/-- Retemplating ends before any file has its turn, or all fragments are read and it goes through
the files for which the targets stand. -/
theorem refilled_retemplateAll (host : Host) (c : Config) (targets : List Path) (check : Bool)
    (t : Tree) :
    (host.retemplateAll c targets check t).tree = t ∨
      ∃ files, host.filesOf t targets c.fragments = .ok files ∧
        (∀ q ∈ c.fragments, host.CanRead t q) ∧
        Refilled (files.filter (host.CanRead t ·)) t (host.retemplateAll c targets check t).tree := by
  cases hss : host.readSections t c.retemplate.sections with
  | error f =>
    simp only [Host.retemplateAll, hss]
    exact .inl trivial
  | ok ss =>
    cases hfiles : host.filesOf t targets c.fragments with
    | error e =>
      simp only [Host.retemplateAll, hss, hfiles]
      exact .inl rfl
    | ok files =>
      refine .inr ⟨files, rfl, fun q hq => ?_, ?_⟩
      · obtain ⟨e, he, rfl⟩ := List.mem_map.1 hq
        obtain ⟨text, htext⟩ := (of_readSections hss).2.2 e he
        exact Host.canRead_of_textAt htext
      · rw [(retemplateAll_eq check hss hfiles).1]
        refine runBatch_invariant (.refl _ t) fun p hp u hu => ?_
        refine hu.trans (refilled_retemplateStep check fun hread => ?_)
        exact List.mem_filter.2 ⟨hp, decide_eq_true (Host.canRead_congr hu.shape hread)⟩

end PageSplice
