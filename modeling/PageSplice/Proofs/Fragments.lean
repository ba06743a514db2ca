import PageSplice.Proofs.Footprint
import PageSplice.Proofs.Tree.Real

/-!
# Fragments below targets

A directory stands for no fragment, however the fragments are written and whatever links lead to
them, so retemplating directories leaves all fragments as they were
(`retemplateAll_spares_fragments`).  Fragments are told by their real paths.  Without these, as
behind a directory whose real path is just short enough, a run may fill a fragment
(`retemplateAll_fills_fragment_without_realPath`).
-/

namespace PageSplice

open PageSplice.Tree

variable {host : Host} {t : Tree} {targets exclude files : List Path} {p q : Path}

namespace Host

theorem exists_of_mem_filesOf (h : host.filesOf t targets exclude = .ok files) (hp : p ∈ files) :
    ∃ target ∈ targets, ∃ ps, host.filesOfTarget t exclude target = .ok ps ∧ p ∈ ps := by
  rw [filesOf] at h
  cases hm : targets.mapM (host.filesOfTarget t exclude) with
  | error e => rw [hm] at h; cases h
  | ok pss =>
    rw [hm] at h
    cases h
    obtain ⟨ps, hps, hp⟩ := List.mem_flatten.1 hp
    obtain ⟨target, htarget, hf⟩ := exists_of_mem_mapM hm hps
    exact ⟨target, htarget, ps, hf, hp⟩

/-- A directory stands for no file that counts as the same as an excluded one. -/
theorem not_sameFile_of_isDir {target : Path} {ps : List Path}
    (hdir : host.isDir t target = true) (h : host.filesOfTarget t exclude target = .ok ps)
    (hp : p ∈ ps) (hq : q ∈ exclude) : host.sameFile t p q = false := by
  obtain ⟨d, hd⟩ := Option.isSome_iff_exists.1 hdir
  rw [filesOfTarget, hd] at h
  simp only at h
  split at h
  · cases h
  · cases h
    have hnone := (List.mem_filter.1 hp).2
    rw [Bool.not_eq_true', List.any_eq_false] at hnone
    exact Bool.eq_false_iff.2 (hnone q hq)

/-- Directories stand for no excluded file, if the real paths of both can be told. -/
theorem not_coincide_of_filesOf (hdirs : ∀ target ∈ targets, host.isDir t target = true)
    (h : host.filesOf t targets exclude = .ok files) (hp : p ∈ files) (hq : q ∈ exclude)
    (hpreal : host.Resolves t p) (hqreal : host.Resolves t q) : ¬ t.Coincide p q := by
  obtain ⟨target, htarget, ps, hps, hp⟩ := exists_of_mem_filesOf h hp
  have hdiff := not_sameFile_of_isDir (hdirs target htarget) hps hp hq
  intro hsame
  rw [sameFile_of_coincide hpreal hqreal hsame] at hdiff
  cases hdiff

end Host

/-- Suppose that the real path of each fragment and each listed file can be told that can be read.
Then a run over directories leaves all fragments as they were, whether it succeeds or fails, and no
listed file that can be read is a fragment whose real path can be told. -/
theorem retemplateAll_spares_fragments (host : Host) (c : Config) (check : Bool)
    (hdirs : ∀ target ∈ targets, host.isDir t target = true)
    (hfragments : ∀ q ∈ c.fragments, host.CanRead t q → host.Resolves t q)
    (hlisted : ∀ files, host.filesOf t targets c.fragments = .ok files →
      ∀ p ∈ files, host.CanRead t p → host.Resolves t p) :
    let t' := (host.retemplateAll c targets check t).tree
    (∀ q ∈ c.fragments, t'.find q = t.find q ∧ t'.read q = t.read q) ∧
      ∀ files, host.filesOf t targets c.fragments = .ok files →
        ∀ p ∈ files, host.CanRead t p →
          ∀ q ∈ c.fragments, host.Resolves t q → ¬ t.Coincide p q := by
  intro t'
  have hnone : ∀ files, host.filesOf t targets c.fragments = .ok files →
      ∀ p ∈ files, host.CanRead t p →
        ∀ q ∈ c.fragments, host.Resolves t q → ¬ t.Coincide p q :=
    fun files hfiles p hp hread q hq hreal =>
      Host.not_coincide_of_filesOf hdirs hfiles hp hq (hlisted files hfiles p hp hread) hreal
  refine ⟨fun q hq => ?_, hnone⟩
  obtain hsame | ⟨files, hfiles, hread, hrefilled⟩ := refilled_retemplateAll host c targets check t
  · rw [show t' = t from hsame]
    exact ⟨rfl, rfl⟩
  · refine ⟨hrefilled.shape.find q, hrefilled.read fun p hp => ?_⟩
    obtain ⟨hp, hcan⟩ := List.mem_filter.1 hp
    exact hnone files hfiles p hp (of_decide_eq_true hcan) q hq (hfragments q hq (hread q hq))

/-- The fragment is written through a link and with a step up.  Both targets are the directory in
which it stands.  One of the pages there can be neither read nor resolved, so the run fails there. -/
theorem retemplateAll_spares_linked_fragment :
    let page := "<!--A-->1<!--/A-->"
    let t := ((((Tree.empty.addText ["site"] "f.html" page).addText ["site"] "p.html" page).addText
      ["site"] "q.html" page).put [] "l".toList (.link "site".toList))
    let c := Config.ofSections [("A", "site/../l/f.html")]
    let targets := ["l".toList, "./site/".toList]
    let denied : FileError := .refused 13 "Permission denied"
    let closed := fun p : Path => if "q.html".toList <:+ p then some denied else none
    let host : Host := { unreadable := closed, unresolved := closed }
    let o := host.retemplateAll c targets false t
    o.result = .error { cause := .file (.reading "l/q.html".toList denied) } ∧
      o.tree.textAt "site/p.html".toList ≠ t.textAt "site/p.html".toList ∧
      ∀ q ∈ c.fragments, o.tree.find q = t.find q ∧ o.tree.read q = t.read q := by
  intro page t c targets denied closed host o
  have hfit : t.WithinLimit := by decide +kernel
  have hresolves : ∀ p, host.CanRead t p → host.Resolves t p :=
    fun p hread => hfit.resolves (by decide +kernel) hread.1 hread
  exact ⟨by decide +kernel, by decide +kernel, (retemplateAll_spares_fragments host c false
    (by decide +kernel) (fun q _ => hresolves q) (fun _ _ p _ => hresolves p)).1⟩

/-- A fragment that a run fills though its target is a directory.  A directory on the way of the
fragment has a real path that fits, but not with the slash that the step up behind it needs. -/
theorem retemplateAll_fills_fragment_without_realPath :
    let long := List.replicate 15 (List.replicate 255 'd')
    let last := List.replicate 254 'd'
    let t := ((Tree.empty.putDirs [] long).enter long |>.put long last .dir).put long
      "f.html".toList (.file (Text.encode "<!--A-->x<!--/A-->".toList))
    let c : Config :=
      { retemplate := { sections := [⟨"A".toList, last ++ "/../f.html".toList⟩] } }
    let targets := [".".toList]
    (∀ x ∈ t.entries, Text.byteLength (Location.path x.1) < pathLimit) ∧ t.hereStands ∧
      (∀ target ∈ targets, t.isDir target = true) ∧
      ∃ q ∈ c.fragments, (retemplateAll c targets false t).tree.read q ≠ t.read q := by
  decide +kernel

end PageSplice
