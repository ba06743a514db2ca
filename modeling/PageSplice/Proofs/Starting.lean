import PageSplice.Proofs.Footprint
import PageSplice.Proofs.Storing
import PageSplice.Run.Init

/-!
# Starting a project

A project is started by storing the default configuration under a path that leads nowhere.  Nothing
but the file there and directories on its way are new (`written_startProject`).  The parents are
made after the path was found to lead nowhere.  So it may lead to a file once they are there, if it
has a step up, and that file is lost (`startProject_overwrites`); any other file stays
(`get?_file_startProject`).  The configuration that is read back is the default one, and the path
is then refused (`startProject_writes_default`).
-/

namespace PageSplice

open PageSplice.Tree

variable {t : Tree} {p : Path}

/-- Where the path leads nowhere, the default text is stored under it, and this fails or does not as
a whole. -/
theorem storeText_startProject (h : ¬ t.leads p) :
    (t.storeText p (Config.write {})).1 = (startProject p t).tree ∧
      ((t.storeText p (Config.write {})).2 = .ok () ↔ (startProject p t).result = .ok ()) := by
  rw [startProject, if_neg h, storeText]
  cases t.makeParents p with
  | mk t₁ r =>
    cases r with
    | error x => simp
    | ok u =>
      simp only
      cases t₁.write p (Config.write {}).encode <;> simp

theorem tree_startProject (h : ¬ t.leads p) :
    (startProject p t).tree = (t.storeText p (Config.write {})).1 :=
  (storeText_startProject h).1.symm

theorem startProject_of_leads (h : t.leads p) :
    startProject p t = { tree := t, result := .error { cause := .configExists p } } := by
  rw [startProject, if_pos h]

theorem tree_startProject_of_leads (h : t.leads p) : (startProject p t).tree = t := by
  rw [startProject_of_leads h]

theorem written_startProject (p : Path) (t : Tree) : Written [p] t (startProject p t).tree := by
  by_cases h : t.leads p
  · rw [tree_startProject_of_leads h]
    exact .refl _ t
  · rw [tree_startProject h]
    exact written_storeText (List.mem_singleton_self p) t _

/-- A file keeps its content, unless the path has a step up and leads there only now. -/
theorem get?_file_startProject {l : Location} {b : ByteArray} (hb : t.get? l = some (.file b)) :
    let t' := (startProject p t).tree
    t'.get? l = some (.file b) ∨
      ['.', '.'] ∈ Path.names p ∧ ¬ t.leads p ∧ t'.find p = .ok l := by
  intro t'
  by_cases hleads : t.leads p
  · rw [show t' = t from tree_startProject_of_leads hleads]
    exact .inl hb
  · have ht' : t' = (t.storeText p (Config.write {})).1 := tree_startProject hleads
    cases hs : t.storeText p (Config.write {}) with
    | mk t₁ r =>
      rw [hs] at ht'
      rw [ht']
      cases r with
      | error e => exact .inl ((grown_of_storeText_error hs).1.get?_of_some hb)
      | ok u =>
        obtain hsame | hled | ⟨hup, -, -, hfound⟩ := get?_file_of_storeText hs hb
        · exact .inl hsame
        · exact absurd (leads_iff.2 ⟨l, hled⟩) hleads
        · exact .inr ⟨hup, hleads, hfound⟩

/-! ## What was started -/

/-- The written default, with its sections as tables, is read as the settings that a configuration
has by default. -/
theorem Config.parse_write_default : Config.parse (Config.write {}) = .ok {} := by decide +kernel

theorem Config.load_of_textAt {text : Text} (h : t.textAt p = .ok text) :
    Config.load t p = Config.parse text := by
  rw [Config.load, textAt_eq_ok_iff.1 h]
  simp only [Text.decode?_encode]

theorem load_of_stored {t' : Tree} {l : Location} (h : StoredUnder p (Config.write {}) l t t') :
    Config.load t' p = .ok {} :=
  (Config.load_of_textAt h.textAt_eq).trans Config.parse_write_default

/-- If a project can be started, its path led nowhere.  The default configuration is then read back
from it; one file is new or filled, to which the path leads, and all else that is new are
directories on its way that were missing.  A file is filled only if the path has a step up and leads
there once its parents were made.  Another start fails and changes nothing.

If it cannot be started, such directories are all that is new, and nothing is new if the path led to
something or nothing is missing above it. -/
theorem startProject_writes_default (p : Path) (t : Tree) :
    let o := startProject p t
    (o.result = .ok () →
      ¬ t.leads p ∧ Config.load o.tree p = .ok {} ∧
      (∃ l, StoredUnder p (Config.write {}) l t o.tree) ∧
      (∀ l b, t.get? l = some (.file b) →
        o.tree.get? l = some (.file b) ∨
          ['.', '.'] ∈ Path.names p ∧ (t.makeParents p).1.find p = .ok l) ∧
      startProject p o.tree =
        { tree := o.tree, result := .error { cause := .configExists p } }) ∧
    ∀ f, o.result = .error f →
      GrownOnWay p t o.tree ∧ (t.leads p → o.tree = t) ∧
      ((∀ q, Path.parent? p = some q → q = [] ∨ t.leads q) → o.tree = t) := by
  intro o
  by_cases hleads : t.leads p
  · have ho : o = _ := startProject_of_leads hleads
    refine ⟨fun hok => ?_, fun f _ => ?_⟩
    · rw [ho] at hok
      cases hok
    · rw [ho]
      exact ⟨.refl p t, fun _ => rfl, fun _ => rfl⟩
  · obtain ⟨htree, hiff⟩ := storeText_startProject hleads
    refine ⟨fun hok => ?_, fun f hf => ?_⟩
    · have hs : t.storeText p (Config.write {}) = (o.tree, .ok ()) := Prod.ext htree (hiff.2 hok)
      obtain ⟨l, hst⟩ := stored_of_storeText hs
      refine ⟨hleads, load_of_stored hst, ⟨l, hst⟩, fun k b hb => ?_,
        startProject_of_leads (leads_iff.2 ⟨l, hst.found⟩)⟩
      obtain hsame | hled | ⟨hup, -, hnow, -⟩ := get?_file_of_storeText hs hb
      · exact .inl hsame
      · exact absurd (leads_iff.2 ⟨k, hled⟩) hleads
      · exact .inr ⟨hup, hnow⟩
    · cases hr : (t.storeText p (Config.write {})).2 with
      | ok u => rw [hiff.1 hr] at hf; cases hf
      | error e =>
        have hs : t.storeText p (Config.write {}) = (o.tree, .error e) := Prod.ext htree hr
        exact ⟨(grown_of_storeText_error hs).1, fun h => absurd h hleads, eq_of_storeText_error hs⟩

/-- The path goes up from a directory that is missing, and ends at a link whose target is missing.
Behind a file nothing can be started. -/
theorem startProject_writes_default_behind_link :
    let t := (Tree.ofTexts [("x", "mine")]).put [] "c".toList (.link "d".toList)
    let o := startProject "n/../c".toList t
    o.result = .ok () ∧ Config.load o.tree "n/../c".toList = .ok {} ∧
      o.tree.get? ["x".toList] = some (.file (Text.encode "mine".toList)) ∧
      (startProject "n/../c".toList o.tree).tree = o.tree ∧
      (startProject "x/c".toList t).tree = t := by
  intro t o
  have hok : o.result = .ok () := by decide +kernel
  have hx : t.get? ["x".toList] = some (.file (Text.encode "mine".toList)) := by decide +kernel
  have helsewhere : (t.makeParents "n/../c".toList).1.find "n/../c".toList ≠ .ok ["x".toList] := by
    decide +kernel
  have hfails : (startProject "x/c".toList t).result =
      .error { during := some (.creating "x".toList), cause := .tree .alreadyExists } := by
    decide +kernel
  have hparent : Path.parent? "x/c".toList = some "x".toList := by decide +kernel
  have hleads : t.leads "x".toList := by decide +kernel
  -- from here on the files do not matter
  clear_value t
  obtain ⟨-, hload, -, hkept, hagain⟩ := (startProject_writes_default _ t).1 hok
  have habove : ∀ q, Path.parent? "x/c".toList = some q → q = [] ∨ t.leads q := by
    intro q hq
    rw [hparent] at hq
    cases hq
    exact .inr hleads
  refine ⟨hok, hload, ?_, (congrArg Outcome.tree hagain :),
    ((startProject_writes_default _ t).2 _ hfails).2.2 habove⟩
  exact (hkept _ _ hx).resolve_right fun hnow => helsewhere hnow.2

/-- The path leads nowhere until the directory before the step up is made; then the file to which it
leads is filled with the default. -/
theorem startProject_overwrites :
    let t := Tree.ofTexts [("x", "mine")]
    let o := startProject "new/../x".toList t
    t.get? ["x".toList] = some (.file (Text.encode "mine".toList)) ∧ o.result = .ok () ∧
      o.tree.get? ["x".toList] ≠ some (.file (Text.encode "mine".toList)) := by
  decide +kernel

end PageSplice
