import PageSplice.Proofs.Retemplating
import PageSplice.Proofs.Tree.Fresh

/-!
# Storing and reading back

A text that was stored under a path is read back from it, whatever links, steps up and final slashes
the path has, and all that is new besides the file are directories that were missing on the way of
the path.  A text that cannot be stored changes no file, and one can always be stored where one was
read (`storeText_reads_back`).

The parents are made first, and the file is looked up behind them.  So a path with a step up may
lead nowhere and still fill a file that was there (`storeText_fills_behind_new`).
-/

namespace PageSplice.Tree

variable {t t' : Tree} {p : Path} {text : Text} {l : Location}

theorem StoredUnder.read_eq (h : StoredUnder p text l t t') : t'.read p = .ok text.encode :=
  read_eq_ok_iff.2 ⟨l, h.found, h.new⟩

theorem StoredUnder.textAt_eq (h : StoredUnder p text l t t') : t'.textAt p = .ok text :=
  textAt_eq_ok_iff.2 h.read_eq

theorem StoredUnder.contentAt_eq (h : StoredUnder p text l t t') :
    t'.contentAt p = .ok (some text.encode) := by
  rw [contentAt, h.read_eq]

/-- Where a text was read, another can be stored: the file at which the path ends gets it, and all
else stays. -/
theorem storeText_of_textAt {old : Text} (h : t.textAt p = .ok old) (text : Text) :
    ∃ t' l, t.storeText p text = (t', .ok ()) ∧ t.find p = .ok l ∧
      ∀ k, t'.get? k = if k = l then some (.file text.encode) else t.get? k := by
  obtain ⟨l, hl, hb⟩ := read_eq_ok_iff.1 (textAt_eq_ok_iff.1 h)
  obtain ⟨t', hstored, -, hget⟩ := storeText_of_file hl hb text
  exact ⟨t', l, hstored, hl, hget⟩

/-- Where nothing is missing above the path, a text that cannot be stored changes nothing. -/
theorem eq_of_storeText_error {e : FileFault} (h : t.storeText p text = (t', .error e))
    (habove : ∀ q, Path.parent? p = some q → q = [] ∨ t.leads q) : t' = t := by
  have hparents := makeParents_of_leads habove
  rw [storeText] at h
  generalize t.makeParents p = x at hparents h
  obtain ⟨t₁, r⟩ := x
  cases r with
  | error x =>
    cases h
    exact hparents
  | ok u =>
    simp only at h
    cases hw : t₁.write p text.encode with
    | ok t₂ => rw [hw] at h; cases h
    | error x =>
      rw [hw] at h
      cases h
      exact hparents

/-- A stored text is read back.  Of the entries, one file is new or filled, to which the path leads;
what else is new are directories on the path's way that were missing; the rest stays.  A file that is
filled is one to which the path led, or one to which it leads only now that its parents were made;
then it has a step up.  If the text cannot be stored, such directories are all that is new.  Where a
text was read, storing does not fail, and makes nothing. -/
theorem storeText_reads_back (t : Tree) (p : Path) (text : Text) :
    (∀ t', t.storeText p text = (t', .ok ()) →
      t'.textAt p = .ok text ∧ t'.contentAt p = .ok (some text.encode) ∧
      (∃ l, StoredUnder p text l t t') ∧
      ∀ l b, t.get? l = some (.file b) →
        t'.get? l = some (.file b) ∨ t.find p = .ok l ∨
          ['.', '.'] ∈ Path.names p ∧ ¬ t.leads p ∧ (t.makeParents p).1.find p = .ok l) ∧
    (∀ t' e, t.storeText p text = (t', .error e) → GrownOnWay p t t') ∧
    ∀ old, t.textAt p = .ok old →
      ∃ t' l, t.storeText p text = (t', .ok ()) ∧ t.find p = .ok l ∧
        ∀ k, t'.get? k = if k = l then some (.file text.encode) else t.get? k := by
  refine ⟨fun t' h => ?_, fun t' e h => (grown_of_storeText_error h).1,
    fun old h => storeText_of_textAt h text⟩
  obtain ⟨l, hst⟩ := stored_of_storeText h
  refine ⟨hst.textAt_eq, hst.contentAt_eq, ⟨l, hst⟩, fun k b hb => ?_⟩
  obtain hsame | hled | ⟨hup, hleads, hnow, -⟩ := get?_file_of_storeText h hb
  · exact .inl hsame
  · exact .inr (.inl hled)
  · exact .inr (.inr ⟨hup, hleads, hnow⟩)

/-- The path goes up from a directory that is missing, and then through a link whose target is
missing.  Below a file nothing can be stored. -/
theorem storeText_reads_back_behind_link :
    let t := (Tree.ofTexts [("x", "mine")]).put [] "s".toList (.link "n".toList)
    let p := "d/../s".toList
    let text := "new".toList
    (t.storeText p text).2 = .ok () ∧ (t.storeText p text).1.textAt p = .ok text ∧
      (t.storeText p text).1.get? ["x".toList] = some (.file (Text.encode "mine".toList)) ∧
      GrownOnWay "x/a".toList t (t.storeText "x/a".toList text).1 ∧
      ∃ t', t.storeText "x".toList text = (t', .ok ()) := by
  intro t p text
  have hstored : (t.storeText p text).2 = .ok () := by decide +kernel
  obtain ⟨hback, -, -, hkept⟩ := (storeText_reads_back t p text).1 _ (Prod.ext rfl hstored)
  have hx : t.get? ["x".toList] = some (.file (Text.encode "mine".toList)) := by decide +kernel
  have hfails : (t.storeText "x/a".toList text).2 =
      .error (.writing "x".toList .alreadyExists) := by decide +kernel
  have hread : t.textAt "x".toList = .ok "mine".toList := by decide +kernel
  obtain ⟨t', -, ht', -⟩ := (storeText_reads_back t "x".toList text).2.2 _ hread
  refine ⟨hstored, hback, ?_,
    (storeText_reads_back t "x/a".toList text).2.1 _ _ (Prod.ext rfl hfails), t', ht'⟩
  obtain hsame | hled | ⟨-, -, hleads⟩ := hkept _ _ hx
  · exact hsame
  · revert hled
    decide +kernel
  · revert hleads
    decide +kernel

/-- The path leads nowhere, but once the directory before the step up is made it leads to a file that
was there all along, and fills it. -/
theorem storeText_fills_behind_new :
    let t := Tree.ofTexts [("x", "mine")]
    let p := "new/../x".toList
    ¬ t.leads p ∧ t.get? ["x".toList] = some (.file (Text.encode "mine".toList)) ∧
      (t.storeText p "c".toList).2 = .ok () ∧
      (t.storeText p "c".toList).1.get? ["x".toList] = some (.file (Text.encode "c".toList)) := by
  decide +kernel

end PageSplice.Tree
