import PageSplice.Proofs.Tree.Located
import PageSplice.Proofs.Tree.Shape

/-!
# Real paths

Two paths that lead to one location have one real path, if each has any, so they count as the same
file (`sameFile_of_coincide`).  A path may lead to a file and still have no real path; it has one as
long as the working directory stands and no real path is too long (`WithinLimit.resolves`), unless
the system refuses to tell it.
-/

namespace PageSplice.Tree

variable {t : Tree}

/-- No real path is too long for a look-up, nor that of a directory with a slash behind it. -/
def WithinLimit (t : Tree) : Prop :=
  ∀ l e, t.get? l = some e →
    Text.byteLength (Location.path l) + (if e = .dir then 1 else 0) < pathLimit

instance (t : Tree) : Decidable t.WithinLimit :=
  decidable_of_iff (∀ x ∈ t.entries,
      Text.byteLength (Location.path x.1) + (if x.2 = .dir then 1 else 0) < pathLimit) <| by
    constructor
    · intro h l e he
      by_cases hl : l = []
      · subst hl
        cases he
        decide
      · exact h (l, e) (mem_entries_iff.2 ⟨hl, he⟩)
    · rintro h ⟨l, e⟩ hx
      exact h l e (mem_entries_iff.1 hx).2

/-! ## Look-ups for the real path -/

/-- Where steps lead to something or to a link, they do so for the real path too. -/
theorem WithinLimit.advance (hfit : t.WithinLimit) {d : Location} {ss : List Text} {g : Progress}
    (h : t.advance .reach d ss = g) (hfree : ∀ d' n, g ≠ .free d' n)
    (hfailed : ∀ e, g ≠ .failed e) : t.advance .canonicalize d ss = g := by
  induction ss generalizing d with
  | nil => exact h
  | cons s rest ih =>
    rw [Tree.advance] at h ⊢
    by_cases hf : Path.isFiller s
    · rw [if_pos hf] at h ⊢
      exact ih h
    · by_cases hs : s = ['.', '.']
      · rw [if_neg hf, if_pos hs] at h ⊢
        exact ih h
      · simp only [hf, hs, reduceCtorEq, false_and, if_false, Bool.false_eq_true] at h ⊢
        split at h
        · exact absurd h.symm (hfailed _)
        · next hd =>
          rw [if_neg hd]
          split at h
          · exact absurd h.symm (hfailed _)
          · next hlen =>
            rw [if_neg hlen]
            cases he : t.get? (d ++ [s]) with
            | none =>
              rw [he] at h
              simp only at h
              split at h
              · exact absurd h.symm (hfree _ _)
              · exact absurd h.symm (hfailed _)
            | some e =>
              -- what stands there has a real path that is short enough
              have hshort := hfit _ _ he
              rw [if_neg (by omega)]
              rw [he] at h
              cases e with
              | file | link => exact h
              | dir =>
                simp only [if_true] at hshort
                simp only [true_and]
                rw [if_neg (by omega)]
                exact ih h

theorem WithinLimit.follow (hfit : t.WithinLimit) {k : Nat} {d l : Location} {ss : List Text}
    (h : t.follow .reach k d ss = .ok (.found l)) :
    t.follow .canonicalize k d ss = .ok (.found l) := by
  refine follow_found_induct (motive := fun k d ss => t.follow .canonicalize k d ss = .ok (.found l))
    (fun k d ss hg => ?_) (fun k d ss d' target rest hg ih => ?_) h
  · exact follow_of_found (hfit.advance hg (by simp) (by simp))
  · rw [Tree.follow, hfit.advance hg (by simp) (by simp)]
    exact ih

/-- A path that leads to something has its location's path as its real path. -/
theorem WithinLimit.realPath_of_find (hfit : t.WithinLimit) (hhere : t.hereStands) {p : Path}
    {l : Location} (h : t.find p = .ok l) : t.realPath p = .ok (Location.path l) := by
  obtain ⟨⟨hnul, hne, -⟩, hfollow⟩ := find_eq_ok_iff.1 h
  have hlookup : t.lookup .canonicalize p = .ok (.found l) := by
    rw [lookup, if_neg hnul, if_neg hne, if_neg (by simp)]
    exact hfit.follow hfollow
  rw [realPath, if_neg (by simp [hhere]), hlookup]

/-- Within the limit, what can be read has a real path, if the system tells it. -/
theorem WithinLimit.resolves (hfit : t.WithinLimit) (hhere : t.hereStands) {host : Host} {p : Path}
    (htold : host.unresolved p = none) (h : host.CanRead t p) : host.Resolves t p := by
  obtain ⟨-, b, hb⟩ := h
  obtain ⟨l, hl, -⟩ := read_eq_ok_iff.1 hb
  exact ⟨htold, _, hfit.realPath_of_find hhere hl⟩

/-! ## The same file -/

/-- The real path is that of the location to which the path leads. -/
theorem eq_path_of_realPath {p q : Path} {l : Location} (h : t.realPath p = .ok q)
    (hl : t.find p = .ok l) : q = Location.path l := by
  obtain ⟨m, rfl, -, -, -, hfollow⟩ := exists_of_realPath h
  have hreach := (find_eq_ok_iff.1 hl).2
  rw [follow_of_canonicalize hfollow] at hreach
  cases hreach
  rfl

theorem realOrSame_of_resolves {host : Host} {p : Path} {l : Location} (h : host.Resolves t p)
    (hl : t.find p = .ok l) : host.realOrSame t p = Location.path l := by
  obtain ⟨htold, q, hq⟩ := h
  rw [Host.realOrSame, htold]
  simp only [Tree.realOrSame, hq]
  exact eq_path_of_realPath hq hl

theorem sameFile_of_coincide {host : Host} {p q : Path} (hp : host.Resolves t p)
    (hq : host.Resolves t q) (h : t.Coincide p q) : host.sameFile t p q = true := by
  obtain ⟨l, hpl, hql⟩ := h
  rw [Host.sameFile, realOrSame_of_resolves hp hpl, realOrSame_of_resolves hq hql]
  exact beq_self_eq_true _

end PageSplice.Tree
