import PageSplice.Proofs.Tree.Growth

/-!
# Files behind new directories

A directory that was just made holds nothing, so a path without steps up finds no file behind it:
the files to which such a path leads once its parents were made, it led to before
(`find_of_makeParents`).  So storing a text under such a path changes no file to which the path did
not lead (`find_of_storeText`), and under any path it changes only a file to which the path leads
once its parents were made (`get?_file_of_storeText`).
-/

namespace PageSplice.Tree

variable {t t' : Tree}

/-! ## One more name -/

theorem advance_of_fillers (why : Purpose) (d : Location) {ss : List Text}
    (h : ss.filter (!Path.isFiller ·) = []) : t.advance why d ss = .found d := by
  induction ss with
  | nil => rfl
  | cons s rest ih =>
    have hs : Path.isFiller s := by simpa using List.filter_eq_nil_iff.1 h s (List.mem_cons_self ..)
    rw [List.filter_cons_of_neg (by simp [hs])] at h
    rw [advance, if_pos hs, ih h]

/-- Behind a directory in which a name is free or a directory's, that name leads to the directory,
or nowhere. -/
theorem eq_of_follow_name {k : Nat} {d l : Location} {ss : List Text} {n : Text}
    (hss : ss.filter (!Path.isFiller ·) = [n]) (hup : n ≠ ['.', '.'])
    (hfree : t.get? (d ++ [n]) = none ∨ t.get? (d ++ [n]) = some .dir)
    (h : t.follow .reach k d ss = .ok (.found l)) : l = d ++ [n] ∧ t.get? l = some .dir := by
  induction ss with
  | nil => cases hss
  | cons s rest ih =>
    by_cases hs : Path.isFiller s
    · rw [List.filter_cons_of_neg (by simp [hs])] at hss
      have hskip : t.advance .reach d (s :: rest) = t.advance .reach d rest := by
        rw [advance, if_pos hs]
      rw [follow_eq_of_advance_eq hskip] at h
      exact ih hss h
    · rw [List.filter_cons_of_pos (by simp [hs])] at hss
      obtain ⟨rfl, hrest⟩ := List.cons.inj hss
      have hs : Path.isFiller s = false := by simpa using hs
      obtain ⟨hd, hstands⟩ := stands_of_follow hs hup h
      have hdir := hfree.resolve_left hstands
      have hadv : t.advance .reach d (s :: rest) = _ := advance_name hs hup (by simp) (by simp)
      rw [if_neg (by simp [hd]), hdir] at hadv
      simp only [advance_of_fillers .reach (d ++ [s]) hrest] at hadv
      split at hadv
      · rw [follow_of_failed hadv] at h; cases h
      · rw [follow_of_found hadv] at h
        cases h
        exact ⟨rfl, hdir⟩

/-! ## New directories -/

/-- Nothing but a directory is in a directory that is new. -/
theorem GrownOnWay.get?_below {p : Path} {m : Location} {n : Text} (h : GrownOnWay p t t')
    (hm : t.get? m = none) :
    t.get? (m ++ [n]) = none ∧ (t'.get? (m ++ [n]) = none ∨ t'.get? (m ++ [n]) = some .dir) := by
  have hnone : t.get? (m ++ [n]) = none := by
    cases hg : t.get? (m ++ [n]) with
    | none => rfl
    | some e =>
      rw [get?_above hg (List.prefix_append ..) (by simp)] at hm
      cases hm
  exact ⟨hnone, (h.frame (m ++ [n])).imp (·.trans hnone) (·.2.1)⟩

/-- What stands behind a new directory is a new directory too. -/
theorem GrownOnWay.dir_of_find_parent {r p q : Path} {m l : Location} (h : GrownOnWay r t t')
    (hm : t'.find q = .ok m) (hnone : t.get? m = none) (hpq : Path.parent? p = some q) (hq : q ≠ [])
    (hup : ['.', '.'] ∉ Path.names p) (hl : t'.find p = .ok l) :
    t.get? l = none ∧ t'.get? l = some .dir := by
  obtain ⟨d, k, ss, n, hd, -, hn, hss, hgo⟩ := follow_of_find_parent hl hpq hq
  obtain rfl : d = m := by simpa [hd] using hm
  obtain ⟨hfree, hbelow⟩ := h.get?_below (n := n) hnone
  have hnup : n ≠ ['.', '.'] := by
    rintro rfl
    exact hup (by simp [hn])
  obtain ⟨rfl, hdir⟩ := eq_of_follow_name hss hnup hbelow hgo
  exact ⟨hfree, hdir⟩

theorem grown_makeDirs (t : Tree) {p q : Path} (h : Path.parent? p = some q) :
    GrownOnWay p t (t.makeDirs q).1 :=
  grown_makeFirst fun _ ha => Path.isAbove_of_parent? h ha

theorem exists_of_isDir {p : Path} (h : t.isDir p = true) : ∃ l, t.find p = .ok l := by
  unfold isDir directory? at h
  cases hf : t.find p with
  | error e => rw [hf] at h; cases h
  | ok l => exact ⟨l, rfl⟩

/-- What making a directory comes to, in terms of its parent. -/
theorem makeDirs_eq_ok {q : Path} (hq : q ≠ []) (h : t.makeDirs q = (t', .ok ())) :
    t' = t ∨ t.makeDir q = .ok t' ∨
      ∃ a t₁, Path.parent? q = some a ∧ t.makeDirs a = (t₁, .ok ()) ∧
        (t₁.makeDir q = .ok t' ∨ t' = t₁ ∧ t₁.isDir q = true) := by
  have hparent : ∃ ps, Path.ancestors q = q :: ps ∧
      (ps = [] ∨ ∃ a, Path.parent? q = some a ∧ ps = Path.ancestors a) := by
    rw [Path.ancestors]
    split
    · exact ⟨[], rfl, .inl rfl⟩
    · next a ha => exact ⟨_, rfl, .inr ⟨a, ha, rfl⟩⟩
  obtain ⟨ps, hps, hcase⟩ := hparent
  rw [makeDirs, hps, makeFirst, if_neg hq] at h
  split at h
  · next t₁ ht₁ =>
    cases h
    exact .inr (.inl ht₁)
  · cases hfirst : t.makeFirst ps with
    | mk t₁ r =>
      rw [hfirst] at h
      cases r with
      | error e => cases h
      | ok u =>
        obtain rfl | ⟨a, ha, rfl⟩ := hcase
        · cases hfirst
          simp only at h
          split at h
          · next t₁ ht₁ => cases h; exact .inr (.inl ht₁)
          · split at h <;> cases h
            exact .inl rfl
        · refine .inr (.inr ⟨a, t₁, ha, hfirst, ?_⟩)
          simp only at h
          split at h
          · next t₂ ht₂ => cases h; exact .inl ht₂
          · split at h
            · next hdir => cases h; exact .inr ⟨rfl, hdir⟩
            · cases h
  · split at h <;> cases h
    exact .inl rfl

/-- Making the directories on the way of a path without steps up changes nothing, or the path leads
to a directory that is new. -/
theorem exists_of_makeDirs {q : Path} (hq : q ≠ []) (hup : ['.', '.'] ∉ Path.names q)
    (h : t.makeDirs q = (t', .ok ())) :
    t' = t ∨ ∃ m, t'.find q = .ok m ∧ t.get? m = none := by
  obtain hsame | hnew | ⟨a, t₁, ha, hmade, hlast⟩ := makeDirs_eq_ok hq h
  · exact .inl hsame
  · obtain ⟨m, hm, hnone, -⟩ := find_of_makeDir hnew
    exact .inr ⟨m, hm, hnone⟩
  · have hgrown : GrownOnWay q t t₁ := by
      have := t.grown_makeDirs ha
      rwa [hmade] at this
    obtain hnew | ⟨rfl, hdir⟩ := hlast
    · obtain ⟨m, hm, hnone, -⟩ := find_of_makeDir hnew
      refine .inr ⟨m, hm, ?_⟩
      rw [← hgrown.get?_eq (by rw [hnone]; simp), hnone]
    · by_cases hnil : a = []
      · subst hnil
        rw [makeDirs_nil] at hmade
        cases hmade
        exact .inl rfl
      · -- if the parent's directory is new, so is what is in it
        obtain ⟨m, hm⟩ := exists_of_isDir hdir
        obtain ⟨n, hn⟩ := Path.names_of_parent? ha hnil
        have hlen := Path.length_of_parent? ha
        obtain hsame | ⟨d, hd, hnone⟩ :=
          exists_of_makeDirs hnil (fun h => hup (hn ▸ List.mem_append_left _ h)) hmade
        · exact .inl hsame
        · exact .inr ⟨m, hm, (hgrown.dir_of_find_parent hd hnone ha hnil hup hm).1⟩
termination_by q.length

/-- A path without steps up that leads to a file once its parents were made, led there before. -/
theorem find_of_makeParents {p : Path} {l : Location} {b : ByteArray}
    (hup : ['.', '.'] ∉ Path.names p) (h : t.makeParents p = (t', .ok ()))
    (hl : t'.find p = .ok l) (hb : t'.get? l = some (.file b)) : t.find p = .ok l := by
  have hsame : t' = t → t.find p = .ok l := fun h => h ▸ hl
  rw [makeParents] at h
  cases hq : Path.parent? p with
  | none =>
    rw [hq] at h
    cases h
    exact hl
  | some q =>
    rw [hq] at h
    simp only at h
    cases hmade : t.makeDirs q with
    | mk t₁ r =>
      rw [hmade] at h
      cases r with
      | error e => cases h
      | ok u =>
        cases h
        by_cases hnil : q = []
        · subst hnil
          rw [makeDirs_nil] at hmade
          cases hmade
          exact hl
        · obtain ⟨n, hn⟩ := Path.names_of_parent? hq hnil
          obtain hstill | ⟨d, hd, hnone⟩ :=
            exists_of_makeDirs hnil (fun h => hup (hn ▸ List.mem_append_left _ h)) hmade
          · exact hsame hstill
          · have hgrown := t.grown_makeDirs hq
            rw [hmade] at hgrown
            rw [(hgrown.dir_of_find_parent hd hnone hq hnil hup hl).2] at hb
            cases hb

/-- If a path leads to a file that was filled through it and stood before, it led there once its
parents were made. -/
theorem find_makeParents_of_storeText {p : Path} {text : Text} {l : Location} {b : ByteArray}
    (h : t.storeText p text = (t', .ok ())) (hl : t'.find p = .ok l)
    (hb : t.get? l = some (.file b)) :
    ∃ t₁, t.makeParents p = (t₁, .ok ()) ∧ t₁.find p = .ok l ∧ t₁.get? l = some (.file b) := by
  have hgrown := t.grown_makeParents p
  rw [storeText] at h
  cases hm : t.makeParents p with
  | mk t₁ r =>
    rw [hm] at h hgrown
    cases r with
    | error x => cases h
    | ok u =>
      have hb₁ := hgrown.get?_of_some hb
      simp only at h
      cases hw : t₁.write p text.encode with
      | error e => rw [hw] at h; cases h
      | ok t₂ =>
        rw [hw] at h
        cases h
        refine ⟨t₁, rfl, ?_, hb₁⟩
        obtain ⟨g, hg, hst⟩ := stored_of_write hw
        obtain rfl : g.location = l := by simpa [hl] using hst.found.symm
        cases g with
        | found l' => rw [find, hg]; rfl
        | free d n => simp [Place.location, (get?_of_lookup_free hg).2.1] at hb₁

/-- If a path without steps up leads to a file that was filled through it and stood before, it led
there before. -/
theorem find_of_storeText {p : Path} {text : Text} {l : Location} {b : ByteArray}
    (hup : ['.', '.'] ∉ Path.names p) (h : t.storeText p text = (t', .ok ()))
    (hl : t'.find p = .ok l) (hb : t.get? l = some (.file b)) : t.find p = .ok l :=
  have ⟨_, hm, hfind, hb₁⟩ := find_makeParents_of_storeText h hl hb
  find_of_makeParents hup hm hfind hb₁

/-- A file keeps its content when a text is stored, unless the path led to the file, or has a step up
and leads there only now that its parents were made. -/
theorem get?_file_of_storeText {p : Path} {text : Text} {l : Location} {b : ByteArray}
    (h : t.storeText p text = (t', .ok ())) (hb : t.get? l = some (.file b)) :
    t'.get? l = some (.file b) ∨ t.find p = .ok l ∨
      ['.', '.'] ∈ Path.names p ∧ ¬ t.leads p ∧ (t.makeParents p).1.find p = .ok l ∧
        t'.find p = .ok l := by
  obtain ⟨k, hst⟩ := stored_of_storeText h
  by_cases hk : l = k
  · subst hk
    obtain ⟨t₁, hm, hfind, -⟩ := find_makeParents_of_storeText h hst.found hb
    by_cases hbefore : t.find p = .ok l
    · exact .inr (.inl hbefore)
    · refine .inr (.inr ⟨?_, ?_, by rw [hm]; exact hfind, hst.found⟩)
      · exact Decidable.byContradiction fun hup =>
          hbefore (find_of_storeText hup h hst.found hb)
      · -- where the path led before, it still leads
        intro hleads
        obtain ⟨l', hl'⟩ := leads_iff.1 hleads
        have hsame : Except.ok l' = Except.ok (ε := FileError) l :=
          (hst.extension.find hl').symm.trans hst.found
        exact hbefore (hl'.trans hsame)
  · exact .inl (hst.get?_of_ne hk hb)

end PageSplice.Tree
