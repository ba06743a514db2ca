import PageSplice.Proofs.Tree.Plain

/-!
# Trees that grow

Making directories and storing texts takes nothing away, so what a path leads to it still leads to
afterwards (`Extends.find`).  This holds of every path, whatever steps up it has and whatever links
it passes.  Storing a text under a path fills one file, to which the path then leads, and makes
directories on the way of the path (`stored_of_storeText`); if the file cannot be written, only
these directories are new (`grown_of_storeText_error`).
-/

namespace PageSplice

namespace Path

theorem ancestors_of_parent? {p q : Path} (h : parent? p = some q) :
    ancestors p = p :: ancestors q := by
  rw [ancestors]
  split
  · next hnone => rw [h] at hnone; cases hnone
  · next q' hq => rw [h] at hq; cases hq; rfl

theorem length_le_of_mem_ancestors {p q : Path} (h : q ∈ ancestors p) : q.length ≤ p.length := by
  rw [ancestors] at h
  split at h
  · exact Nat.le_of_eq (congrArg _ (List.mem_singleton.1 h))
  · next p' hp =>
    have hlen := length_of_parent? hp
    rcases List.mem_cons.1 h with rfl | h
    · exact Nat.le_refl _
    · exact Nat.le_trans (length_le_of_mem_ancestors h) (Nat.le_of_lt hlen)
termination_by p.length

/-- What is left of a path as names are cut off, the whole path not among it. -/
def IsAbove (q p : Path) : Prop := q ∈ ancestors p ∧ q ≠ p

theorem isAbove_of_parent? {p q a : Path} (h : parent? p = some q) (ha : a ∈ ancestors q) :
    a.IsAbove p := by
  refine ⟨ancestors_of_parent? h ▸ List.mem_cons_of_mem _ ha, ?_⟩
  rintro rfl
  have hshort := length_of_parent? h
  have hlong := length_le_of_mem_ancestors ha
  omega

end Path

namespace Tree

variable {t t' t'' : Tree}

/-! ## What is still found -/

theorem Extends.refl (t : Tree) : t.Extends t := ⟨rfl, fun _ => .inr rfl⟩

theorem Extends.trans (h : t'.Extends t) (h' : t''.Extends t') : t''.Extends t := by
  refine ⟨h'.1.trans h.1, fun l => ?_⟩
  obtain hnone | halike := h.2 l
  · exact .inl hnone
  · obtain hnone' | halike' := h'.2 l
    · refine .inl ?_
      unfold Alike at halike
      rw [hnone'] at halike
      simpa using halike.symm
    · exact .inr (halike'.trans halike)

theorem Extends.alike {l : Location} {e : Entry} (h : t'.Extends t) (hl : t.get? l = some e) :
    Alike t t' l :=
  (h.2 l).resolve_left (by simp [hl])

/-- Where steps lead once a tree has grown: what was found is still found, and so is what took a
free name, if it is no link. -/
def Persists (t' : Tree) (g' : Progress) : Progress → Prop
  | .found l => g' = .found l
  | .free d n =>
      ∀ e, t'.get? (d ++ [n]) = some e → e.isLink = false → g' = .found (d ++ [n])
  | .atLink d target rest => g' = .atLink d target rest
  | .failed _ => True

theorem Extends.persists_advance (h : t'.Extends t) (d : Location) (ss : List Text) :
    Persists t' (t'.advance .reach d ss) (t.advance .reach d ss) := by
  induction ss generalizing d with
  | nil => rfl
  | cons s rest ih =>
    by_cases hf : Path.isFiller s
    · rw [advance, advance, if_pos hf, if_pos hf]
      exact ih d
    · by_cases hs : s = ['.', '.']
      · rw [advance, advance, if_neg hf, if_neg hf, if_pos hs, if_pos hs]
        exact ih (above d)
      · have hf : Path.isFiller s = false := by simpa using hf
        rw [advance_name hf hs (by simp) (by simp), advance_name hf hs (by simp) (by simp)]
        by_cases hd : t.get? d = some .dir
        · simp only [hd, h.dir hd, ne_eq, not_true_eq_false, if_false]
          by_cases hlen : maxNameLength < Text.byteLength s
          · simp only [hlen, if_true, Persists]
          · simp only [hlen, if_false]
            cases hg : t.get? (d ++ [s]) with
            | none =>
              by_cases hr : rest = []
              · subst hr
                rw [if_pos rfl]
                intro e he hlink
                cases e with
                | file | dir => simp only [he, if_true, advance]
                | link => cases hlink
              · rw [if_neg hr]
                trivial
            | some e =>
              obtain hsame | ⟨b, b', hb, hb'⟩ := (h.alike hg).cases
              · rw [hsame, hg]
                cases e with
                | dir => exact ih (d ++ [s])
                | link => exact rfl
                | file =>
                  by_cases hr : rest = []
                  · simp only [hr, if_true, Persists]
                  · simp only [hr, if_false, Persists]
              · rw [hb] at hg
                cases hg
                rw [hb']
                by_cases hr : rest = []
                · simp only [hr, if_true, Persists]
                · simp only [hr, if_false, Persists]
        · rw [if_pos hd]
          trivial

/-- What a look-up found is still found, and so is what took the name that it found free. -/
theorem Extends.follow {k : Nat} {d : Location} {ss : List Text} {g : Place} (h : t'.Extends t)
    (hfollow : t.follow .reach k d ss = .ok g)
    (hfree : ∀ d' n, g = .free d' n → ∃ e, t'.get? (d' ++ [n]) = some e ∧ e.isLink = false) :
    t'.follow .reach k d ss = .ok (.found g.location) := by
  have hadv := h.persists_advance d ss
  cases hg : t.advance .reach d ss with
  | found l =>
    rw [follow_of_found hg] at hfollow
    cases hfollow
    rw [hg] at hadv
    exact follow_of_found hadv
  | free d' n =>
    rw [follow_of_free hg] at hfollow
    cases hfollow
    rw [hg] at hadv
    obtain ⟨e, he, hlink⟩ := hfree d' n rfl
    exact follow_of_found (hadv e he hlink)
  | failed e => rw [follow_of_failed hg] at hfollow; cases hfollow
  | atLink d' target rest =>
    rw [hg] at hadv
    match k with
    | 0 => rw [Tree.follow, hg] at hfollow; cases hfollow
    | k + 1 =>
      rw [Tree.follow, hg] at hfollow
      rw [Tree.follow, show t'.advance .reach d ss = _ from hadv]
      exact h.follow hfollow hfree
termination_by k

theorem Extends.find_of_lookup {p : Path} {g : Place} (h : t'.Extends t)
    (hlookup : t.lookup .reach p = .ok g)
    (hfree : ∀ d n, g = .free d n → ∃ e, t'.get? (d ++ [n]) = some e ∧ e.isLink = false) :
    t'.find p = .ok g.location := by
  obtain ⟨hp, hfollow⟩ := (lookup_eq_ok_iff (by simp)).1 hlookup
  rw [← h.1] at hfollow
  exact find_eq_ok_iff.2 ⟨hp, h.follow hfollow hfree⟩

theorem Extends.find {p : Path} {l : Location} (h : t'.Extends t) (hl : t.find p = .ok l) :
    t'.find p = .ok l :=
  h.find_of_lookup (lookup_of_find hl) (fun _ _ hg => by cases hg)

/-! ## What is new -/

/-- A path leads to a location, or would if names were cut off at its end. -/
def OnWay (t : Tree) (p : Path) (l : Location) : Prop := ∃ q, q.IsAbove p ∧ t.find q = .ok l

theorem OnWay.mono {p : Path} {l : Location} (h : t.OnWay p l) (ht : t'.Extends t) :
    t'.OnWay p l :=
  have ⟨q, hq, hl⟩ := h
  ⟨q, hq, ht.find hl⟩

/-- A tree with further directories, all of them on the way of a path. -/
structure GrownOnWay (p : Path) (t t' : Tree) : Prop where
  here : t'.here = t.here
  frame : ∀ l, t'.get? l = t.get? l ∨ t.get? l = none ∧ t'.get? l = some .dir ∧ t'.OnWay p l

namespace GrownOnWay

variable {p : Path}

theorem refl (p : Path) (t : Tree) : GrownOnWay p t t := ⟨rfl, fun _ => .inl rfl⟩

theorem extension (h : GrownOnWay p t t') : t'.Extends t :=
  ⟨h.here, fun l => (h.frame l).symm.imp (·.1) .of_eq⟩

theorem trans (h : GrownOnWay p t t') (h' : GrownOnWay p t' t'') : GrownOnWay p t t'' := by
  refine ⟨h'.here.trans h.here, fun l => ?_⟩
  obtain hsame | ⟨hnone, hdir, hway⟩ := h.frame l
  · rw [← hsame]
    exact h'.frame l
  · obtain hsame' | ⟨hnone', -⟩ := h'.frame l
    · exact .inr ⟨hnone, hsame'.trans hdir, hway.mono h'.extension⟩
    · rw [hdir] at hnone'; cases hnone'

/-- What is no new directory is as it was. -/
theorem get?_eq {l : Location} (h : GrownOnWay p t t') (hl : t'.get? l ≠ some .dir) :
    t'.get? l = t.get? l :=
  (h.frame l).resolve_right fun hnew => hl hnew.2.1

/-- What stood there stands there. -/
theorem get?_of_some {l : Location} {e : Entry} (h : GrownOnWay p t t') (hl : t.get? l = some e) :
    t'.get? l = some e :=
  ((h.frame l).resolve_right fun hnew => by rw [hnew.1] at hl; cases hl).trans hl

end GrownOnWay

/-! ## Making directories -/

/-- A tree with an entry put where nothing stood. -/
theorem extends_of_get? {l : Location} {e : Entry} (hhere : t'.here = t.here)
    (hnone : t.get? l = none) (hget : ∀ k, t'.get? k = if k = l then some e else t.get? k) :
    t'.Extends t := by
  refine ⟨hhere, fun k => ?_⟩
  by_cases hk : k = l
  · exact .inl (hk ▸ hnone)
  · exact .inr (.of_eq (by rw [hget, if_neg hk]))

/-- A path whose last name was free leads to the directory that takes it. -/
theorem Extends.find_of_spot {p : Path} {d : Location} {n : Text} (h : t'.Extends t)
    (hspot : t.spot p = .ok (d, n)) (hdir : t'.get? (d ++ [n]) = some .dir) :
    t'.find p = .ok (d ++ [n]) := by
  obtain ⟨ss, hss, hfollow, hd, hn⟩ := exists_of_spot hspot
  have hfill : Path.isFiller n = false := by simp [Path.isFiller, hn.1, hn.2.1]
  have hopen : t'.IsOpen (origin t'.here p) := t'.isOpen_here.origin p
  have hbefore := h.follow hfollow (by simp)
  rw [← h.1] at hbefore
  have hslash : t'.follow .reach maxLinks (origin t'.here p) ((ss ++ [n]) ++ [[]]) =
      .ok (.found (d ++ [n])) := by
    rw [List.append_assoc]
    obtain ⟨e, he, -⟩ | ⟨m, k, hm, -, hgo⟩ :=
      follow_append .reach maxLinks ss hopen (by simp) (List.cons_ne_nil n [[]]) (by simp)
    · rw [hbefore] at he; cases he
    · obtain rfl : d = m := by simpa [hbefore, Place.location] using hm
      refine hgo.trans (follow_of_found ?_)
      rw [advance_name hfill hn.2.2.1 (by simp) (by simp), if_neg (by simp [h.dir hd]),
        if_neg (Nat.not_lt.2 hn.2.2.2.2.2), hdir]
      rfl
  refine find_eq_ok_iff.2 ⟨isLookable_of_spot hspot, ?_⟩
  obtain hs | hs := Path.steps_eq_or p
  · rw [hs, hss]
    exact follow_of_slash hopen hslash
  · rw [hs, hss]
    exact hslash

/-- A directory that was made is where its path leads. -/
theorem find_of_makeDir {p : Path} (h : t.makeDir p = .ok t') :
    ∃ l, t'.find p = .ok l ∧ t.get? l = none ∧ t'.here = t.here ∧
      ∀ k, t'.get? k = if k = l then some .dir else t.get? k := by
  rw [makeDir, make] at h
  cases hspot : t.spot p with
  | error e => rw [hspot] at h; cases h
  | ok x =>
    obtain ⟨d, n⟩ := x
    rw [hspot] at h
    simp only at h
    split at h
    · next hnone =>
      cases h
      obtain ⟨_, -, -, hd, hn⟩ := exists_of_spot hspot
      have hget := get?_put (t := t) (e := .dir) ⟨hd, hn, trivial, fun _ => rfl⟩
      have hgrown := extends_of_get? (here_put ..) hnone hget
      have hnew := hget (d ++ [n])
      rw [if_pos rfl] at hnew
      exact ⟨d ++ [n], hgrown.find_of_spot hspot hnew, hnone, here_put .., hget⟩
    · cases h

theorem grown_of_makeDir {p q : Path} (hq : q.IsAbove p) (h : t.makeDir q = .ok t') :
    GrownOnWay p t t' := by
  obtain ⟨l, hl, hnone, hhere, hget⟩ := find_of_makeDir h
  refine ⟨hhere, fun k => ?_⟩
  by_cases hk : k = l
  · subst hk
    exact .inr ⟨hnone, by rw [hget, if_pos rfl], q, hq, hl⟩
  · exact .inl (by rw [hget, if_neg hk])

theorem grown_makeFirst {p : Path} {qs : List Path} (hqs : ∀ q ∈ qs, q.IsAbove p) :
    GrownOnWay p t (t.makeFirst qs).1 := by
  induction qs generalizing t with
  | nil => exact .refl p t
  | cons q qs ih =>
    have hq := hqs q (List.mem_cons_self ..)
    have ih := ih (t := t) fun q' hq' => hqs q' (List.mem_cons_of_mem _ hq')
    rw [makeFirst]
    split
    · exact .refl p t
    · split
      · next t' ht' => exact grown_of_makeDir hq ht'
      · split
        · next heq => rw [heq] at ih; exact ih
        · next t' heq =>
          rw [heq] at ih
          split
          · next t'' ht'' => exact ih.trans (grown_of_makeDir hq ht'')
          · split <;> exact ih
      · split <;> exact .refl p t

theorem grown_makeParents (t : Tree) (p : Path) : GrownOnWay p t (t.makeParents p).1 := by
  rw [makeParents]
  cases hq : Path.parent? p with
  | none => exact .refl p t
  | some q =>
    have hgrown : GrownOnWay p t (t.makeFirst (Path.ancestors q)).1 :=
      grown_makeFirst fun a ha => Path.isAbove_of_parent? hq ha
    simp only [makeDirs]
    generalize t.makeFirst (Path.ancestors q) = x at hgrown
    obtain ⟨t', r⟩ := x
    cases r <;> exact hgrown

/-! ## Storing texts -/

/-- A look-up for writing that does not fail ends where one for reading does. -/
theorem advance_reach_of_create {d : Location} {ss : List Text} {g : Progress}
    (h : t.advance .create d ss = g) (hg : ∀ e, g ≠ .failed e) : t.advance .reach d ss = g := by
  induction ss generalizing d with
  | nil => exact h
  | cons s rest ih =>
    rw [advance] at h ⊢
    by_cases hf : Path.isFiller s
    · rw [if_pos hf] at h ⊢
      exact ih h
    · rw [if_neg hf] at h ⊢
      by_cases hs : s = ['.', '.']
      · rw [if_pos hs] at h ⊢
        exact ih h
      · rw [if_neg hs] at h ⊢
        by_cases hslash : rest = [[]]
        · rw [if_pos ⟨rfl, hslash⟩] at h
          exact absurd h.symm (hg _)
        · simp only [hslash, and_false, if_false, reduceCtorEq, false_and] at h ⊢
          split
          · next hd => rwa [if_pos hd] at h
          · next hd =>
            rw [if_neg hd] at h
            split
            · next hlen => rwa [if_pos hlen] at h
            · next hlen =>
              rw [if_neg hlen] at h
              cases he : t.get? (d ++ [s]) with
              | none => rwa [he] at h
              | some e =>
                rw [he] at h
                cases e with
                | dir => exact ih h
                | file | link => exact h

theorem follow_reach_of_create {k : Nat} {d : Location} {ss : List Text} {g : Place}
    (h : t.follow .create k d ss = .ok g) : t.follow .reach k d ss = .ok g := by
  cases hg : t.advance .create d ss with
  | found l =>
    rw [follow_of_found hg] at h
    rw [follow_of_found (advance_reach_of_create hg (by simp)), h]
  | free d' n =>
    rw [follow_of_free hg] at h
    rw [follow_of_free (advance_reach_of_create hg (by simp)), h]
  | failed e => rw [follow_of_failed hg] at h; cases h
  | atLink d' target rest =>
    have hreach := advance_reach_of_create hg (by simp)
    match k with
    | 0 => rw [follow, hg] at h; cases h
    | k + 1 =>
      rw [follow, hg] at h
      rw [follow, hreach]
      exact follow_reach_of_create h
termination_by k

/-- A text stored under a path: one file is filled, to which the path then leads, and directories on
its way are new. -/
structure StoredUnder (p : Path) (text : Text) (l : Location) (t t' : Tree) : Prop where
  here : t'.here = t.here
  found : t'.find p = .ok l
  old : t.get? l = none ∨ ∃ b, t.get? l = some (.file b)
  new : t'.get? l = some (.file text.encode)
  frame : ∀ k, k ≠ l →
    t'.get? k = t.get? k ∨ t.get? k = none ∧ t'.get? k = some .dir ∧ t'.OnWay p k

theorem stored_of_write {p : Path} {text : Text} (h : t.write p text.encode = .ok t') :
    ∃ g, t.lookup .reach p = .ok g ∧ StoredUnder p text g.location t t' := by
  obtain ⟨l, hcase, hhere, hget⟩ := write_cases h
  have hnew : t'.get? l = some (.file text.encode) := by rw [hget, if_pos rfl]
  have hframe : ∀ k, k ≠ l → t'.get? k = t.get? k := fun k hk => by rw [hget, if_neg hk]
  -- the file was there, or its name was free
  obtain ⟨g, hlookup, rfl, hold⟩ : ∃ g : Place, t.lookup .create p = .ok g ∧ g.location = l ∧
      (t.get? l = none ∨ ∃ b, t.get? l = some (.file b)) := by
    obtain ⟨hl, hb⟩ | ⟨d, n, rfl, hl, hnone⟩ := hcase
    · exact ⟨.found l, hl, rfl, .inr hb⟩
    · exact ⟨.free d n, hl, rfl, .inl hnone⟩
  have hgrown : t'.Extends t := by
    refine ⟨hhere, fun k => ?_⟩
    by_cases hk : k = g.location
    · subst hk
      exact hold.imp_right fun ⟨b, hb⟩ => .of_files hb hnew
    · exact .inr (.of_eq (hframe k hk))
  have hreach : t.lookup .reach p = .ok g := by
    rw [lookup_eq_ok_iff (by simp)] at hlookup ⊢
    exact hlookup.imp_right follow_reach_of_create
  refine ⟨g, hreach, hhere, hgrown.find_of_lookup hreach ?_, hold, hnew,
    fun k hk => .inl (hframe k hk)⟩
  rintro d n rfl
  exact ⟨_, hnew, rfl⟩

theorem StoredUnder.extension {p : Path} {text : Text} {l : Location}
    (h : StoredUnder p text l t t') : t'.Extends t := by
  refine ⟨h.here, fun k => ?_⟩
  by_cases hk : k = l
  · subst hk
    exact h.old.imp_right fun ⟨b, hb⟩ => .of_files hb h.new
  · exact (h.frame k hk).symm.imp (·.1) .of_eq

/-- What stood elsewhere stands there. -/
theorem StoredUnder.get?_of_ne {p : Path} {text : Text} {k l : Location} {e : Entry}
    (h : StoredUnder p text l t t') (hk : k ≠ l) (he : t.get? k = some e) : t'.get? k = some e :=
  ((h.frame k hk).resolve_right fun hnew => by rw [hnew.1] at he; cases he).trans he

theorem stored_of_storeText {p : Path} {text : Text} (h : t.storeText p text = (t', .ok ())) :
    ∃ l, StoredUnder p text l t t' := by
  have hgrown := t.grown_makeParents p
  rw [storeText] at h
  cases hm : t.makeParents p with
  | mk t₁ r =>
    rw [hm] at h hgrown
    cases r with
    | error x => cases h
    | ok u =>
      simp only at h hgrown
      cases hw : t₁.write p text.encode with
      | error e => rw [hw] at h; cases h
      | ok t₂ =>
        rw [hw] at h
        cases h
        obtain ⟨g, -, hst⟩ := stored_of_write hw
        generalize g.location = l at hst
        have hkept : t₁.get? l = t.get? l :=
          hgrown.get?_eq (by obtain hnone | ⟨b, hb⟩ := hst.old <;> simp [*])
        refine ⟨l, hst.here.trans hgrown.here, hst.found, hkept ▸ hst.old, hst.new, fun k hk => ?_⟩
        obtain hsame | ⟨hnone, hdir, hway⟩ := hgrown.frame k
        · rw [← hsame]
          exact hst.frame k hk
        · obtain hsame' | ⟨hnone', -⟩ := hst.frame k hk
          · exact .inr ⟨hnone, hsame'.trans hdir, hway.mono hst.extension⟩
          · rw [hdir] at hnone'; cases hnone'

/-- A text that cannot be stored leaves new directories at most. -/
theorem grown_of_storeText_error {p : Path} {text : Text} {e : FileFault}
    (h : t.storeText p text = (t', .error e)) :
    GrownOnWay p t t' ∧ ∃ q cause, e = .writing q cause := by
  have hgrown := t.grown_makeParents p
  rw [storeText] at h
  cases hm : t.makeParents p with
  | mk t₁ r =>
    rw [hm] at h hgrown
    cases r with
    | error x =>
      cases h
      exact ⟨hgrown, _, _, rfl⟩
    | ok u =>
      simp only at h hgrown
      cases hw : t₁.write p text.encode with
      | error e =>
        rw [hw] at h
        cases h
        exact ⟨hgrown, _, _, rfl⟩
      | ok t₂ => rw [hw] at h; cases h

end Tree

end PageSplice
