import PageSplice.Files

/-!
# The shape of a tree

Where a path leads does not depend on what the files hold.  Two trees are alike at a location if the
same stands there, or a file in each; they have one shape if they are alike everywhere.  Main
statements: a look-up ends in the same way in two trees that are alike where it passes
(`advance_congr`), and targets stand for the same files in two trees of one shape
(`SameShape.filesOf`).
-/

namespace PageSplice

theorem Text.encode_inj {s t : Text} : s.encode = t.encode ↔ s = t :=
  ⟨Text.encode_injective, congrArg _⟩

/-- An entry without the content of a file. -/
def Entry.blank : Entry → Entry
  | .file _ => .file ByteArray.empty
  | .dir => .dir
  | .link target => .link target

namespace Tree

/-- At a location of two trees stands the same, or a file in each. -/
def Alike (t t' : Tree) (l : Location) : Prop :=
  (t'.get? l).map Entry.blank = (t.get? l).map Entry.blank

structure SameShape (t t' : Tree) : Prop where
  here : t'.here = t.here
  alike : ∀ l, Alike t t' l

theorem Alike.of_eq {t t' : Tree} {l : Location} (h : t'.get? l = t.get? l) : Alike t t' l :=
  congrArg _ h

theorem Alike.of_files {t t' : Tree} {l : Location} {b b' : ByteArray}
    (h : t.get? l = some (.file b)) (h' : t'.get? l = some (.file b')) : Alike t t' l := by
  rw [Alike, h, h']; rfl

theorem Alike.cases {t t' : Tree} {l : Location} (h : Alike t t' l) :
    t'.get? l = t.get? l ∨ ∃ b b', t.get? l = some (.file b) ∧ t'.get? l = some (.file b') := by
  unfold Alike at h
  match ht : t.get? l, ht' : t'.get? l with
  | some (.file b), some (.file b') => exact .inr ⟨b, b', rfl, rfl⟩
  | none, none | some .dir, some .dir => exact .inl rfl
  | some (.link p), some (.link p') =>
    rw [ht, ht'] at h
    exact .inl (by simpa [Entry.blank] using h)
  | none, some _ | some _, none => rw [ht, ht'] at h; cases h
  | some .dir, some (.file _) | some .dir, some (.link _) | some (.link _), some .dir
  | some (.link _), some (.file _) | some (.file _), some .dir | some (.file _), some (.link _) =>
    rw [ht, ht'] at h; simp [Entry.blank] at h

theorem Alike.dir_iff {t t' : Tree} {l : Location} (h : Alike t t' l) :
    t'.get? l = some .dir ↔ t.get? l = some .dir := by
  obtain h | ⟨b, b', hb, hb'⟩ := h.cases
  · rw [h]
  · rw [hb, hb']; simp

theorem SameShape.refl (t : Tree) : SameShape t t := ⟨rfl, fun _ => rfl⟩

theorem SameShape.trans {t t' t'' : Tree} (h : SameShape t t') (h' : SameShape t' t'') :
    SameShape t t'' :=
  ⟨h'.here.trans h.here, fun l => (h'.alike l).trans (h.alike l)⟩

/-! ## Look-ups -/

/-- Steps lead to the same place in two trees that are alike at the locations they pass; `Q` holds
of where they pass. -/
theorem advance_congr {t t' : Tree} {why : Purpose} {Q : Location → List Text → Prop}
    (hQ : ∀ {d s rest}, Q d (s :: rest) → Alike t t' d ∧
      (Path.isFiller s → Q d rest) ∧ (s = ['.', '.'] → Q (above d) rest) ∧
      (¬ Path.isFiller s → s ≠ ['.', '.'] → Alike t t' (d ++ [s]) ∧ Q (d ++ [s]) rest))
    {d : Location} {ss : List Text} (h : Q d ss) : t'.advance why d ss = t.advance why d ss := by
  induction ss generalizing d with
  | nil => rfl
  | cons s rest ih =>
    obtain ⟨hd, hfill, hup, hname⟩ := hQ h
    rw [advance, advance]
    by_cases hf : Path.isFiller s
    · rw [if_pos hf, if_pos hf, ih (hfill hf)]
    · by_cases hs : s = ['.', '.']
      · rw [if_neg hf, if_neg hf, if_pos hs, if_pos hs, ih (hup hs)]
      · obtain ⟨hl, hrest⟩ := hname hf hs
        simp only [if_neg hf, if_neg hs, ne_eq, hd.dir_iff]
        obtain hl | ⟨b, b', hb, hb'⟩ := hl.cases
        · rw [hl, ih hrest]
        · rw [hb, hb']

namespace SameShape

variable {t t' : Tree} (h : SameShape t t')
include h

theorem advance (why : Purpose) (d : Location) (ss : List Text) :
    t'.advance why d ss = t.advance why d ss :=
  advance_congr (Q := fun _ _ => True)
    (fun _ => ⟨h.alike _, fun _ => trivial, fun _ => trivial, fun _ _ => ⟨h.alike _, trivial⟩⟩)
    trivial

theorem follow (why : Purpose) (k : Nat) (d : Location) (ss : List Text) :
    t'.follow why k d ss = t.follow why k d ss := by
  induction k generalizing d ss with
  | zero => rw [Tree.follow, Tree.follow, h.advance]
  | succ k ih => simp only [Tree.follow, h.advance, ih]

theorem lookup (why : Purpose) (p : Path) : t'.lookup why p = t.lookup why p := by
  simp only [Tree.lookup, h.here, h.follow]

theorem find (p : Path) : t'.find p = t.find p := by
  simp only [Tree.find, h.lookup]

theorem directory? (p : Path) : t'.directory? p = t.directory? p := by
  unfold Tree.directory?
  rw [h.find]
  cases t.find p with
  | error _ => rfl
  | ok l =>
    obtain hl | ⟨b, b', hb, hb'⟩ := (h.alike l).cases
    · simp only [hl]
    · simp only [hb, hb']

theorem realOrSame (p : Path) : t'.realOrSame p = t.realOrSame p := by
  have hhere : t'.hereStands = t.hereStands := by
    rw [hereStands, hereStands, h.here, decide_eq_decide]
    exact (h.alike _).dir_iff
  simp only [Tree.realOrSame, Tree.realPath, hhere, h.lookup]

/-! ## Walks -/

theorem entries : t'.entries.map (fun x => (x.1, x.2.blank)) =
    t.entries.map (fun x => (x.1, x.2.blank)) := by
  have hmem : ∀ (u : Tree) (l : Location) (e : Entry),
      (l, e) ∈ u.entries.map (fun x => (x.1, x.2.blank)) ↔
        l ≠ [] ∧ (u.get? l).map Entry.blank = some e := by
    intro u l e
    simp only [List.mem_map, Prod.exists, Prod.mk.injEq, mem_entries_iff, Option.map_eq_some_iff]
    constructor
    · rintro ⟨l, x, ⟨hl, hx⟩, rfl, rfl⟩; exact ⟨hl, x, hx, rfl⟩
    · rintro ⟨hl, x, hx, rfl⟩; exact ⟨l, x, ⟨hl, hx⟩, rfl, rfl⟩
  have hsorted : ∀ u : Tree,
      (u.entries.map (fun x => (x.1, x.2.blank))).Pairwise fun a b => a.1 < b.1 :=
    fun u => by rw [List.pairwise_map]; exact u.sorted
  have hnodup : ∀ u : Tree, (u.entries.map (fun x => (x.1, x.2.blank))).Nodup :=
    fun u => (hsorted u).imp fun {a b} hlt (heq : a = b) => List.lt_irrefl _ (heq ▸ hlt)
  refine List.Perm.eq_of_pairwise (fun a b _ _ hab hba => ?_) (hsorted t') (hsorted t)
    ((List.perm_ext_iff_of_nodup (hnodup t') (hnodup t)).2 fun x => ?_)
  · exact absurd (List.lt_trans hab hba) (List.lt_irrefl _)
  · rw [hmem, hmem, show (t'.get? x.1).map Entry.blank = _ from h.alike x.1]

theorem below (d : Location) : (t'.below d).map (fun x => (x.1, x.2.blank)) =
    (t.below d).map (fun x => (x.1, x.2.blank)) := by
  have hbelow : ∀ u : Tree, (u.below d).map (fun x => (x.1, x.2.blank)) =
      ((u.entries.map fun x => (x.1, x.2.blank)).filter fun x => d <+: x.1 ∧ x.1 ≠ d).map
        fun x => (x.1.drop d.length, x.2) := by
    intro u
    rw [Tree.below, List.filter_map, List.map_map, List.map_map]
    rfl
  rw [hbelow, hbelow, h.entries]

end SameShape

theorem htmlAmong_congr (host : Host) (p : Path) : ∀ {xs ys : List (Location × Entry)},
    xs.map (fun x => (x.1, x.2.blank)) = ys.map (fun x => (x.1, x.2.blank)) →
      host.htmlAmong p xs = host.htmlAmong p ys
  | [], [], _ => rfl
  | [], _ :: _, h | _ :: _, [], h => by simp at h
  | (ns, e) :: xs, (ns', e') :: ys, h => by
    simp only [List.map_cons, List.cons.injEq, Prod.mk.injEq] at h
    obtain ⟨⟨rfl, he⟩, h⟩ := h
    have ih := htmlAmong_congr host p h
    cases e <;> cases e' <;> simp [Entry.blank] at he <;> simp only [Host.htmlAmong, ih]

namespace SameShape

variable {t t' : Tree} (h : SameShape t t')
include h

theorem filesOf (host : Host) (targets exclude : List Path) :
    host.filesOf t' targets exclude = host.filesOf t targets exclude := by
  have htarget : host.filesOfTarget t' exclude = host.filesOfTarget t exclude := by
    funext target
    have hdir : host.directory? t' = host.directory? t := by
      funext p
      simp only [Host.directory?, h.directory?]
    have hsame : host.sameFile t' = host.sameFile t := by
      funext p q
      simp only [Host.sameFile, Host.realOrSame, h.realOrSame]
    have hfiles : ∀ d, host.htmlFiles t' target d = host.htmlFiles t target d :=
      fun d => htmlAmong_congr host target (by simp only [List.map_cons, h.below])
    simp only [Host.filesOfTarget, hdir, hfiles, hsame]
  rw [Host.filesOf, Host.filesOf, htarget]

end SameShape

/-! ## Reading -/

theorem read_eq_ok_iff {t : Tree} {p : Path} {b : ByteArray} :
    t.read p = .ok b ↔ ∃ l, t.find p = .ok l ∧ t.get? l = some (.file b) := by
  unfold read
  cases t.find p with
  | error e => simp
  | ok l =>
    match hl : t.get? l with
    | some (.file c) => simp [hl]
    | some .dir | some (.link _) | none => simp [hl]

theorem textAt_eq_ok_iff {t : Tree} {p : Path} {text : Text} :
    t.textAt p = .ok text ↔ t.read p = .ok text.encode := by
  unfold textAt
  cases t.read p with
  | error e => simp
  | ok b =>
    cases h : Text.decode? b with
    | some text' =>
      have hb := Text.encode_of_decode? h
      subst hb
      simp only [h, Except.ok.injEq, Text.encode_inj]
    | none =>
      simp only [h, reduceCtorEq, Except.ok.injEq, false_iff]
      rintro rfl
      rw [Text.decode?_encode] at h
      cases h

/-- Two paths that lead to one location. -/
def Coincide (t : Tree) (p q : Path) : Prop := ∃ l, t.find p = .ok l ∧ t.find q = .ok l

instance (t : Tree) (p q : Path) : Decidable (t.Coincide p q) :=
  match hp : t.find p, hq : t.find q with
  | .ok l, .ok k =>
    decidable_of_iff (l = k) ⟨fun h => ⟨l, hp, h ▸ hq⟩, fun ⟨m, hm, hm'⟩ => by
      rw [hp] at hm; rw [hq] at hm'; cases hm; cases hm'; rfl⟩
  | .error _, _ => isFalse fun ⟨_, h, _⟩ => by rw [hp] at h; cases h
  | _, .error _ => isFalse fun ⟨_, _, h⟩ => by rw [hq] at h; cases h

theorem textAt_congr {t t' : Tree} {p : Path} (h : t'.read p = t.read p) :
    t'.textAt p = t.textAt p := by
  rw [textAt, textAt, h]

/-- A file reads the same as long as the entry there stays. -/
theorem SameShape.read_congr {t t' : Tree} (h : SameShape t t') {p : Path}
    (hl : ∀ l, t.find p = .ok l → t'.get? l = t.get? l) : t'.read p = t.read p := by
  rw [read, read, h.find]
  cases hf : t.find p with
  | error _ => rfl
  | ok l => simp only [hl l hf]

end Tree

end PageSplice
