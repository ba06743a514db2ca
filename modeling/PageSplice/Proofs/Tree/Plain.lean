import PageSplice.Proofs.Tree.Shape
import PageSplice.Proofs.Tree.Steps

/-!
# Plain paths

A plain path has no step up and passes no link, so it leads where its names say
(`lookup_plain`).  Reading it gives what the file there holds (`read_plain`).  Storing a text at it
changes the file there and makes missing directories on the way, and nothing else
(`storeText_plain`).
-/

namespace PageSplice

namespace Path

/-- Whether a path ends in a name, and not in a slash or a dot. -/
def EndsInName (p : Path) : Prop := ∃ n, (steps p).getLast? = some n ∧ isFiller n = false

end Path

theorem IsFileName.not_isFiller {n : Text} (h : IsFileName n) : Path.isFiller n = false := by
  simp [Path.isFiller, h.1, h.2.1]

def Entry.isLink : Entry → Bool
  | .link _ => true
  | _ => false

/-- Where a file stands or would stand. -/
def Place.location : Place → Location
  | .found l => l
  | .free d n => d ++ [n]

def Place.progress : Place → Progress
  | .found l => .found l
  | .free d n => .free d n

namespace Tree

variable {t t' : Tree}

/-- The location that a path names, if no links and no steps up are on the way. -/
def locate (t : Tree) (p : Path) : Location := origin t.here p ++ Path.names p

/-- No link stands at a location or above it. -/
def NoLinkTo (t : Tree) (l : Location) : Prop :=
  ∀ k, k <+: l → ∀ target, t.get? k ≠ some (.link target)

instance (l : Location) : Decidable (t.NoLinkTo l) :=
  decidable_of_iff
    ((List.range (l.length + 1)).all fun i => !(t.get? (l.take i)).any Entry.isLink) <| by
    simp only [List.all_eq_true, List.mem_range]
    constructor
    · intro h k hk target hlink
      have hlen := hk.length_le
      rw [List.prefix_iff_eq_take.1 hk] at hlink
      have hany := h k.length (by omega)
      rw [hlink] at hany
      cases hany
    · intro h i _
      cases he : t.get? (l.take i) with
      | none => rfl
      | some e =>
        cases e with
        | file | dir => rfl
        | link target => exact absurd he (h _ (List.take_prefix ..) target)

/-- A path without steps up on whose way no link stands, nor at its end. -/
structure Plain (t : Tree) (p : Path) : Prop where
  no_up : ['.', '.'] ∉ Path.names p
  no_link : t.NoLinkTo (t.locate p)

instance (p : Path) : Decidable (t.Plain p) :=
  decidable_of_iff ((∀ n ∈ Path.names p, n ≠ ['.', '.']) ∧ t.NoLinkTo (t.locate p))
    ⟨fun h => ⟨fun hup => h.1 _ hup rfl, h.2⟩, fun h => ⟨fun _ hn heq => h.1 (heq ▸ hn), h.2⟩⟩

/-! ## Look-ups -/

/-- Steps end where their names lead, if they do not fail. -/
def Lands (l : Location) : Progress → Prop
  | .found k => k = l
  | .free d n => d ++ [n] = l
  | .atLink .. => False
  | .failed _ => True

theorem lands_advance (why : Purpose) {d : Location} {ss : List Text} (hwhy : why ≠ .canonicalize)
    (hup : ['.', '.'] ∉ ss) (hlink : t.NoLinkTo (d ++ ss.filter (!Path.isFiller ·))) :
    Lands (d ++ ss.filter (!Path.isFiller ·)) (t.advance why d ss) := by
  induction ss generalizing d with
  | nil => simp [advance, Lands]
  | cons s rest ih =>
    have hs : s ≠ ['.', '.'] := fun h => hup (h ▸ List.mem_cons_self ..)
    have hrest : ['.', '.'] ∉ rest := fun h => hup (List.mem_cons_of_mem _ h)
    by_cases hf : Path.isFiller s
    · rw [List.filter_cons_of_neg (by simp [hf])] at hlink ⊢
      rw [advance, if_pos hf]
      exact ih hrest hlink
    · by_cases hslash : why = .create ∧ rest = [[]]
      · rw [advance, if_neg hf, if_neg hs, if_pos hslash]
        trivial
      · have hf : Path.isFiller s = false := by simpa using hf
        rw [List.filter_cons_of_pos (by simp [hf]), ← List.singleton_append, ← List.append_assoc]
          at hlink ⊢
        rw [advance_name hf hs hwhy fun hw hr => hslash ⟨hw, hr⟩]
        split
        · trivial
        · split
          · trivial
          · split
            · next hnone =>
              split
              · next hr => subst hr; simp [Lands]
              · trivial
            · split
              · next hr => subst hr; simp [Lands]
              · trivial
            · exact ih hrest hlink
            · next target hl => exact absurd hl (hlink _ (List.prefix_append ..) target)

/-- A look-up of a plain path ends where its names say, or fails. -/
theorem follow_plain {why : Purpose} {k : Nat} {d : Location} {ss : List Text} {g : Place}
    (hwhy : why ≠ .canonicalize) (hup : ['.', '.'] ∉ ss)
    (hlink : t.NoLinkTo (d ++ ss.filter (!Path.isFiller ·))) (h : t.follow why k d ss = .ok g) :
    t.advance why d ss = g.progress ∧ g.location = d ++ ss.filter (!Path.isFiller ·) := by
  have hlands := lands_advance why hwhy hup hlink
  cases hg : t.advance why d ss with
  | found l =>
    rw [follow_of_found hg] at h
    rw [hg] at hlands
    cases h
    exact ⟨rfl, hlands⟩
  | free d' n =>
    rw [follow_of_free hg] at h
    rw [hg] at hlands
    cases h
    exact ⟨rfl, hlands⟩
  | failed e => rw [follow_of_failed hg] at h; cases h
  | atLink _ _ _ => rw [hg] at hlands; exact hlands.elim

theorem Plain.steps_no_up {p : Path} (hp : t.Plain p) : ['.', '.'] ∉ Path.steps p := by
  intro h
  refine hp.no_up ?_
  rw [← Path.filter_steps_eq_names]
  exact List.mem_filter.2 ⟨h, by decide⟩

theorem lookup_plain {why : Purpose} {p : Path} {g : Place} (hp : t.Plain p)
    (hwhy : why ≠ .canonicalize) (h : t.lookup why p = .ok g) :
    t.advance why (origin t.here p) (Path.steps p) = g.progress ∧ g.location = t.locate p := by
  have hlink := hp.no_link
  rw [locate, ← Path.filter_steps_eq_names] at hlink ⊢
  exact follow_plain hwhy hp.steps_no_up hlink ((lookup_eq_ok_iff hwhy).1 h).2

/-- Steps end in a name if they lead to a file or to something that is missing. -/
def NeedsName (t : Tree) (ss : List Text) : Progress → Prop
  | .free .. => ∃ n, ss.getLast? = some n ∧ Path.isFiller n = false
  | .found l =>
      (∃ b, t.get? l = some (.file b)) → ∃ n, ss.getLast? = some n ∧ Path.isFiller n = false
  | _ => True

theorem NeedsName.cons {s : Text} {ss : List Text} {g : Progress} (h : t.NeedsName ss g) :
    t.NeedsName (s :: ss) g := by
  have hcons : (∃ n, ss.getLast? = some n ∧ Path.isFiller n = false) →
      ∃ n, (s :: ss).getLast? = some n ∧ Path.isFiller n = false := by
    rintro ⟨n, hlast, hn⟩
    exact ⟨n, by rw [List.getLast?_cons, hlast]; rfl, hn⟩
  cases g with
  | free d n => exact hcons h
  | found l => exact fun hl => hcons (h hl)
  | atLink | failed => trivial

theorem needsName_advance (why : Purpose) {d : Location} {ss : List Text} (hd : t.IsOpen d) :
    t.NeedsName ss (t.advance why d ss) := by
  induction ss generalizing d with
  | nil =>
    rintro ⟨b, hb⟩
    obtain hg | hg := get?_of_isOpen hd <;> rw [hg] at hb <;> cases hb
  | cons s rest ih =>
    by_cases hf : Path.isFiller s
    · rw [advance, if_pos hf]
      exact (ih hd).cons
    · by_cases hs : s = ['.', '.']
      · rw [advance, if_neg hf, if_pos hs]
        exact (ih hd.above).cons
      · have hname : rest = [] →
            ∃ n, (s :: rest).getLast? = some n ∧ Path.isFiller n = false := by
          rintro rfl
          exact ⟨s, rfl, by simpa using hf⟩
        rw [advance, if_neg hf, if_neg hs]
        split
        · trivial
        · split
          · trivial
          · split
            · trivial
            · split
              · trivial
              · split
                · split
                  · next hr => exact hname hr
                  · trivial
                · split
                  · next hr => exact fun _ => hname hr
                  · trivial
                · next hdir =>
                  split
                  · trivial
                  · exact (ih (isOpen_of_get? hdir)).cons
                · trivial

theorem endsInName_of_lookup {why : Purpose} {p : Path} {g : Place} (hp : t.Plain p)
    (hwhy : why ≠ .canonicalize) (h : t.lookup why p = .ok g)
    (hg : (∃ d n, g = .free d n) ∨ ∃ l b, g = .found l ∧ t.get? l = some (.file b)) :
    Path.EndsInName p := by
  have hneeds : t.NeedsName (Path.steps p) (t.advance why (origin t.here p) (Path.steps p)) :=
    needsName_advance why (t.isOpen_here.origin p)
  rw [(lookup_plain hp hwhy h).1] at hneeds
  obtain ⟨d, n, rfl⟩ | ⟨l, b, rfl, hb⟩ := hg
  · exact hneeds
  · exact hneeds ⟨b, hb⟩

/-! ## Reading -/

/-- Above an entry stand directories. -/
theorem get?_above {a l : Location} {e : Entry} (h : t.get? l = some e) (ha : a <+: l)
    (hne : a ≠ l) : t.get? a = some .dir := by
  have hl : l ≠ [] := by
    rintro rfl
    exact hne (List.prefix_nil.1 ha)
  obtain ⟨d, n, rfl, -, hd⟩ := exists_of_get? hl h
  exact get?_ancestor ((List.prefix_concat_iff.1 ha).resolve_left hne) hd

theorem isFileName_of_get? {d : Location} {n : Text} {e : Entry} (h : t.get? (d ++ [n]) = some e) :
    IsFileName n := by
  obtain ⟨d', n', heq, hn, -⟩ := exists_of_get? (by simp) h
  obtain ⟨-, hnn⟩ := List.append_inj' heq rfl
  exact (List.cons.inj hnn).1 ▸ hn

theorem isFileName_of_mem {l : Location} {e : Entry} (h : t.get? l = some e) {n : Text}
    (hn : n ∈ l) : IsFileName n := by
  obtain ⟨a, b, rfl⟩ := List.append_of_mem hn
  rw [List.append_cons] at h
  by_cases hb : b = []
  · subst hb
    exact isFileName_of_get? (by simpa using h)
  · exact isFileName_of_get? (get?_above h (List.prefix_append ..) (by simpa using hb))

/-- Names lead to the file that stands where they say. -/
theorem advance_of_file {d : Location} {ss : List Text} {b : ByteArray}
    (hup : ['.', '.'] ∉ ss) (hlast : ∃ n, ss.getLast? = some n ∧ Path.isFiller n = false)
    (h : t.get? (d ++ ss.filter (!Path.isFiller ·)) = some (.file b)) :
    t.advance .reach d ss = .found (d ++ ss.filter (!Path.isFiller ·)) := by
  induction ss generalizing d with
  | nil =>
    obtain ⟨n, h, -⟩ := hlast
    cases h
  | cons s rest ih =>
    have hs : s ≠ ['.', '.'] := fun h => hup (h ▸ List.mem_cons_self ..)
    have hrest : ['.', '.'] ∉ rest := fun h => hup (List.mem_cons_of_mem _ h)
    have hlast' : rest ≠ [] → ∃ n, rest.getLast? = some n ∧ Path.isFiller n = false := by
      intro hne
      obtain ⟨s', rest', rfl⟩ := List.exists_cons_of_ne_nil hne
      rwa [List.getLast?_cons_cons] at hlast
    by_cases hf : Path.isFiller s
    · rw [List.filter_cons_of_neg (by simp [hf])] at h ⊢
      rw [advance, if_pos hf]
      refine ih hrest (hlast' ?_) h
      rintro rfl
      obtain ⟨n, hn, hfill⟩ := hlast
      cases hn
      exact absurd hf (by simpa using hfill)
    · have hf : Path.isFiller s = false := by simpa using hf
      have hsplit : d ++ (s :: rest).filter (!Path.isFiller ·) =
          d ++ [s] ++ rest.filter (!Path.isFiller ·) := by
        rw [List.filter_cons_of_pos (by simp [hf]), List.append_assoc, List.singleton_append]
      rw [hsplit] at h ⊢
      have hd : t.get? d = some .dir :=
        get?_above h (by rw [List.append_assoc]; exact List.prefix_append ..) (by simp)
      by_cases hr : rest = []
      · subst hr
        rw [List.filter_nil, List.append_nil] at h ⊢
        have hlen := (isFileName_of_get? h).2.2.2.2.2
        rw [advance_name hf hs (by simp) (by simp), if_neg (by simp [hd]),
          if_neg (Nat.not_lt.2 hlen), h]
        rfl
      · obtain ⟨n, hn, hfill⟩ := hlast' hr
        have hne : rest.filter (!Path.isFiller ·) ≠ [] :=
          List.ne_nil_of_mem (List.mem_filter.2 ⟨List.mem_of_getLast? hn, by simp [hfill]⟩)
        have hdir := get?_above h (List.prefix_append ..) (by simpa using hne)
        rw [advance_name hf hs (by simp) (by simp), if_neg (by simp [hd]),
          if_neg (Nat.not_lt.2 (isFileName_of_get? hdir).2.2.2.2.2), hdir]
        exact ih hrest ⟨n, hn, hfill⟩ h

theorem find_of_file {p : Path} {b : ByteArray} (hp : t.Plain p) (hlook : IsLookable p)
    (hends : Path.EndsInName p) (h : t.get? (t.locate p) = some (.file b)) :
    t.find p = .ok (t.locate p) := by
  rw [locate, ← Path.filter_steps_eq_names] at h ⊢
  exact find_eq_ok_iff.2 ⟨hlook, follow_of_found (advance_of_file hp.steps_no_up hends h)⟩

/-- What a plain path reads is what the file holds where its names say. -/
theorem read_plain {p : Path} {b : ByteArray} (hp : t.Plain p) :
    t.read p = .ok b ↔
      IsLookable p ∧ Path.EndsInName p ∧ t.get? (t.locate p) = some (.file b) := by
  rw [read_eq_ok_iff]
  constructor
  · rintro ⟨l, hl, hb⟩
    have hlookup := lookup_of_find hl
    obtain rfl : l = t.locate p := (lookup_plain hp (by simp) hlookup).2
    exact ⟨(find_eq_ok_iff.1 hl).1,
      endsInName_of_lookup hp (by simp) hlookup (.inr ⟨_, b, rfl, hb⟩), hb⟩
  · rintro ⟨hlook, hends, hb⟩
    exact ⟨_, find_of_file hp hlook hends hb, hb⟩

/-! ## What is missing -/

/-- A tree with all that another one has, but for the contents of files. -/
def Extends (t' t : Tree) : Prop := t'.here = t.here ∧ ∀ l, t.get? l = none ∨ Alike t t' l

theorem Extends.dir {l : Location} (h : t'.Extends t) (hl : t.get? l = some .dir) :
    t'.get? l = some .dir := by
  obtain hnone | halike := h.2 l
  · rw [hnone] at hl; cases hl
  · exact halike.dir_iff.2 hl

/-- Steps lead to nothing. -/
def LeadsNowhere (g : Progress) : Prop := g = .failed .notFound ∨ ∃ d n, g = .free d n

/-- What is missing in a tree is missing in one with less. -/
theorem leadsNowhere_advance {d : Location} {ss : List Text} (h : t'.Extends t)
    (hup : ['.', '.'] ∉ ss) (hlink : t'.NoLinkTo (d ++ ss.filter (!Path.isFiller ·)))
    (hmiss : LeadsNowhere (t'.advance .reach d ss)) : LeadsNowhere (t.advance .reach d ss) := by
  induction ss generalizing d with
  | nil => obtain h | ⟨_, _, h⟩ := hmiss <;> cases h
  | cons s rest ih =>
    have hs : s ≠ ['.', '.'] := fun h => hup (h ▸ List.mem_cons_self ..)
    have hrest : ['.', '.'] ∉ rest := fun h => hup (List.mem_cons_of_mem _ h)
    by_cases hf : Path.isFiller s
    · rw [List.filter_cons_of_neg (by simp [hf])] at hlink
      rw [advance, if_pos hf] at hmiss ⊢
      exact ih hrest hlink hmiss
    · have hf : Path.isFiller s = false := by simpa using hf
      rw [List.filter_cons_of_pos (by simp [hf]), ← List.singleton_append, ← List.append_assoc]
        at hlink
      rw [advance_name hf hs (by simp) (by simp)] at hmiss ⊢
      by_cases hd : t.get? d = some .dir
      · rw [if_neg (by simp [hd])]
        rw [if_neg (by simp [h.dir hd])] at hmiss
        by_cases hlen : maxNameLength < Text.byteLength s
        · rw [if_pos hlen] at hmiss
          obtain h | ⟨_, _, h⟩ := hmiss <;> cases h
        · rw [if_neg hlen] at hmiss ⊢
          obtain hnone | halike := h.2 (d ++ [s])
          · rw [hnone]
            by_cases hr : rest = []
            · exact .inr ⟨d, s, by simp [hr]⟩
            · exact .inl (by simp [hr])
          · cases hg : t'.get? (d ++ [s]) with
            | none =>
              have hnone : t.get? (d ++ [s]) = none := by
                unfold Alike at halike
                rw [hg] at halike
                simpa using halike.symm
              rw [hnone]
              rwa [hg] at hmiss
            | some e =>
              cases e with
              | file b =>
                rw [hg] at hmiss
                simp only at hmiss
                split at hmiss <;> obtain h | ⟨_, _, h⟩ := hmiss <;> cases h
              | dir =>
                rw [hg] at hmiss
                rw [halike.dir_iff.1 hg]
                exact ih hrest hlink hmiss
              | link target => exact absurd hg (hlink _ (List.prefix_append ..) target)
      · exact .inl (if_pos hd)

theorem Plain.no_link_steps {p : Path} (hp : t.Plain p) :
    t.NoLinkTo (origin t.here p ++ (Path.steps p).filter (!Path.isFiller ·)) := by
  rw [Path.filter_steps_eq_names]
  exact hp.no_link

theorem read_eq_notFound_iff {p : Path} (hp : t.Plain p) :
    t.read p = .error .notFound ↔
      p = [] ∨ IsLookable p ∧
        LeadsNowhere (t.advance .reach (origin t.here p) (Path.steps p)) := by
  have hfind : t.read p = .error .notFound ↔ t.find p = .error .notFound := by
    rw [read]
    cases t.find p with
    | error e => simp
    | ok l =>
      cases hl : t.get? l with
      | none => simp [hl]
      | some e => cases e <;> simp [hl]
  rw [hfind, find, lookup]
  by_cases h0 : '\x00' ∈ p
  · simp [h0, IsLookable, List.ne_nil_of_mem h0]
  · by_cases hnil : p = []
    · simp [hnil]
    · by_cases hlen : pathLimit ≤ Text.byteLength p
      · simp [h0, hnil, hlen, IsLookable, Nat.not_lt.2 hlen]
      · have hlook : IsLookable p := ⟨h0, hnil, Nat.lt_of_not_le hlen⟩
        have hlands := lands_advance .reach (by simp) hp.steps_no_up hp.no_link_steps
        simp only [h0, hnil, hlen, if_false, ne_eq, reduceCtorEq, not_false_eq_true, true_and,
          hlook, false_or]
        cases hg : t.advance .reach (origin t.here p) (Path.steps p) with
        | found l => simp [follow_of_found hg, LeadsNowhere]
        | free d n => simp [follow_of_free hg, LeadsNowhere]
        | failed e => simp [follow_of_failed hg, LeadsNowhere]
        | atLink _ _ _ => rw [hg] at hlands; exact hlands.elim

/-- A file that is missing was missing before. -/
theorem Extends.read_eq_notFound {p : Path} (h : t'.Extends t) (hp : t.Plain p) (hp' : t'.Plain p)
    (hmiss : t'.read p = .error .notFound) : t.read p = .error .notFound := by
  rw [read_eq_notFound_iff hp'] at hmiss
  rw [read_eq_notFound_iff hp]
  refine hmiss.imp_right fun ⟨hlook, hnowhere⟩ => ⟨hlook, ?_⟩
  have hlink := hp'.no_link_steps
  rw [h.1] at hnowhere hlink
  exact leadsNowhere_advance h hp.steps_no_up hlink hnowhere

/-! ## Directories on the way -/

/-- A tree with further directories, all of them on the way to a location. -/
def GrownTo (l : Location) (t t' : Tree) : Prop :=
  t'.here = t.here ∧
    ∀ k, t'.get? k = t.get? k ∨ t.get? k = none ∧ t'.get? k = some .dir ∧ k <+: l

theorem GrownTo.refl (l : Location) (t : Tree) : GrownTo l t t := ⟨rfl, fun _ => .inl rfl⟩

theorem GrownTo.trans {l : Location} {t t' t'' : Tree} (h : GrownTo l t t')
    (h' : GrownTo l t' t'') : GrownTo l t t'' := by
  refine ⟨h'.1.trans h.1, fun k => ?_⟩
  obtain hk | ⟨hnone, hdir, hkl⟩ := h.2 k
  · rw [← hk]
    exact h'.2 k
  · obtain hk' | ⟨hnone', -⟩ := h'.2 k
    · exact .inr ⟨hnone, hk'.trans hdir, hkl⟩
    · rw [hdir] at hnone'; cases hnone'

theorem GrownTo.plain {l : Location} {p : Path} (h : GrownTo l t t') (hp : t.Plain p) :
    t'.Plain p := by
  refine ⟨hp.no_up, fun k hk target hlink => ?_⟩
  rw [locate, h.1] at hk
  obtain hk' | ⟨-, hdir, -⟩ := h.2 k
  · exact hp.no_link k hk target (hk' ▸ hlink)
  · rw [hdir] at hlink; cases hlink

theorem isLookable_of_spot {p : Path} {x : Location × Text} (h : t.spot p = .ok x) :
    IsLookable p := by
  unfold spot at h
  split at h
  · cases h
  · next h0 =>
    split at h
    · cases h
    · next hnil =>
      split at h
      · cases h
      · next hlen => exact ⟨h0, hnil, Nat.lt_of_not_le hlen⟩

/-- Where a name can be put: behind steps that lead to a directory. -/
theorem exists_of_spot {p : Path} {d : Location} {n : Text} (h : t.spot p = .ok (d, n)) :
    ∃ ss, (Path.steps p).filter (· ≠ []) = ss ++ [n] ∧
      t.follow .reach maxLinks (origin t.here p) (ss ++ [[]]) = .ok (.found d) ∧
      t.get? d = some .dir ∧ IsFileName n := by
  have hlook := isLookable_of_spot h
  obtain hss | ⟨ss, m, hss⟩ := List.eq_nil_or_concat ((Path.steps p).filter (· ≠ []))
  · rw [spot_of_no_name hlook hss] at h; cases h
  · rw [List.concat_eq_append] at hss
    rw [spot_of_name hlook hss] at h
    have hm : m ∈ (Path.steps p).filter (· ≠ []) := by rw [hss]; simp
    obtain ⟨hmem, hne⟩ := List.mem_filter.1 hm
    cases hf : t.follow .reach maxLinks (origin t.here p) (ss ++ [[]]) with
    | error e => rw [hf] at h; cases h
    | ok g =>
      cases g with
      | free => rw [hf] at h; cases h
      | found d' =>
        simp only [hf] at h
        split at h
        · cases h
        · next hdots =>
          split at h
          · cases h
          · next hdir =>
            split at h
            · cases h
            · next hlen =>
              cases h
              obtain ⟨hdot, hup⟩ := not_or.1 hdots
              obtain ⟨hslash, hnul⟩ := areSteps_steps hlook.1 n hmem
              exact ⟨ss, hss, hf, Decidable.of_not_not hdir, by simpa using hne, hdot, hup, hslash,
                hnul, Nat.le_of_not_lt hlen⟩

/-- The spot of a plain path is where its names say. -/
theorem spot_plain {p : Path} {d : Location} {n : Text} (hp : t.Plain p)
    (h : t.spot p = .ok (d, n)) :
    d ++ [n] = t.locate p ∧ t.get? d = some .dir ∧ IsFileName n := by
  obtain ⟨ss, hss, hf, hdir, hn⟩ := exists_of_spot h
  have hnames : Path.names p = ss.filter (!Path.isFiller ·) ++ [n] := by
    rw [← Path.filter_steps_eq_names, ← Path.filter_names, hss, List.filter_append]
    simp [Path.isFiller, hn.1, hn.2.1]
  have hslash : (ss ++ [[]]).filter (!Path.isFiller ·) = ss.filter (!Path.isFiller ·) := by
    simp [List.filter_append, Path.isFiller]
  have hup : ['.', '.'] ∉ ss ++ [[]] := by
    intro hmem
    have hups : ['.', '.'] ∈ (Path.steps p).filter (· ≠ []) := by
      rw [hss]
      exact List.mem_append_left _ (by simpa using hmem)
    exact hp.steps_no_up (List.mem_filter.1 hups).1
  have hlink : t.NoLinkTo (origin t.here p ++ (ss ++ [[]]).filter (!Path.isFiller ·)) := by
    rw [hslash]
    intro k hk
    refine hp.no_link k (hk.trans ?_)
    rw [locate, hnames, ← List.append_assoc]
    exact List.prefix_append ..
  have hland : d = _ := (follow_plain (by simp) hup hlink hf).2
  refine ⟨?_, hdir, hn⟩
  rw [locate, hnames, ← List.append_assoc, hland, hslash]

/-- A directory made at a plain path stands where its names say. -/
theorem makeDir_plain {p : Path} (hp : t.Plain p) (h : t.makeDir p = .ok t') :
    GrownTo (t.locate p) t t' := by
  rw [makeDir, make] at h
  cases hs : t.spot p with
  | error e => rw [hs] at h; cases h
  | ok x =>
    obtain ⟨d, n⟩ := x
    obtain ⟨hloc, hd, hn⟩ := spot_plain hp hs
    rw [hs] at h
    simp only at h
    split at h
    · next hnone =>
      cases h
      have hacc : t.Accepts d n .dir := ⟨hd, hn, trivial, fun _ => rfl⟩
      refine ⟨here_put .., fun k => ?_⟩
      rw [get?_put hacc, hloc]
      split
      · next hk =>
        subst hk
        exact .inr ⟨hloc ▸ hnone, rfl, List.prefix_rfl⟩
      · exact .inl rfl
    · cases h

theorem GrownTo.mono {l l' : Location} (h : GrownTo l t t') (hl : l <+: l') : GrownTo l' t t' :=
  ⟨h.1, fun k => (h.2 k).imp_right fun ⟨hnone, hdir, hk⟩ => ⟨hnone, hdir, hk.trans hl⟩⟩

theorem locate_of_here {p : Path} (h : t'.here = t.here) : t'.locate p = t.locate p := by
  rw [locate, locate, h]

theorem grownTo_makeFirst {l : Location} {ps : List Path}
    (hps : ∀ p ∈ ps, p ≠ [] → t.Plain p ∧ t.locate p <+: l) : GrownTo l t (t.makeFirst ps).1 := by
  induction ps generalizing t with
  | nil => exact .refl l t
  | cons p ps ih =>
    rw [makeFirst]
    split
    · exact .refl l t
    · next hnil =>
      obtain ⟨hp, hl⟩ := hps p (List.mem_cons_self ..) hnil
      have ih := ih fun q hq => hps q (List.mem_cons_of_mem _ hq)
      split
      · next t' ht' => exact (makeDir_plain hp ht').mono hl
      · split
        · next heq => rw [heq] at ih; exact ih
        · next t' heq =>
          rw [heq] at ih
          split
          · next t'' ht'' =>
            have h := makeDir_plain (ih.plain hp) ht''
            rw [locate_of_here ih.1] at h
            exact ih.trans (h.mono hl)
          · split <;> exact ih
      · split <;> exact .refl l t

/-- A path with fewer names from the same start is plain too. -/
theorem Plain.of_prefix {p q : Path} (hp : t.Plain p) (habs : Path.isAbsolute q = Path.isAbsolute p)
    (hnames : Path.names q <+: Path.names p) : t.Plain q ∧ t.locate q <+: t.locate p := by
  have hloc : t.locate q <+: t.locate p := by
    rw [locate, locate, origin, origin, habs, List.prefix_append_right_inj]
    exact hnames
  exact ⟨⟨fun hup => hp.no_up (hnames.subset hup), fun k hk => hp.no_link k (hk.trans hloc)⟩, hloc⟩

/-- The directories made for a plain path stand above where its names say. -/
theorem grownTo_makeParents {p : Path} (hp : t.Plain p) :
    GrownTo (t.locate p) t (t.makeParents p).1 ∧
      (t.makeParents p).1.get? (t.locate p) = t.get? (t.locate p) := by
  have htree : ∀ q, Path.parent? p = some q →
      (t.makeParents p).1 = (t.makeFirst (Path.ancestors q)).1 := by
    intro q hq
    rw [makeParents, hq]
    simp only [makeDirs]
    obtain ⟨t', r⟩ := t.makeFirst (Path.ancestors q)
    cases r <;> rfl
  cases hq : Path.parent? p with
  | none =>
    rw [makeParents, hq]
    exact ⟨.refl _ t, rfl⟩
  | some q =>
    rw [htree q hq]
    by_cases hnil : q = []
    · rw [hnil, Path.ancestors_nil, makeFirst, if_pos rfl]
      exact ⟨.refl _ t, rfl⟩
    · obtain ⟨n, hn⟩ := Path.names_of_parent? hq hnil
      have habs := Path.isAbsolute_of_parent? hq hnil
      obtain ⟨hplain, hloc⟩ := hp.of_prefix habs (hn ▸ List.prefix_append ..)
      have hgrown : GrownTo (t.locate q) t (t.makeFirst (Path.ancestors q)).1 :=
        grownTo_makeFirst fun a ha hanil => by
          obtain ⟨haabs, hanames⟩ := Path.names_of_mem_ancestors ha hanil
          exact hplain.of_prefix haabs hanames
      refine ⟨hgrown.mono hloc, (hgrown.2 _).resolve_right fun h => ?_⟩
      have hle := h.2.2.length_le
      rw [locate, locate, hn, origin, origin, habs] at hle
      simp only [List.length_append, List.length_cons, List.length_nil] at hle
      omega

/-! ## Storing texts -/

/-- A tree with files stored at some locations, and with directories made on the way to them. -/
structure Stored (ls : List Location) (t t' : Tree) : Prop where
  here : t'.here = t.here
  old : ∀ l ∈ ls, t.get? l = none ∨ ∃ b, t.get? l = some (.file b)
  new : ∀ l ∈ ls, ∃ b, t'.get? l = some (.file b)
  frame : ∀ k, k ∉ ls →
    t'.get? k = t.get? k ∨ t.get? k = none ∧ t'.get? k = some .dir ∧ ∃ l ∈ ls, k <+: l

namespace Stored

variable {ls ls' : List Location} {t'' : Tree}

theorem refl (t : Tree) : Stored [] t t := ⟨rfl, by simp, by simp, fun _ _ => .inl rfl⟩

theorem trans (h : Stored ls t t') (h' : Stored ls' t' t'') : Stored (ls ++ ls') t t'' := by
  refine ⟨h'.here.trans h.here, fun l hl => ?_, fun l hl => ?_, fun k hk => ?_⟩
  · by_cases hls : l ∈ ls
    · exact h.old l hls
    · have hold := h'.old l ((List.mem_append.1 hl).resolve_left hls)
      obtain hsame | ⟨hnone, -⟩ := h.frame l hls
      · rwa [hsame] at hold
      · exact .inl hnone
  · by_cases hls' : l ∈ ls'
    · exact h'.new l hls'
    · obtain ⟨b, hb⟩ := h.new l ((List.mem_append.1 hl).resolve_right hls')
      obtain hsame | ⟨hnone, -⟩ := h'.frame l hls'
      · exact ⟨b, hsame.trans hb⟩
      · rw [hb] at hnone; cases hnone
  · obtain ⟨hls, hls'⟩ := not_or.1 (fun hor => hk (List.mem_append.2 hor))
    obtain hsame | ⟨hnone, hdir, l, hl, hkl⟩ := h.frame k hls
    · rw [← hsame]
      exact (h'.frame k hls').imp_right fun ⟨hnone, hdir, l, hl, hkl⟩ =>
        ⟨hnone, hdir, l, List.mem_append_right _ hl, hkl⟩
    · obtain hsame' | ⟨hnone', -⟩ := h'.frame k hls'
      · exact .inr ⟨hnone, hsame'.trans hdir, l, List.mem_append_left _ hl, hkl⟩
      · rw [hdir] at hnone'; cases hnone'

theorem plain {p : Path} (h : Stored ls t t') (hp : t.Plain p) : t'.Plain p := by
  refine ⟨hp.no_up, fun k hk target hlink => ?_⟩
  rw [locate_of_here h.here] at hk
  by_cases hls : k ∈ ls
  · obtain ⟨b, hb⟩ := h.new k hls
    rw [hb] at hlink; cases hlink
  · obtain hsame | ⟨-, hdir, -⟩ := h.frame k hls
    · exact hp.no_link k hk target (hsame ▸ hlink)
    · rw [hdir] at hlink; cases hlink

theorem extension (h : Stored ls t t') : t'.Extends t := by
  refine ⟨h.here, fun l => ?_⟩
  by_cases hls : l ∈ ls
  · obtain hnone | ⟨b, hb⟩ := h.old l hls
    · exact .inl hnone
    · obtain ⟨b', hb'⟩ := h.new l hls
      exact .inr (.of_files hb hb')
  · obtain hsame | ⟨hnone, -⟩ := h.frame l hls
    · exact .inr (.of_eq hsame)
    · exact .inl hnone

/-- A file elsewhere reads the same. -/
theorem read_iff {p : Path} {b : ByteArray} (h : Stored ls t t') (hp : t.Plain p)
    (hls : t.locate p ∉ ls) : t'.read p = .ok b ↔ t.read p = .ok b := by
  rw [read_plain (h.plain hp), read_plain hp, locate_of_here h.here]
  obtain hsame | ⟨hnone, hdir, -⟩ := h.frame _ hls
  · rw [hsame]
  · rw [hnone, hdir]
    simp

theorem textAt_iff {p : Path} {text : Text} (h : Stored ls t t') (hp : t.Plain p)
    (hls : t.locate p ∉ ls) : t'.textAt p = .ok text ↔ t.textAt p = .ok text := by
  rw [textAt_eq_ok_iff, textAt_eq_ok_iff, h.read_iff hp hls]

end Stored

/-- Storing a text at a plain path puts it in the file there and makes missing directories on the
way. -/
theorem storeText_plain {p : Path} {text : Text} (hp : t.Plain p)
    (h : t.storeText p text = (t', .ok ())) :
    Stored [t.locate p] t t' ∧ t'.read p = .ok text.encode := by
  obtain ⟨hgrown, hkept⟩ := grownTo_makeParents hp
  rw [storeText] at h
  cases hm : t.makeParents p with
  | mk t₁ r =>
    cases r with
    | error x => rw [hm] at h; cases h
    | ok u =>
      rw [hm] at h hgrown hkept
      simp only at h hgrown hkept
      cases hw : t₁.write p text.encode with
      | error e => rw [hw] at h; cases h
      | ok t₂ =>
        rw [hw] at h
        cases h
        have hp₁ := hgrown.plain hp
        have hloc : t₁.locate p = t.locate p := locate_of_here hgrown.1
        -- the file is written where the names say
        have hwhere : ∀ {g : Place}, t₁.lookup .create p = .ok g → g.location = t.locate p :=
          fun hg => hloc ▸ (lookup_plain hp₁ (by simp) hg).2
        obtain ⟨k, hcase, hhere, hget⟩ := write_cases hw
        obtain ⟨hlook, hends, hk, hold⟩ : IsLookable p ∧ Path.EndsInName p ∧ k = t.locate p ∧
            (t₁.get? k = none ∨ ∃ b, t₁.get? k = some (.file b)) := by
          obtain ⟨hg, b, hb⟩ | ⟨d, n, rfl, hg, hnone⟩ := hcase
          · exact ⟨((lookup_eq_ok_iff (by simp)).1 hg).1,
              endsInName_of_lookup hp₁ (by simp) hg (.inr ⟨k, b, rfl, hb⟩), hwhere hg, .inr ⟨b, hb⟩⟩
          · exact ⟨((lookup_eq_ok_iff (by simp)).1 hg).1,
              endsInName_of_lookup hp₁ (by simp) hg (.inl ⟨d, n, rfl⟩), hwhere hg, .inl hnone⟩
        subst hk
        have hnew : t'.get? (t.locate p) = some (.file text.encode) := by rw [hget, if_pos rfl]
        have hstored : Stored [t.locate p] t t' := by
          refine ⟨hhere.trans hgrown.1, by simpa [← hkept] using hold, by simp [hnew], fun k hk => ?_⟩
          rw [hget, if_neg (by simpa using hk)]
          simpa using hgrown.2 k
        refine ⟨hstored, (read_plain (hstored.plain hp)).2 ⟨hlook, hends, ?_⟩⟩
        rw [locate_of_here hstored.here, hnew]

end Tree

end PageSplice
