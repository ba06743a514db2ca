import PageSplice.Files
import PageSplice.Proofs.Path

/-!
# Look-ups step by step

A look-up that goes on behind some steps goes through the directory to which these lead
(`advance_append`, `follow_append`).  So where a path leads to something, its parent leads to a
directory (`follow_of_find_parent`), making that directory again fails without a change
(`makeDirs_of_find`), and writing changes nothing but the file (`storeText_of_file`).
-/

namespace PageSplice.Tree

variable {t : Tree}

theorem get?_of_isOpen {d : Location} (h : t.IsOpen d) :
    t.get? d = some .dir ∨ t.get? d = none := by
  obtain ⟨a, k, rfl, ha⟩ := h
  cases k with
  | zero => exact .inl (by simpa using ha)
  | succ k =>
    refine .inr ?_
    cases hg : t.get? (a ++ List.replicate (k + 1) []) with
    | none => rfl
    | some e =>
      obtain ⟨d, n, hd, hn, -⟩ := exists_of_get? (by simp) hg
      rw [List.replicate_succ', ← List.append_assoc] at hd
      obtain ⟨-, hnil⟩ := List.append_inj' hd rfl
      exact absurd (List.cons.inj hnil).1.symm hn.1

/-- What a look-up does at a name. -/
theorem advance_name {why : Purpose} {d : Location} {n : Text} {rest : List Text}
    (hfill : Path.isFiller n = false) (hup : n ≠ ['.', '.']) (hwhy : why ≠ .canonicalize)
    (hslash : why = .create → rest ≠ [[]]) :
    t.advance why d (n :: rest) =
      if t.get? d ≠ some .dir then .failed .notFound
      else if maxNameLength < Text.byteLength n then .failed .nameTooLong
      else match t.get? (d ++ [n]) with
        | none => if rest = [] then .free d n else .failed .notFound
        | some (.file _) => if rest = [] then .found (d ++ [n]) else .failed .notDirectory
        | some .dir => t.advance why (d ++ [n]) rest
        | some (.link target) => .atLink d target rest := by
  have hslash := not_and.2 hslash
  cases hg : t.get? (d ++ [n]) with
  | none => simp only [advance, hfill, hup, hslash, hwhy, hg, false_and, if_false, Bool.false_eq_true]
  | some e =>
    cases e <;>
      simp only [advance, hfill, hup, hslash, hwhy, hg, false_and, if_false, Bool.false_eq_true]

/-! ## Going on -/

/-- How a look-up goes on behind some steps, given where these lead if they ask for a directory. -/
def GoesOn (t : Tree) (why : Purpose) (ys : List Text) (g : Progress) : Progress → Prop
  | .found m => t.IsOpen m ∧ g = t.advance why m ys
  | .free .. => False
  | .atLink d target rest =>
      t.get? d = some .dir ∧ ∃ xs, rest = xs ++ [[]] ∧ g = .atLink d target (xs ++ ys)
  | .failed e => g = .failed e

theorem advance_append (why : Purpose) {d : Location} (xs : List Text) {ys : List Text}
    (hd : t.IsOpen d) (hwhy : why ≠ .canonicalize) (hys : ys ≠ [])
    (hslash : why = .create → ys ≠ [[]]) :
    t.GoesOn why ys (t.advance why d (xs ++ ys)) (t.advance .reach d (xs ++ [[]])) := by
  induction xs generalizing d with
  | nil => exact ⟨hd, rfl⟩
  | cons s rest ih =>
    have hne : rest ++ ys ≠ [] := by simp [hys]
    have hcreate : ¬ (why = .create ∧ rest ++ ys = [[]]) := by
      rintro ⟨hw, hr⟩
      rw [List.append_eq_singleton_iff] at hr
      obtain ⟨-, hr⟩ | ⟨-, hr⟩ := hr
      · exact hslash hw hr
      · exact hys hr
    simp only [List.cons_append, advance, if_neg hcreate, hne, hwhy, false_and, if_false]
    split
    · exact ih hd
    · split
      · exact ih hd.above
      · simp only [reduceCtorEq, false_and, if_false, List.append_eq_nil_iff, List.cons_ne_nil,
          and_false]
        split
        · rfl
        · next hdir =>
          split
          · rfl
          · split
            · rfl
            · rfl
            · next h => exact ih (isOpen_of_get? h)
            · exact ⟨Decidable.of_not_not hdir, rest, rfl, rfl⟩

theorem follow_of_found {why : Purpose} {k : Nat} {d l : Location} {ss : List Text}
    (h : t.advance why d ss = .found l) : t.follow why k d ss = .ok (.found l) := by
  cases k <;> rw [follow, h]

theorem follow_of_free {why : Purpose} {k : Nat} {d d' : Location} {ss : List Text} {n : Text}
    (h : t.advance why d ss = .free d' n) : t.follow why k d ss = .ok (.free d' n) := by
  cases k <;> rw [follow, h]

theorem follow_of_failed {why : Purpose} {k : Nat} {d : Location} {ss : List Text} {e : FileError}
    (h : t.advance why d ss = .failed e) : t.follow why k d ss = .error e := by
  cases k <;> rw [follow, h]

theorem follow_eq_of_advance_eq {why : Purpose} {k : Nat} {d d' : Location} {ss ss' : List Text}
    (h : t.advance why d ss = t.advance why d' ss') :
    t.follow why k d ss = t.follow why k d' ss' := by
  cases k <;> rw [follow, follow, h]

/-- What holds where steps lead to a location at once and is carried over from the steps behind a
link, holds whenever a look-up finds that location. -/
theorem follow_found_induct {why : Purpose} {l : Location}
    {motive : Nat → Location → List Text → Prop}
    (found : ∀ k d ss, t.advance why d ss = .found l → motive k d ss)
    (link : ∀ k d ss d' target rest, t.advance why d ss = .atLink d' target rest →
      motive k (origin d' target) (Path.steps target ++ rest) → motive (k + 1) d ss)
    {k : Nat} {d : Location} {ss : List Text} (h : t.follow why k d ss = .ok (.found l)) :
    motive k d ss := by
  induction k generalizing d ss with
  | zero =>
    rw [follow] at h
    split at h
    · next hg => cases h; exact found 0 d ss hg
    · cases h
    · cases h
    · cases h
  | succ k ih =>
    rw [follow] at h
    split at h
    · next hg => cases h; exact found (k + 1) d ss hg
    · cases h
    · cases h
    · next hg => exact link k d ss _ _ _ hg (ih h)

/-- A look-up with steps behind some others fails where these fail, or goes on in the directory to
which they lead. -/
theorem follow_append (why : Purpose) (k : Nat) {d : Location} (xs : List Text) {ys : List Text}
    (hd : t.IsOpen d) (hwhy : why ≠ .canonicalize) (hys : ys ≠ [])
    (hslash : why = .create → ys ≠ [[]]) :
    (∃ e, t.follow .reach k d (xs ++ [[]]) = .error e ∧ t.follow why k d (xs ++ ys) = .error e) ∨
      ∃ m k', t.follow .reach k d (xs ++ [[]]) = .ok (.found m) ∧ t.IsOpen m ∧
        t.follow why k d (xs ++ ys) = t.follow why k' m ys := by
  have h := advance_append why xs hd hwhy hys hslash
  cases hg : t.advance .reach d (xs ++ [[]]) with
  | found m =>
    rw [hg] at h
    exact .inr ⟨m, k, follow_of_found hg, h.1, follow_eq_of_advance_eq h.2⟩
  | free _ _ => rw [hg] at h; exact h.elim
  | failed e =>
    rw [hg] at h
    exact .inl ⟨e, follow_of_failed hg, follow_of_failed h⟩
  | atLink d' target rest =>
    rw [hg] at h
    obtain ⟨hd', xs', rfl, h⟩ := h
    match k with
    | 0 => exact .inl ⟨.tooManyLinks, by rw [follow, hg], by rw [follow, h]⟩
    | k + 1 =>
      rw [follow, hg, follow, h]
      simp only [← List.append_assoc]
      exact follow_append why k _ ((isOpen_of_get? hd').origin target) hwhy hys hslash
termination_by k

/-- A path with a slash behind it leads to a directory, or nowhere. -/
theorem isOpen_of_follow_slash {k : Nat} {d l : Location} {xs : List Text} (hd : t.IsOpen d)
    (h : t.follow .reach k d (xs ++ [[]]) = .ok (.found l)) : t.IsOpen l := by
  obtain ⟨e, he, -⟩ | ⟨m, k', hm, hopen, -⟩ :=
    follow_append .reach k xs hd (by simp) (List.cons_ne_nil [] []) (by simp)
  · rw [he] at h; cases h
  · rw [hm] at h; cases h; exact hopen

theorem advance_of_slash {d : Location} {xs : List Text} (hd : t.IsOpen d) :
    (∀ m, t.advance .reach d (xs ++ [[]]) = .found m → t.advance .reach d xs = .found m) ∧
      ∀ d' target rest, t.advance .reach d (xs ++ [[]]) = .atLink d' target (rest ++ [[]]) →
        t.advance .reach d xs = .atLink d' target rest := by
  induction xs generalizing d with
  | nil => simp [advance, Path.isFiller]
  | cons s xs ih =>
    simp only [List.cons_append, advance, reduceCtorEq, false_and, if_false,
      List.append_eq_nil_iff, List.cons_ne_nil, and_false]
    split
    · exact ih hd
    · split
      · exact ih hd.above
      · split
        · simp
        · split
          · simp
          · split
            · simp
            · simp
            · next h => exact ih (isOpen_of_get? h)
            · simp

/-- Without the slash it leads to the same directory. -/
theorem follow_of_slash {k : Nat} {d l : Location} {xs : List Text} (hd : t.IsOpen d)
    (h : t.follow .reach k d (xs ++ [[]]) = .ok (.found l)) :
    t.follow .reach k d xs = .ok (.found l) := by
  have hon := advance_append .reach xs hd (by simp) (List.cons_ne_nil [] []) (by simp)
  cases hg : t.advance .reach d (xs ++ [[]]) with
  | found m =>
    rw [follow_of_found hg] at h
    cases h
    exact follow_of_found ((advance_of_slash hd).1 _ hg)
  | free _ _ => rw [hg] at hon; exact hon.elim
  | failed e => rw [follow_of_failed hg] at h; cases h
  | atLink d' target rest =>
    rw [hg] at hon
    obtain ⟨hd', xs', rfl, -⟩ := hon
    match k with
    | 0 => rw [follow, hg] at h; cases h
    | k + 1 =>
      rw [follow, hg] at h
      rw [follow, (advance_of_slash hd).2 _ _ _ hg]
      simp only [← List.append_assoc] at h
      exact follow_of_slash ((isOpen_of_get? hd').origin target) h
termination_by k

/-! ## Parents of what exists -/

/-- A path that a look-up does not refuse at once. -/
def IsLookable (p : Path) : Prop :=
  '\x00' ∉ p ∧ p ≠ [] ∧ Text.byteLength p < pathLimit

theorem IsLookable.of_prefix {p q : Path} (h : IsLookable p) (hqp : q <+: p) (hq : q ≠ []) :
    IsLookable q := by
  obtain ⟨m, rfl⟩ := hqp
  refine ⟨fun h0 => h.1 (List.mem_append_left _ h0), hq, ?_⟩
  have := h.2.2
  rw [Text.byteLength_append] at this
  omega

theorem lookup_eq_ok_iff {why : Purpose} {p : Path} {g : Place} (hwhy : why ≠ .canonicalize) :
    t.lookup why p = .ok g ↔
      IsLookable p ∧ t.follow why maxLinks (origin t.here p) (Path.steps p) = .ok g := by
  unfold lookup IsLookable
  by_cases h0 : '\x00' ∈ p
  · simp [h0]
  · by_cases hp : p = []
    · simp [hp]
    · by_cases hlen : pathLimit ≤ Text.byteLength p
      · simp [h0, hp, hwhy, hlen, Nat.not_lt.2 hlen]
      · simp [h0, hp, hlen, Nat.lt_of_not_le hlen]

theorem find_eq_ok_iff {p : Path} {l : Location} :
    t.find p = .ok l ↔
      IsLookable p ∧ t.follow .reach maxLinks (origin t.here p) (Path.steps p) = .ok (.found l) := by
  rw [← lookup_eq_ok_iff (by simp), find]
  split <;> simp_all

theorem lookup_of_find {p : Path} {l : Location} (h : t.find p = .ok l) :
    t.lookup .reach p = .ok (.found l) :=
  (lookup_eq_ok_iff (by simp)).2 (find_eq_ok_iff.1 h)

theorem leads_iff {p : Path} : t.leads p ↔ ∃ l, t.find p = .ok l := by
  unfold leads
  cases t.find p with
  | ok l => exact iff_of_true rfl ⟨l, rfl⟩
  | error e => exact iff_of_false (by simp [Except.isOk, Except.toBool]) (by simp)

/-- The parent of a path that leads to something leads to a directory, and behind it the look-up
takes one more name. -/
theorem follow_of_find_parent {p q : Path} {l : Location} (h : t.find p = .ok l)
    (hpq : Path.parent? p = some q) (hq : q ≠ []) :
    ∃ m k ss n, t.find q = .ok m ∧ t.IsOpen m ∧ Path.names p = Path.names q ++ [n] ∧
      ss.filter (!Path.isFiller ·) = [n] ∧ t.follow .reach k m ss = .ok (.found l) := by
  obtain ⟨hp, hf⟩ := find_eq_ok_iff.1 h
  obtain ⟨ys, hys, hsteps⟩ := Path.steps_of_parent? hpq hq
  obtain ⟨n, hn⟩ := Path.names_of_parent? hpq hq
  have horigin : origin t.here p = origin t.here q := by
    rw [origin, origin, Path.isAbsolute_of_parent? hpq hq]
  have hopen := t.isOpen_here.origin q
  have hone : ys.filter (!Path.isFiller ·) = [n] := by
    rw [← Path.filter_steps_eq_names, hsteps, List.filter_append, Path.filter_names,
      Path.filter_steps_eq_names] at hn
    exact List.append_cancel_left hn
  rw [hsteps, horigin] at hf
  obtain ⟨e, -, he⟩ | ⟨m, k, hm, hmo, hgo⟩ :=
    follow_append .reach maxLinks _ hopen (by simp) hys (by simp)
  · rw [he] at hf; cases hf
  · refine ⟨m, k, ys, n, find_eq_ok_iff.2 ⟨hp.of_prefix (Path.isPrefix_of_parent? hpq) hq, ?_⟩,
      hmo, hn, hone, hgo ▸ hf⟩
    obtain hs | hs := Path.steps_eq_or q
    · rw [hs]; exact follow_of_slash hopen hm
    · rw [hs]; exact hm

/-- A look-up that does not fail at a name finds it in a directory. -/
theorem stands_of_follow {k : Nat} {d l : Location} {n : Text} {rest : List Text}
    (hfill : Path.isFiller n = false) (hup : n ≠ ['.', '.'])
    (h : t.follow .reach k d (n :: rest) = .ok (.found l)) :
    t.get? d = some .dir ∧ t.get? (d ++ [n]) ≠ none := by
  have hadv : t.advance .reach d (n :: rest) = _ := advance_name hfill hup (by simp) (by simp)
  refine ⟨Decidable.of_not_not fun hd => ?_, fun hnone => ?_⟩
  · rw [if_pos hd] at hadv
    rw [follow_of_failed hadv] at h; cases h
  · rw [hnone] at hadv
    split at hadv
    · rw [follow_of_failed hadv] at h; cases h
    · split at hadv
      · rw [follow_of_failed hadv] at h; cases h
      · simp only at hadv
        split at hadv
        · rw [follow_of_free hadv] at h; cases h
        · rw [follow_of_failed hadv] at h; cases h

theorem spot_of_no_name {p : Path} (hp : IsLookable p)
    (hss : (Path.steps p).filter (· ≠ []) = []) : t.spot p = .error .alreadyExists := by
  rw [spot, if_neg hp.1, if_neg hp.2.1, if_neg (Nat.not_le.2 hp.2.2)]
  simp only [hss, List.getLast?_nil]

theorem spot_of_name {p : Path} {ss : List Text} {n : Text} (hp : IsLookable p)
    (hss : (Path.steps p).filter (· ≠ []) = ss ++ [n]) :
    t.spot p =
      match t.follow .reach maxLinks (origin t.here p) (ss ++ [[]]) with
      | .error e => .error e
      | .ok (.free ..) => .error .notFound
      | .ok (.found d) =>
        if n = ['.'] ∨ n = ['.', '.'] then .error .alreadyExists
        else if t.get? d ≠ some .dir then .error .notFound
        else if maxNameLength < Text.byteLength n then .error .nameTooLong
        else .ok (d, n) := by
  rw [spot, if_neg hp.1, if_neg hp.2.1, if_neg (Nat.not_le.2 hp.2.2)]
  cases hf : t.follow .reach maxLinks (origin t.here p) (ss ++ [[]]) with
  | error e => simp only [hss, List.getLast?_concat, List.dropLast_concat, hf]
  | ok g => cases g <;> simp only [hss, List.getLast?_concat, List.dropLast_concat, hf]

/-- A directory cannot be made where a path leads to something, and nothing on the way is
missing. -/
theorem makeDir_of_find {p : Path} {l : Location} (h : t.find p = .ok l) :
    ∃ e, t.makeDir p = .error e ∧ e ≠ .notFound := by
  obtain ⟨hp, hf⟩ := find_eq_ok_iff.1 h
  have hopen := t.isOpen_here.origin p
  rw [makeDir, make]
  obtain hss | ⟨ss, n, hss⟩ := List.eq_nil_or_concat ((Path.steps p).filter (· ≠ []))
  · exact ⟨.alreadyExists, by rw [spot_of_no_name hp hss], by simp⟩
  · rw [List.concat_eq_append] at hss
    obtain ⟨ys, hys, hsteps⟩ : ∃ ys, (ys = [n] ∨ ys = [n, []]) ∧ Path.steps p = ss ++ ys := by
      obtain hs | hs := Path.steps_eq_or p
      · exact ⟨[n], .inl rfl, hs.trans hss⟩
      · exact ⟨[n, []], .inr rfl, by rw [hs, hss, List.append_assoc]; rfl⟩
    have hne : ys ≠ [] := by rcases hys with rfl | rfl <;> simp
    rw [hsteps] at hf
    obtain ⟨e, -, he⟩ | ⟨m, k, hm, -, hgo⟩ :=
      follow_append .reach maxLinks ss hopen (by simp) hne (by simp)
    · rw [he] at hf; cases hf
    · rw [hgo] at hf
      rw [spot_of_name hp hss, hm]
      by_cases hdots : n = ['.'] ∨ n = ['.', '.']
      · exact ⟨.alreadyExists, by simp only [if_pos hdots], by simp⟩
      · have hn : n ≠ [] := by
          rintro rfl
          have : [] ∈ (Path.steps p).filter (· ≠ []) := by rw [hss]; simp
          simp at this
        have hfill : Path.isFiller n = false := by simpa [Path.isFiller, hn] using (not_or.1 hdots).1
        -- the last name stands in `m`, or the look-up would not have ended well
        have hstands : t.get? m = some .dir ∧ t.get? (m ++ [n]) ≠ none := by
          rcases hys with rfl | rfl <;> exact stands_of_follow hfill (not_or.1 hdots).2 hf
        simp only [if_neg hdots, hstands.1, ne_eq, not_true_eq_false, if_false]
        by_cases hlen : maxNameLength < Text.byteLength n
        · exact ⟨.nameTooLong, by simp only [if_pos hlen], by simp⟩
        · exact ⟨.alreadyExists, by simp only [if_neg hlen, if_neg hstands.2], by simp⟩

theorem directory?_of_find {p : Path} {l : Location} (h : t.find p = .ok l) (hl : t.IsOpen l) :
    t.directory? p = some l := by
  rw [directory?, h]
  obtain hg | hg := get?_of_isOpen hl <;> simp only [hg]

/-- Where a path leads to something, no directory is made; it is an error if none is there. -/
theorem exists_makeDirs_of_find {p : Path} {l : Location} (h : t.find p = .ok l) :
    ∃ e, t.makeDirs p = (t, if t.isDir p then .ok () else .error e) := by
  obtain ⟨ps, hps⟩ : ∃ ps, Path.ancestors p = p :: ps := by
    rw [Path.ancestors]; split <;> exact ⟨_, rfl⟩
  obtain ⟨e, he, hne⟩ := makeDir_of_find h
  refine ⟨e, ?_⟩
  rw [makeDirs, hps, makeFirst, if_neg (find_eq_ok_iff.1 h).1.2.1, he]
  cases e <;> first | exact absurd rfl hne | (simp only; split <;> rfl)

theorem makeDirs_of_find {p : Path} {l : Location} (h : t.find p = .ok l) (hl : t.IsOpen l) :
    t.makeDirs p = (t, .ok ()) := by
  obtain ⟨e, he⟩ := exists_makeDirs_of_find h
  rw [he, if_pos (by rw [isDir, directory?_of_find h hl]; rfl)]

theorem makeDirs_nil (t : Tree) : t.makeDirs [] = (t, .ok ()) := by
  rw [makeDirs, Path.ancestors_nil, makeFirst, if_pos rfl]

/-- Nothing is made where no directory is missing above a path. -/
theorem makeParents_of_leads {p : Path}
    (h : ∀ q, Path.parent? p = some q → q = [] ∨ t.leads q) : (t.makeParents p).1 = t := by
  rw [makeParents]
  cases hq : Path.parent? p with
  | none => rfl
  | some q =>
    have hmade : (t.makeDirs q).1 = t := by
      obtain rfl | hleads := h q hq
      · rw [makeDirs_nil]
      · obtain ⟨l, hl⟩ := leads_iff.1 hleads
        obtain ⟨e, he⟩ := exists_makeDirs_of_find hl
        rw [he]
    simp only
    generalize t.makeDirs q = x at hmade ⊢
    obtain ⟨t', r⟩ := x
    cases r <;> exact hmade

/-- Where a path leads to something, no directory is missing. -/
theorem makeParents_of_find {p : Path} {l : Location} (h : t.find p = .ok l) :
    t.makeParents p = (t, .ok ()) := by
  rw [makeParents]
  cases hq : Path.parent? p with
  | none => rfl
  | some q =>
    by_cases hnil : q = []
    · simp only [hnil, makeDirs_nil]
    · obtain ⟨m, -, -, -, hm, hopen, -⟩ := follow_of_find_parent h hq hnil
      simp only [makeDirs_of_find hm hopen]

/-! ## Writing to what exists -/

theorem advance_create {d : Location} {ss : List Text} (h : ss.getLast? ≠ some []) :
    t.advance .create d ss = t.advance .reach d ss := by
  induction ss generalizing d with
  | nil => rfl
  | cons s rest ih =>
    have hslash : rest ≠ [[]] := by
      rintro rfl
      exact h rfl
    have hrest : ∀ d, t.advance .create d rest = t.advance .reach d rest := by
      intro d
      cases rest with
      | nil => rfl
      | cons s' rest => exact ih (by rwa [List.getLast?_cons_cons] at h)
    simp only [advance, hslash, hrest, and_false, if_false, reduceCtorEq, false_and]

/-- A path that leads to a file leads there for writing too. -/
theorem follow_create {k : Nat} {d l : Location} {ss : List Text} {b : ByteArray}
    (hd : t.IsOpen d) (hb : t.get? l = some (.file b))
    (h : t.follow .reach k d ss = .ok (.found l)) : t.follow .create k d ss = .ok (.found l) := by
  by_cases hlast : ss.getLast? = some []
  · obtain ⟨xs, rfl⟩ := List.getLast?_eq_some_iff.1 hlast
    obtain hg | hg := get?_of_isOpen (isOpen_of_follow_slash hd h) <;> rw [hg] at hb <;> cases hb
  · have hadv := advance_create (t := t) (d := d) hlast
    have hreached : t.Reached ss (t.advance .reach d ss) := reached_advance hd
    cases hg : t.advance .reach d ss with
    | found m =>
      rw [follow_of_found hg] at h
      rw [follow_of_found (hadv.trans hg), h]
    | free d' n => rw [follow_of_free hg] at h; cases h
    | failed e => rw [follow_of_failed hg] at h; cases h
    | atLink d' target rest =>
      rw [hg] at hreached hadv
      match k with
      | 0 => rw [follow, hg] at h; cases h
      | k + 1 =>
        rw [follow, hg] at h
        rw [follow, hadv]
        exact follow_create ((isOpen_of_get? hreached.1).origin target) hb h
termination_by k

/-- A tree with another content in the file at a location. -/
structure Overwritten (l : Location) (c : ByteArray) (t t' : Tree) : Prop where
  here : t'.here = t.here
  get? : ∀ k, t'.get? k = if k = l then some (.file c) else t.get? k

/-- Where a path leads to a file, writing changes what this file holds and nothing else. -/
theorem write_of_file {p : Path} {l : Location} {b : ByteArray} (h : t.find p = .ok l)
    (hb : t.get? l = some (.file b)) (c : ByteArray) :
    ∃ t', t.write p c = .ok t' ∧ Overwritten l c t t' := by
  obtain ⟨hp, hf⟩ := find_eq_ok_iff.1 h
  have hcreate : t.lookup .create p = .ok (.found l) :=
    (lookup_eq_ok_iff (by simp)).2 ⟨hp, follow_create (t.isOpen_here.origin p) hb hf⟩
  obtain ⟨ha, heq⟩ := accepts_file (c := c) hb
  refine ⟨t.put (above l) (l.getLastD []) (.file c), ?_, here_put .., fun k => ?_⟩
  · simp only [write, hcreate, hb]
  · rw [get?_put ha, heq]

theorem storeText_of_file {p : Path} {l : Location} {b : ByteArray} (h : t.find p = .ok l)
    (hb : t.get? l = some (.file b)) (text : Text) :
    ∃ t', t.storeText p text = (t', .ok ()) ∧ Overwritten l text.encode t t' := by
  obtain ⟨t', hwrite, ht'⟩ := write_of_file h hb text.encode
  exact ⟨t', by simp only [storeText, makeParents_of_find h, hwrite], ht'⟩

end PageSplice.Tree
