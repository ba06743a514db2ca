import PageSplice.Path

/-!
# File trees

A tree holds files, directories and symbolic links, each at a location: the names that lead to it
from the root.  The entries are kept in the order of their locations, and whatever stands at a
location stands in a directory, under a proper name.  One directory is the working directory.  If
it is removed, it has no name any more: its location ends in empty names, one for each directory
that went with it, and nothing can stand there.  Main statements: what a location holds after an
entry was put or removed (`get?_put`, `get?_remove`).
-/

namespace PageSplice

abbrev Location := List Text

inductive Entry where
  | file (content : ByteArray)
  | dir
  | link (target : Path)
deriving DecidableEq

/-- A path of this many bytes is refused, whatever it leads to. -/
def pathLimit : Nat := 4096

/-- The longest name a directory can hold, in bytes. -/
def maxNameLength : Nat := 255

def IsFileName (n : Text) : Prop :=
  n ≠ [] ∧ n ≠ ['.'] ∧ n ≠ ['.', '.'] ∧ '/' ∉ n ∧ '\x00' ∉ n ∧ Text.byteLength n ≤ maxNameLength

instance (n : Text) : Decidable (IsFileName n) := by unfold IsFileName; infer_instance

/-- A link's target need not lead anywhere, but it is a path that a look-up accepts. -/
def Entry.IsProper : Entry → Prop
  | .link target => target ≠ [] ∧ '\x00' ∉ target ∧ Text.byteLength target < pathLimit
  | _ => True

instance (e : Entry) : Decidable e.IsProper := by
  cases e <;> unfold Entry.IsProper <;> infer_instance

/-- The path of a location: absolute, with every link and dot gone. -/
def Location.path : Location → Path
  | [] => ['/']
  | l => l.flatMap ('/' :: ·)

/-- A location after another one was removed: the directories that went with it lost their names. -/
def Location.afterRemoval (k l : Location) : Location :=
  if l <+: k then l.dropLast ++ List.replicate (k.length + 1 - l.length) [] else k

structure Tree where
  entries : List (Location × Entry)
  /-- The working directory, from which relative paths start, whether it still stands or not. -/
  here : Location
  sorted : entries.Pairwise (fun a b => a.1 < b.1)
  grounded : ∀ l e, (l, e) ∈ entries →
    ∃ d n, l = d ++ [n] ∧ IsFileName n ∧ (d = [] ∨ (d, Entry.dir) ∈ entries)
  proper : ∀ l e, (l, e) ∈ entries → e.IsProper
  here_isOpen : ∃ d k, here = d ++ List.replicate k [] ∧ (d = [] ∨ (d, Entry.dir) ∈ entries)

namespace Tree

/-- A root directory with nothing in it. -/
def empty : Tree where
  entries := []
  here := []
  sorted := .nil
  grounded := by simp
  proper := by simp
  here_isOpen := ⟨[], 0, rfl, .inl rfl⟩

/-- What stands at a location.  At the root stands a directory. -/
def get? (t : Tree) (l : Location) : Option Entry :=
  if l = [] then some .dir else (t.entries.find? (·.1 = l)).map (·.2)

@[simp] theorem get?_nil (t : Tree) : t.get? [] = some .dir := rfl

theorem eq_of_mem_sorted {xs : List (Location × Entry)} {l : Location} {e x : Entry}
    (h : xs.Pairwise (fun a b => a.1 < b.1)) (he : (l, e) ∈ xs) (hx : (l, x) ∈ xs) : e = x := by
  induction xs with
  | nil => simp at he
  | cons y ys ih =>
    have hy := List.pairwise_cons.1 h
    rcases List.mem_cons.1 he with rfl | he'
    · rcases List.mem_cons.1 hx with hx | hx
      · simpa using hx.symm
      · exact absurd (hy.1 _ hx) (List.lt_irrefl _)
    · rcases List.mem_cons.1 hx with rfl | hx
      · exact absurd (hy.1 _ he') (List.lt_irrefl _)
      · exact ih hy.2 he' hx

theorem mem_entries_iff {t : Tree} {l : Location} {e : Entry} :
    (l, e) ∈ t.entries ↔ l ≠ [] ∧ t.get? l = some e := by
  constructor
  · intro h
    have hl : l ≠ [] := by
      obtain ⟨d, n, rfl, _⟩ := t.grounded l e h
      simp
    refine ⟨hl, ?_⟩
    rw [get?, if_neg hl]
    match hf : t.entries.find? (·.1 = l) with
    | none => exact absurd (List.find?_eq_none.1 hf _ h) (by simp)
    | some (l', e') =>
      have hl' : l' = l := by simpa using List.find?_some hf
      subst hl'
      rw [hf, Option.map_some, eq_of_mem_sorted t.sorted h (List.mem_of_find?_eq_some hf)]
  · rintro ⟨hl, h⟩
    rw [get?, if_neg hl] at h
    obtain ⟨⟨l', e'⟩, hf, rfl⟩ := Option.map_eq_some_iff.1 h
    have hl' : l' = l := by simpa using List.find?_some hf
    exact hl' ▸ List.mem_of_find?_eq_some hf

theorem get?_dir_iff {t : Tree} {l : Location} :
    t.get? l = some .dir ↔ l = [] ∨ (l, Entry.dir) ∈ t.entries := by
  rw [mem_entries_iff]
  by_cases h : l = [] <;> simp [h]

theorem isProper_of_get? {t : Tree} {l : Location} {e : Entry} (h : t.get? l = some e) :
    e.IsProper := by
  by_cases hl : l = []
  · subst hl; cases h; trivial
  · exact t.proper l e (mem_entries_iff.2 ⟨hl, h⟩)

/-- An entry stands under a proper name in a directory. -/
theorem exists_of_get? {t : Tree} {l : Location} {e : Entry} (hl : l ≠ [])
    (h : t.get? l = some e) : ∃ d n, l = d ++ [n] ∧ IsFileName n ∧ t.get? d = some .dir := by
  obtain ⟨d, n, hdn, hn, hd⟩ := t.grounded l e (mem_entries_iff.2 ⟨hl, h⟩)
  exact ⟨d, n, hdn, hn, get?_dir_iff.2 hd⟩

/-- A directory above one that stands, stands. -/
theorem get?_ancestor {t : Tree} {a d : Location} (h : a <+: d) (hd : t.get? d = some .dir) :
    t.get? a = some .dir := by
  by_cases had : a = d
  · exact had ▸ hd
  · have hne : d ≠ [] := by rintro rfl; exact had (List.prefix_nil.1 h)
    obtain ⟨d', n, rfl, _, hd'⟩ := exists_of_get? hne hd
    exact get?_ancestor ((List.prefix_concat_iff.1 h).resolve_left had) hd'
termination_by d.length

/-! ## Open directories -/

/-- Whether a program can be in a directory: it stands, or it was removed from below one that
stands. -/
def IsOpen (t : Tree) (d : Location) : Prop :=
  ∃ a k, d = a ++ List.replicate k [] ∧ t.get? a = some .dir

theorem isOpen_of_get? {t : Tree} {d : Location} (h : t.get? d = some .dir) : t.IsOpen d :=
  ⟨d, 0, by simp, h⟩

theorem isOpen_here (t : Tree) : t.IsOpen t.here :=
  have ⟨d, k, h, hd⟩ := t.here_isOpen
  ⟨d, k, h, get?_dir_iff.2 hd⟩

/-- Whether the working directory stands. -/
def hereStands (t : Tree) : Bool := t.get? t.here = some .dir

/-! ## Putting an entry -/

def insertEntry (l : Location) (e : Entry) : List (Location × Entry) → List (Location × Entry)
  | [] => [(l, e)]
  | (k, x) :: xs =>
    if l < k then (l, e) :: (k, x) :: xs
    else if l = k then (l, e) :: xs
    else (k, x) :: insertEntry l e xs

theorem mem_insertEntry_self (l : Location) (e : Entry) (xs : List (Location × Entry)) :
    (l, e) ∈ insertEntry l e xs := by
  induction xs with
  | nil => simp [insertEntry]
  | cons x xs ih =>
    unfold insertEntry
    split
    · simp
    · split
      · simp
      · exact List.mem_cons_of_mem _ ih

theorem of_mem_insertEntry {l k : Location} {e x : Entry} {xs : List (Location × Entry)}
    (h : (k, x) ∈ insertEntry l e xs) : (k = l ∧ x = e) ∨ (k, x) ∈ xs := by
  induction xs with
  | nil => simpa [insertEntry] using h
  | cons y xs ih =>
    unfold insertEntry at h
    split at h
    · rcases List.mem_cons.1 h with h | h
      · left; simpa using h
      · right; exact h
    · split at h
      · rcases List.mem_cons.1 h with h | h
        · left; simpa using h
        · right; exact List.mem_cons_of_mem _ h
      · rcases List.mem_cons.1 h with h | h
        · right; simp [h]
        · exact (ih h).imp_right (List.mem_cons_of_mem _)

theorem mem_insertEntry_of_ne {l k : Location} {e x : Entry} {xs : List (Location × Entry)}
    (hk : k ≠ l) (h : (k, x) ∈ xs) : (k, x) ∈ insertEntry l e xs := by
  induction xs with
  | nil => simp at h
  | cons y xs ih =>
    unfold insertEntry
    split
    · exact List.mem_cons_of_mem _ h
    · split
      · next hy =>
        rcases List.mem_cons.1 h with rfl | h
        · exact absurd hy.symm hk
        · exact List.mem_cons_of_mem _ h
      · rcases List.mem_cons.1 h with rfl | h
        · simp
        · exact List.mem_cons_of_mem _ (ih h)

theorem insertEntry_sorted {l : Location} {e : Entry} {xs : List (Location × Entry)}
    (h : xs.Pairwise (fun a b => a.1 < b.1)) :
    (insertEntry l e xs).Pairwise (fun a b => a.1 < b.1) := by
  induction xs with
  | nil => simp [insertEntry]
  | cons y xs ih =>
    have hy := List.pairwise_cons.1 h
    unfold insertEntry
    split
    · next hlt =>
      refine List.pairwise_cons.2 ⟨fun z hz => ?_, h⟩
      rcases List.mem_cons.1 hz with rfl | hz
      · exact hlt
      · exact List.lt_trans hlt (hy.1 z hz)
    · next hge =>
      split
      · next heq =>
        refine List.pairwise_cons.2 ⟨fun z hz => ?_, hy.2⟩
        rw [show l = y.1 from heq]
        exact hy.1 z hz
      · next hne =>
        refine List.pairwise_cons.2 ⟨fun z hz => ?_, ih hy.2⟩
        rcases of_mem_insertEntry (k := z.1) (x := z.2) hz with ⟨hz, _⟩ | hz
        · rw [hz]
          rcases List.le_total y.1 l with hle | hle
          · rcases List.le_iff_lt_or_eq.1 hle with hlt | heq
            · exact hlt
            · exact absurd heq.symm hne
          · rcases List.le_iff_lt_or_eq.1 hle with hlt | heq
            · exact absurd hlt hge
            · exact absurd heq hne
        · exact hy.1 z hz

/-- Whether an entry may be put in a directory under a name: no directory is replaced by something
else. -/
def Accepts (t : Tree) (d : Location) (n : Text) (e : Entry) : Prop :=
  t.get? d = some .dir ∧ IsFileName n ∧ e.IsProper ∧ (t.get? (d ++ [n]) = some .dir → e = .dir)

instance (t : Tree) (d : Location) (n : Text) (e : Entry) : Decidable (t.Accepts d n e) := by
  unfold Accepts; infer_instance

/-- The tree with an entry put in a directory, in the place of an old file or link of that name.
Where the entry may not stand the tree stays as it is. -/
def put (t : Tree) (d : Location) (n : Text) (e : Entry) : Tree :=
  if h : t.Accepts d n e then
    have keep : ∀ {k}, (k, Entry.dir) ∈ t.entries →
        (k, Entry.dir) ∈ insertEntry (d ++ [n]) e t.entries := by
      intro k hk
      by_cases hkl : k = d ++ [n]
      · have := h.2.2.2 (hkl ▸ (mem_entries_iff.1 hk).2)
        subst this hkl
        exact mem_insertEntry_self ..
      · exact mem_insertEntry_of_ne hkl hk
    { entries := insertEntry (d ++ [n]) e t.entries
      here := t.here
      sorted := insertEntry_sorted t.sorted
      grounded := by
        intro l x hx
        rcases of_mem_insertEntry hx with ⟨rfl, _⟩ | hx
        · exact ⟨d, n, rfl, h.2.1, (get?_dir_iff.1 h.1).imp_right keep⟩
        · obtain ⟨d', n', hl, hn', hd'⟩ := t.grounded l x hx
          exact ⟨d', n', hl, hn', hd'.imp_right keep⟩
      proper := by
        intro l x hx
        rcases of_mem_insertEntry hx with ⟨_, rfl⟩ | hx
        · exact h.2.2.1
        · exact t.proper l x hx
      here_isOpen :=
        have ⟨k, j, hk, hd⟩ := t.here_isOpen
        ⟨k, j, hk, hd.imp_right keep⟩ }
  else t

theorem get?_put {t : Tree} {d : Location} {n : Text} {e : Entry} (h : t.Accepts d n e)
    (l : Location) : (t.put d n e).get? l = if l = d ++ [n] then some e else t.get? l := by
  have hput : (t.put d n e).entries = insertEntry (d ++ [n]) e t.entries := by
    unfold put; rw [dif_pos h]
  split
  · next hl =>
    subst hl
    refine (mem_entries_iff.1 ?_).2
    rw [hput]
    exact mem_insertEntry_self ..
  · next hl =>
    by_cases hnil : l = []
    · subst hnil; simp
    · ext x
      constructor
      · intro hx
        have hm := mem_entries_iff.2 ⟨hnil, hx⟩
        rw [hput] at hm
        rcases of_mem_insertEntry hm with ⟨hl', _⟩ | hm
        · exact absurd hl' hl
        · exact (mem_entries_iff.1 hm).2
      · intro hx
        have hm := mem_entries_iff.2 ⟨hnil, hx⟩
        refine (mem_entries_iff.1 ?_).2
        rw [hput]
        exact mem_insertEntry_of_ne hl hm

@[simp] theorem here_put (t : Tree) (d : Location) (n : Text) (e : Entry) :
    (t.put d n e).here = t.here := by
  unfold put; split <;> rfl

/-- The tree with a directory and all it lacks on the way to it. -/
def putDirs (t : Tree) (d : Location) : List Text → Tree
  | [] => t
  | n :: ns => (t.put d n .dir).putDirs (d ++ [n]) ns

/-- The tree as a program sees it that runs in a directory; a location that holds none is not
entered. -/
def enter (t : Tree) (d : Location) : Tree :=
  if h : t.get? d = some .dir then
    { t with here := d, here_isOpen := ⟨d, 0, by simp, get?_dir_iff.1 h⟩ }
  else t

/-! ## Removing a location -/

theorem isOpen_afterRemoval (t : Tree) {l : Location} (hl : l ≠ []) :
    ∃ d k, t.here.afterRemoval l = d ++ List.replicate k [] ∧ t.get? d = some .dir ∧ ¬ l <+: d := by
  have hpos := List.length_pos_iff.2 hl
  obtain ⟨d, k, hk, hd⟩ := t.isOpen_here
  unfold Location.afterRemoval
  split
  · next h =>
    by_cases hld : l <+: d
    · refine ⟨l.dropLast, _, rfl, get?_ancestor ((List.dropLast_prefix l).trans hld) hd, ?_⟩
      intro h
      have := h.length_le
      rw [List.length_dropLast] at this
      omega
    · obtain ⟨m, rfl⟩ : d <+: l :=
        (List.prefix_or_prefix_of_prefix h (hk ▸ List.prefix_append ..)).resolve_left hld
      rw [hk, List.prefix_append_right_inj] at h
      obtain ⟨-, hm⟩ := List.prefix_replicate_iff.1 h
      have hne : m ≠ [] := by rintro rfl; exact hld (by simp)
      rw [List.dropLast_append_of_ne_nil hne, hm, List.dropLast_replicate, List.append_assoc,
        List.replicate_append_replicate]
      exact ⟨d, _, rfl, hd, hm ▸ hld⟩
  · next h => exact ⟨d, k, hk, hd, fun hld => h (hk ▸ hld.trans (List.prefix_append ..))⟩

/-- The tree without what stands at a location and below it.  The root stays. -/
def remove (t : Tree) (l : Location) : Tree :=
  if h : l = [] then t
  else
    have keep : ∀ {k e}, ¬ l <+: k → (k, e) ∈ t.entries →
        (k, e) ∈ t.entries.filter (fun x => ¬ l <+: x.1) := by
      intro k e hk he
      exact List.mem_filter.2 ⟨he, by simpa using hk⟩
    { entries := t.entries.filter (fun x => ¬ l <+: x.1)
      here := t.here.afterRemoval l
      sorted := t.sorted.filter _
      grounded := by
        intro k e hk
        obtain ⟨hm, hkl⟩ := List.mem_filter.1 hk
        obtain ⟨d, n, rfl, hn, hd⟩ := t.grounded k e hm
        refine ⟨d, n, rfl, hn, hd.imp_right (keep fun hd => ?_)⟩
        exact absurd (hd.trans (List.prefix_append d [n])) (by simpa using hkl)
      proper := fun k e hk => t.proper k e (List.mem_filter.1 hk).1
      here_isOpen := by
        obtain ⟨d, k, hk, hd, hld⟩ := t.isOpen_afterRemoval h
        exact ⟨d, k, hk, (get?_dir_iff.1 hd).imp_right (keep hld)⟩ }

theorem get?_remove {t : Tree} {l : Location} (hl : l ≠ []) (k : Location) :
    (t.remove l).get? k = if l <+: k then none else t.get? k := by
  have hrem : (t.remove l).entries = t.entries.filter (fun x => ¬ l <+: x.1) := by
    unfold remove; rw [dif_neg hl]
  split
  · next hk =>
    have hkn : k ≠ [] := by rintro rfl; exact hl (List.prefix_nil.1 hk)
    match hg : (t.remove l).get? k with
    | none => rfl
    | some e =>
      have hm := mem_entries_iff.2 ⟨hkn, hg⟩
      rw [hrem, List.mem_filter] at hm
      simp [hk] at hm
  · next hk =>
    by_cases hkn : k = []
    · subst hkn; simp
    · ext e
      have : (k, e) ∈ (t.remove l).entries ↔ (k, e) ∈ t.entries := by
        rw [hrem, List.mem_filter]; simp [hk]
      rw [mem_entries_iff, mem_entries_iff] at this
      simpa [hkn] using this

end Tree

end PageSplice
