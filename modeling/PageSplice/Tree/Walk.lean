import PageSplice.Tree.Access

/-!
# Walking a directory

The entries below a directory, each by the names that lead to it from there.  They come in the order
of these names, so a directory is entered where it stands among its neighbours.  Links are not
followed.  Main statements: what is listed stands there (`mem_below`), each name list once and in
strictly increasing order (`below_sorted`).
-/

namespace PageSplice.Tree

/-- What stands below a directory, with the names that lead to it. -/
def below (t : Tree) (d : Location) : List (Location × Entry) :=
  (t.entries.filter fun x => d <+: x.1 ∧ x.1 ≠ d).map fun x => (x.1.drop d.length, x.2)

/-- A path with names put behind it, one after the other. -/
def under (p : Path) (ns : Location) : Path := ns.foldl Path.join p

/-! ## What is listed -/

theorem mem_below {t : Tree} {d ns : Location} {e : Entry} :
    (ns, e) ∈ t.below d ↔ ns ≠ [] ∧ t.get? (d ++ ns) = some e := by
  simp only [below, List.mem_map, List.mem_filter, decide_eq_true_eq, Prod.exists, Prod.mk.injEq]
  constructor
  · rintro ⟨l, x, ⟨hm, ⟨m, rfl⟩, hne⟩, rfl, rfl⟩
    rw [List.drop_left]
    exact ⟨by rintro rfl; simp at hne, (mem_entries_iff.1 hm).2⟩
  · rintro ⟨hne, hg⟩
    exact ⟨d ++ ns, e, ⟨mem_entries_iff.2 ⟨by simp [hne], hg⟩, ⟨ns, rfl⟩, by simpa using hne⟩,
      List.drop_left, rfl⟩

theorem append_lt_append_iff {d a b : Location} : d ++ a < d ++ b ↔ a < b := by
  induction d with
  | nil => rfl
  | cons n d ih => simp [ih]

theorem below_sorted (t : Tree) (d : Location) : (t.below d).Pairwise (fun a b => a.1 < b.1) := by
  unfold below
  rw [List.pairwise_map]
  refine (t.sorted.filter _).imp_of_mem fun {a b} ha hb hab => ?_
  obtain ⟨m, hm⟩ := (by simpa using (List.mem_filter.1 ha).2 : d <+: a.1 ∧ a.1 ≠ d).1
  obtain ⟨k, hk⟩ := (by simpa using (List.mem_filter.1 hb).2 : d <+: b.1 ∧ b.1 ≠ d).1
  rw [← hm, ← hk] at hab ⊢
  simpa using append_lt_append_iff.1 hab

end PageSplice.Tree
