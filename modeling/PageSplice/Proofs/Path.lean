import PageSplice.Path

/-!
# Parents and their names

What a path and its parent have in common: the parent is a prefix of the path
(`isPrefix_of_parent?`), a look-up of the path takes further steps behind those of the parent
(`steps_of_parent?`), and the path has one more name than the parent (`names_of_parent?`).  A path
joined to another one takes the steps of both (`steps_join`).
-/

namespace PageSplice.Path

/-- The segments that name something; a step up is one of them. -/
def names (p : Path) : List Text := (segments p).filter (!isFiller ·)

theorem dropFinalFillers_spec (ss : List Text) :
    ∃ m, ss = dropFinalFillers ss ++ m ∧ (∀ s ∈ m, isFiller s = true) ∧
      ∀ s, (dropFinalFillers ss).getLast? = some s → isFiller s = false := by
  refine ⟨(ss.reverse.takeWhile isFiller).reverse, ?_, fun s hs => ?_, fun s hs => ?_⟩
  · rw [dropFinalFillers, ← List.reverse_append, List.takeWhile_append_dropWhile,
      List.reverse_reverse]
  · exact List.all_eq_true.1 List.all_takeWhile s (List.mem_reverse.1 hs)
  · have hhead := List.head?_dropWhile_not isFiller ss.reverse
    rw [dropFinalFillers, List.getLast?_reverse] at hs
    rw [hs] at hhead
    simpa using hhead

/-- A parent is what stands before the last name, without fillers at its end. -/
theorem exists_of_parent? {p q : Path} (h : parent? p = some q) :
    ∃ first rest, segments p = first :: rest ∧
      ((q = [] ∧ first ≠ [] ∧ ∀ s ∈ rest, isFiller s = true) ∨
        ∃ keep k last m, rest = keep ++ (k ++ last :: m) ∧ (∀ s ∈ k, isFiller s = true) ∧
          isFiller last = false ∧ (∀ s ∈ m, isFiller s = true) ∧
          q = ofSegments (first :: keep)) := by
  unfold parent? at h
  cases hs : segments p with
  | nil => exact absurd hs (segments_ne_nil p)
  | cons first rest =>
    refine ⟨first, rest, rfl, ?_⟩
    rw [hs] at h
    obtain ⟨m, hm, hfill, hlast⟩ := dropFinalFillers_spec rest
    cases hn : dropFinalFillers rest with
    | nil =>
      simp only [hn] at h
      split at h
      · cases h
      · next hf =>
        cases h
        rw [hn, List.nil_append] at hm
        exact .inl ⟨rfl, hf, hm ▸ hfill⟩
    | cons n ns =>
      simp only [hn] at h
      cases h
      obtain ⟨k, hk, hkfill, -⟩ := dropFinalFillers_spec (n :: ns).dropLast
      have hsplit := List.dropLast_concat_getLast (List.cons_ne_nil n ns)
      refine .inr ⟨_, k, (n :: ns).getLast (by simp), m, ?_, hkfill, ?_, hfill, rfl⟩
      · calc rest = (n :: ns).dropLast ++ [(n :: ns).getLast (by simp)] ++ m := by
              rw [hsplit, ← hn, ← hm]
          _ = _ := by conv => lhs; rw [hk]
                      simp
      · exact hlast _ (by rw [hn]; exact List.getLast?_eq_some_getLast (by simp))

theorem intercalate_append {xs ys : List Text} (hx : xs ≠ []) (hy : ys ≠ []) :
    ['/'].intercalate (xs ++ ys) = ['/'].intercalate xs ++ '/' :: ['/'].intercalate ys := by
  match xs, ys with
  | [x], y :: ys => simp
  | x :: x' :: xs, ys =>
    have ih := intercalate_append (List.cons_ne_nil x' xs) hy
    simp only [List.cons_append, List.intercalate_cons_cons] at ih ⊢
    rw [ih]
    simp

/-- Segments put together again, but for the second empty one of the root. -/
theorem segments_ofSegments {ss : List Text} (h : ∀ s ∈ ss, '/' ∉ s) (hne : ss ≠ []) :
    segments (ofSegments ss) = ss ∨ ss = [[]] ∧ segments (ofSegments ss) = [[], []] := by
  unfold ofSegments
  split
  · exact .inr ⟨rfl, by decide⟩
  · exact .inl (List.splitOn_intercalate '/' h hne)

theorem isPrefix_of_parent? {p q : Path} (h : parent? p = some q) : q <+: p := by
  obtain ⟨first, rest, hs, ⟨rfl, -⟩ | ⟨keep, k, last, m, rfl, -, -, -, rfl⟩⟩ := exists_of_parent? h
  · exact List.nil_prefix
  · have hp := intercalate_segments p
    rw [hs, ← List.cons_append, intercalate_append (by simp) (by simp)] at hp
    unfold ofSegments
    split
    · next heq =>
      rw [heq] at hp
      exact ⟨_, hp⟩
    · exact ⟨_, hp⟩

theorem isAbsolute_of_parent? {p q : Path} (h : parent? p = some q) (hq : q ≠ []) :
    isAbsolute q = isAbsolute p := by
  obtain ⟨m, rfl⟩ := isPrefix_of_parent? h
  cases q with
  | nil => exact absurd rfl hq
  | cons c q => rfl

/-- The segments of a parent that is not empty, but for empty ones, come first in the path; from
those behind them one name is left. -/
theorem segments_of_parent? {p q : Path} (h : parent? p = some q) (hq : q ≠ []) :
    ∃ keep k last m, segments p = keep ++ (k ++ last :: m) ∧
      (segments q).filter (· ≠ []) = keep.filter (· ≠ []) ∧ (∀ s ∈ k, isFiller s = true) ∧
      isFiller last = false ∧ ∀ s ∈ m, isFiller s = true := by
  obtain ⟨first, rest, hs, ⟨rfl, -⟩ | ⟨keep, k, last, m, rfl, hk, hlast, hm, rfl⟩⟩ :=
    exists_of_parent? h
  · exact absurd rfl hq
  · refine ⟨first :: keep, k, last, m, hs, ?_, hk, hlast, hm⟩
    have hslash : ∀ s ∈ first :: keep, '/' ∉ s := fun s hmem =>
      not_mem_of_mem_segments (p := p) (by rw [hs]; exact List.mem_append_left _ hmem)
    obtain hseg | ⟨hnil, hseg⟩ := segments_ofSegments hslash (by simp)
    · rw [hseg]
    · rw [hseg, hnil]
      rfl

theorem filter_steps (p : Path) :
    (steps p).filter (· ≠ []) = (segments p).filter (· ≠ []) := by
  conv => rhs; rw [← List.dropLast_concat_getLast (segments_ne_nil p)]
  rw [steps, List.getLast?_eq_some_getLast (segments_ne_nil p)]
  simp

/-- A path's steps are its segments but for empty ones, and one more if it ends in a slash. -/
theorem steps_eq_or (p : Path) :
    steps p = (steps p).filter (· ≠ []) ∨ steps p = (steps p).filter (· ≠ []) ++ [[]] := by
  rw [filter_steps]
  conv => lhs; rhs; rw [← List.dropLast_concat_getLast (segments_ne_nil p)]
  conv => rhs; rhs; rw [← List.dropLast_concat_getLast (segments_ne_nil p)]
  rw [steps, List.getLast?_eq_some_getLast (segments_ne_nil p)]
  by_cases h : (segments p).getLast (segments_ne_nil p) = []
  · right; simp [h]
  · left; simp [h]

theorem steps_of_parent? {p q : Path} (h : parent? p = some q) (hq : q ≠ []) :
    ∃ ys, ys ≠ [] ∧ steps p = (steps q).filter (· ≠ []) ++ ys := by
  obtain ⟨keep, k, last, m, hs, hq', -⟩ := segments_of_parent? h hq
  have hne : k ++ last :: m ≠ [] := by simp
  refine ⟨(k ++ last :: m).dropLast.filter (· ≠ []) ++ (k ++ last :: m).getLast?.toList, ?_, ?_⟩
  · rw [List.getLast?_eq_some_getLast hne]
    simp
  · rw [filter_steps, hq', steps, hs, List.dropLast_append_of_ne_nil hne, List.filter_append,
      List.getLast?_append, List.getLast?_eq_some_getLast hne, Option.some_or, List.append_assoc]

theorem filter_names (ss : List Text) :
    (ss.filter (· ≠ [])).filter (!isFiller ·) = ss.filter (!isFiller ·) := by
  rw [List.filter_filter]
  congr 1
  funext s
  cases s <;> simp [isFiller]

theorem filter_steps_eq_names (p : Path) : (steps p).filter (!isFiller ·) = names p := by
  rw [← filter_names, filter_steps, filter_names, names]

theorem names_of_parent? {p q : Path} (h : parent? p = some q) (hq : q ≠ []) :
    ∃ n, names p = names q ++ [n] := by
  obtain ⟨keep, k, last, m, hs, hq', hk, hlast, hm⟩ := segments_of_parent? h hq
  have hfill : ∀ {xs : List Text}, (∀ s ∈ xs, isFiller s = true) →
      xs.filter (!isFiller ·) = [] := by
    intro xs hxs
    rw [List.filter_eq_nil_iff]
    exact fun s hs => by simp [hxs s hs]
  have hnames : names q = keep.filter (!isFiller ·) := by
    rw [names, ← filter_names, hq', filter_names]
  refine ⟨last, ?_⟩
  rw [hnames, names, hs, List.filter_append, List.filter_append, hfill hk, List.filter_cons, hlast,
    hfill hm]
  rfl

theorem ancestors_nil : ancestors [] = [[]] := by
  rw [ancestors]
  split
  · rfl
  · next h =>
    rw [show parent? [] = none by decide] at h
    cases h

/-- What is left as names are cut off starts where the path does, with the same names. -/
theorem names_of_mem_ancestors {p q : Path} (h : q ∈ ancestors p) (hq : q ≠ []) :
    isAbsolute q = isAbsolute p ∧ names q <+: names p := by
  rw [ancestors] at h
  split at h
  · rw [List.mem_singleton.1 h]
    exact ⟨rfl, List.prefix_rfl⟩
  · next p' hp =>
    rcases List.mem_cons.1 h with rfl | h
    · exact ⟨rfl, List.prefix_rfl⟩
    · have hlen := length_of_parent? hp
      obtain ⟨habs, hnames⟩ := names_of_mem_ancestors h hq
      have hp' : p' ≠ [] := by
        rintro rfl
        rw [ancestors_nil] at h
        exact hq (List.mem_singleton.1 h)
      obtain ⟨n, hn⟩ := names_of_parent? hp hp'
      exact ⟨habs.trans (isAbsolute_of_parent? hp hp'), hn ▸ hnames.trans (List.prefix_append ..)⟩
termination_by p.length

/-! ## Joined paths -/

theorem segments_append_slash (p q : Path) : segments (p ++ '/' :: q) = segments p ++ segments q := by
  have h : p ++ '/' :: q = ['/'].intercalate (segments p ++ segments q) := by
    rw [intercalate_append (segments_ne_nil p) (segments_ne_nil q), intercalate_segments,
      intercalate_segments]
  rw [h]
  refine List.splitOn_intercalate '/' (fun s hs => ?_) (by simp [segments_ne_nil])
  rcases List.mem_append.1 hs with hs | hs
  · exact not_mem_of_mem_segments hs
  · exact not_mem_of_mem_segments hs

/-- Between a path and one that is joined to it stands one slash. -/
theorem exists_of_join {p q : Path} (hp : p ≠ []) (hq : isAbsolute q = false) :
    ∃ p', join p q = p' ++ '/' :: q ∧ (p = p' ∨ p = p' ++ ['/']) := by
  rw [join, if_neg (by simp [hq])]
  by_cases h : p = [] ∨ p.getLast? = some '/'
  · rw [if_pos h]
    obtain ⟨p', rfl⟩ := List.getLast?_eq_some_iff.1 (h.resolve_left hp)
    exact ⟨p', by simp, .inr rfl⟩
  · rw [if_neg h]
    exact ⟨p, rfl, .inl rfl⟩

theorem join_ne_nil {p : Path} (hp : p ≠ []) (q : Path) : join p q ≠ [] := by
  rw [join]
  split
  · rintro rfl
    contradiction
  · split <;> simp [hp]

/-- A name joined to a path is one more component. -/
theorem components_join {p : Path} {n : Text} (hp : p ≠ []) (hslash : '/' ∉ n)
    (hn : isFiller n = false) : components (join p n) = components p ++ [n] := by
  have habs : isAbsolute n = false := by
    cases n with
    | nil => rfl
    | cons c n =>
      rw [List.mem_cons, not_or] at hslash
      simpa [isAbsolute] using Ne.symm hslash.1
  have hseg : segments n = [n] := by
    have hone : ∀ s ∈ [n], '/' ∉ s := by simpa
    simpa [segments] using List.splitOn_intercalate '/' hone (by simp)
  obtain ⟨p', hjoin, heq⟩ := exists_of_join hp habs
  obtain ⟨first, rest, hp'⟩ := List.exists_cons_of_ne_nil (segments_ne_nil p')
  have hcomponents : components (p' ++ '/' :: n) =
      (if first = [] then [['/']] else [first]) ++ (rest.filter (!isFiller ·) ++ [n]) := by
    simp [components, segments_append_slash, hp', hseg, hn]
  rw [hjoin, hcomponents, ← List.append_assoc]
  congr 1
  rcases heq with rfl | rfl
  · by_cases hfirst : first = []
    · -- the path begins with a slash, so something follows the empty first segment
      have hrest : rest ≠ [] := by
        rintro rfl
        have := intercalate_segments p
        rw [hp', hfirst] at this
        exact hp (by simpa using this.symm)
      simp [components, hp', hfirst, hrest]
    · simp [components, hp', hfirst]
  · have hnil : segments [] = [[]] := by simp [segments]
    simp [components, segments_append_slash, hp', hnil, isFiller]

end PageSplice.Path
