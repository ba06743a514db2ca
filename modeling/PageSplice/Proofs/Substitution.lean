import PageSplice.Proofs.Filling
import Mathlib.Data.List.Basic

/-!
# Filling sections at the same time

`substituted` looks at a page once: where the interior of a section begins it puts the fragment, and
what stands in an interior it leaves out.  Main statement: filling sections whose regions lie apart
one after the other does just that, in whatever order they come, and doing it again changes nothing
(`fillSections_simultaneous`).
-/

namespace PageSplice

open Text

/-- The fragment of a section, where its interior begins. -/
def fragmentAt (page : Text) (k : Nat) (s : Section) : Text :=
  if (regionOf? page s.name).any (·.begins = k) then s.fragment else []

/-- Whether a place of the page stands in the interior of a section. -/
def isInterior (page : Text) (k : Nat) (s : Section) : Bool :=
  (regionOf? page s.name).any fun r => r.begins ≤ k ∧ k < r.ends

/-- A text from a place on, with what is put before some of its characters and without others. -/
def overlay (put : Nat → Text) (drop : Nat → Bool) : Nat → Text → Text
  | _, [] => []
  | k, c :: t => put k ++ (if drop k then [] else [c]) ++ overlay put drop (k + 1) t

/-- The page in which each section's fragment is put in the place of its interior.  An end marker
follows each interior, so no fragment is to be put behind the last character. -/
def substituted (page : Text) (ss : List Section) : Text :=
  overlay (fun k => ss.flatMap (fragmentAt page k)) (fun k => ss.any (isInterior page k)) 0 page

/-! ## Overlays -/

section
variable {put put' : Nat → Text} {drop drop' : Nat → Bool}

theorem overlay_append (k : Nat) (t u : Text) :
    overlay put drop k (t ++ u) = overlay put drop k t ++ overlay put drop (k + t.length) u := by
  induction t generalizing k with
  | nil => simp [overlay]
  | cons c t ih =>
    have hk : k + 1 + t.length = k + (c :: t).length := by simp; omega
    simp only [List.cons_append, overlay, ih, List.append_assoc, hk]

theorem overlay_congr {k k' : Nat} {t : Text} (hput : ∀ j < t.length, put (k + j) = put' (k' + j))
    (hdrop : ∀ j < t.length, drop (k + j) = drop' (k' + j)) :
    overlay put drop k t = overlay put' drop' k' t := by
  induction t generalizing k k' with
  | nil => rfl
  | cons c t ih =>
    have hput₀ := hput 0 (by simp)
    have hdrop₀ := hdrop 0 (by simp)
    have hrest : overlay put drop (k + 1) t = overlay put' drop' (k' + 1) t := by
      apply ih
      · intro j hj
        simpa only [Nat.add_assoc, Nat.add_comm 1] using hput (j + 1) (by simpa using hj)
      · intro j hj
        simpa only [Nat.add_assoc, Nat.add_comm 1] using hdrop (j + 1) (by simpa using hj)
    simp only [Nat.add_zero] at hput₀ hdrop₀
    rw [overlay, overlay, hput₀, hdrop₀, hrest]

theorem overlay_keep {k : Nat} {t : Text} (hput : ∀ j < t.length, put (k + j) = [])
    (hdrop : ∀ j < t.length, drop (k + j) = false) : overlay put drop k t = t := by
  have hkeep : ∀ (k : Nat) (t : Text), overlay (fun _ => []) (fun _ => false) k t = t := by
    intro k t
    induction t generalizing k with
    | nil => rfl
    | cons c t ih => simp [overlay, ih]
  exact (overlay_congr hput hdrop).trans (hkeep k t)

theorem overlay_drop {k : Nat} {t : Text} (hput : ∀ j < t.length, put (k + j) = [])
    (hdrop : ∀ j < t.length, drop (k + j) = true) : overlay put drop k t = [] := by
  have hnil : ∀ (k : Nat) (t : Text), overlay (fun _ => []) (fun _ => true) k t = [] := by
    intro k t
    induction t generalizing k with
    | nil => rfl
    | cons c t ih => simp [overlay, ih]
  exact (overlay_congr hput hdrop).trans (hnil k t)

/-- What is put before the first character stands first. -/
theorem overlay_put (k : Nat) {t : Text} (ht : t ≠ []) :
    overlay put drop k t = put k ++ overlay (fun j => if j = k then [] else put j) drop k t := by
  cases t with
  | nil => exact absurd rfl ht
  | cons c t =>
    have hrest : overlay put drop (k + 1) t =
        overlay (fun j => if j = k then [] else put j) drop (k + 1) t :=
      overlay_congr (fun j _ => by rw [if_neg (by omega)]) fun _ _ => rfl
    simp [overlay, hrest]

/-- An overlay that puts `f` in the place of `i` is one of the text in which `f` stands there. -/
theorem overlay_hole {page x i y f : Text} (hpage : x ++ i ++ y = page) (hy : y ≠ [])
    (hx : ∀ k < x.length, put k = put' k ∧ drop k = drop' k)
    (hf : put x.length = f)
    (hi : ∀ k, x.length ≤ k → k < x.length + i.length →
      drop k = true ∧ (k ≠ x.length → put k = []))
    (hf' : ∀ k, x.length ≤ k → k < x.length + f.length → put' k = [] ∧ drop' k = false)
    (hy' : ∀ k k', x.length + i.length ≤ k → k' + i.length = k + f.length →
      (if k = x.length then [] else put k) = put' k' ∧ drop k = drop' k') :
    overlay put drop 0 page = overlay put' drop' 0 (x ++ f ++ y) := by
  have hhead : overlay put drop 0 x = overlay put' drop' 0 x :=
    overlay_congr (fun j hj => by simpa using (hx j hj).1) fun j hj => by simpa using (hx j hj).2
  have hfrag : overlay put' drop' x.length f = f :=
    overlay_keep (fun j _ => (hf' _ (by omega) (by omega)).1)
      fun j _ => (hf' _ (by omega) (by omega)).2
  have hint : overlay (fun j => if j = x.length then [] else put j) drop x.length i = [] := by
    refine overlay_drop (fun j hj => ?_) fun j hj => (hi _ (by omega) (by omega)).1
    split
    · rfl
    · next hne => exact (hi _ (by omega) (by omega)).2 hne
  have htail : overlay (fun j => if j = x.length then [] else put j) drop (x.length + i.length) y =
      overlay put' drop' (x.length + f.length) y :=
    overlay_congr (fun j _ => (hy' _ _ (by omega) (by omega)).1)
      fun j _ => (hy' _ _ (by omega) (by omega)).2
  have hmid : overlay put drop x.length (i ++ y) =
      f ++ overlay put' drop' (x.length + f.length) y := by
    rw [overlay_put x.length (by simp [hy]), hf, overlay_append, hint, List.nil_append, htail]
  calc overlay put drop 0 page
      = overlay put drop 0 x ++ overlay put drop x.length (i ++ y) := by
        rw [← hpage, List.append_assoc, overlay_append, Nat.zero_add]
    _ = overlay put' drop' 0 x ++ (f ++ overlay put' drop' (x.length + f.length) y) := by
        rw [hhead, hmid]
    _ = overlay put' drop' 0 (x ++ f ++ y) := by
        rw [overlay_append, overlay_append, List.length_append, Nat.zero_add, Nat.zero_add, hfrag,
          List.append_assoc]

end

/-! ## Regions as places -/

theorem fragmentAt_eq {page : Text} {s : Section} (r : Region page s.name) (k : Nat) :
    fragmentAt page k s = if r.begins = k then s.fragment else [] := by
  simp [fragmentAt, r.eq_regionOf?]

theorem isInterior_eq {page : Text} {s : Section} (r : Region page s.name) (k : Nat) :
    isInterior page k s = decide (r.begins ≤ k ∧ k < r.ends) := by
  simp [isInterior, r.eq_regionOf?]

theorem any_congr_of_mem {ss : List Section} {p q : Section → Bool} (h : ∀ s ∈ ss, p s = q s) :
    ss.any p = ss.any q := by
  rw [Bool.eq_iff_iff, List.any_eq_true, List.any_eq_true]
  exact exists_congr fun s => and_congr_right fun hs => by rw [h s hs]

/-- Where no section has a place, nothing is put and nothing dropped. -/
theorem absent_between {page : Text} {ss : List Section} {a b : Nat}
    (h : ∀ u ∈ ss, ∃ q : Region page u.name, q.begins ≤ q.ends ∧ (q.ends < a ∨ b < q.begins))
    {k : Nat} (hk : a ≤ k ∧ k ≤ b) :
    ss.flatMap (fragmentAt page k) = [] ∧ ss.any (isInterior page k) = false := by
  constructor
  · refine List.flatMap_eq_nil_iff.2 fun u hu => ?_
    obtain ⟨q, hq, hpos⟩ := h u hu
    rw [fragmentAt_eq q, if_neg (by omega)]
  · refine List.any_eq_false.2 fun u hu => ?_
    obtain ⟨q, hq, hpos⟩ := h u hu
    rw [isInterior_eq q, decide_eq_true_eq]
    omega

section
variable {page : Text} {s : Section} {rest : List Section} (h : LaidOut page (s :: rest))
  (hss : Harmless (s :: rest)) (r : Region page s.name) {i : Text} (hi : r.head ++ i ++ r.tail = page)
include h hss r hi

/-- The interior of another section lies before the region, and stays, or behind it, and moves along. -/
theorem exists_places {u : Section} (hu : u ∈ rest) :
    ∃ (q : Region page u.name) (q' : Region (r.filled s.fragment) u.name),
      q.begins ≤ q.ends ∧
        (q.ends < r.head.length ∧ q'.begins = q.begins ∧ q'.ends = q.ends ∨
          r.head.length + i.length < q.begins ∧
            q'.begins + i.length = q.begins + s.fragment.length ∧
            q'.ends + i.length = q.ends + s.fragment.length) := by
  have hu' : u ∈ s :: rest := List.mem_cons_of_mem _ hu
  obtain ⟨q⟩ := h.placed u hu'
  obtain ⟨q', hstart, hstop⟩ := h.exists_moved hss (List.mem_cons_self ..) hu' r hi q
  refine ⟨q, q', q.begins_le_ends, ?_⟩
  have hends : r.head.length + i.length = r.ends := by
    rw [r.length_head]; exact Region.begins_add_length hi
  have hbegins : r.opens < r.head.length := by rw [r.length_head]; exact r.opens_lt_begins
  have hcloses := r.ends_lt_closes
  have hq₁ : q.start.start < q.start.stop := q.opens_lt_begins
  have hq₂ : q.start.stop ≤ q.stop.start := q.begins_le_ends
  have hq₃ : q.stop.start < q.stop.stop := q.ends_lt_closes
  rcases (List.pairwise_cons.1 h.apart).1 u hu r q with hapart | hapart
  · have hapart : r.closes ≤ q.start.start := hapart
    right
    obtain ⟨-, -, hle⟩ | ⟨-, -, hstart⟩ := hstart.positions
    · omega
    · obtain ⟨-, -, hle⟩ | ⟨-, hstop, -⟩ := hstop.positions
      · omega
      · exact ⟨by show _ < q.start.stop; omega, hstart, hstop⟩
  · have hapart : q.stop.stop ≤ r.opens := hapart
    left
    obtain ⟨-, hstart, -⟩ | ⟨hle, -⟩ := hstart.positions
    · obtain ⟨hstop, -⟩ | ⟨hle, -⟩ := hstop.positions
      · exact ⟨by show q.stop.start < _; omega, hstart, hstop⟩
      · omega
    · omega

/-- Before the region and behind it the other sections are where they were. -/
theorem others_moved {k k' : Nat}
    (hk : k < r.head.length ∧ k' = k ∨
      r.head.length + i.length ≤ k ∧ k' + i.length = k + s.fragment.length) :
    rest.flatMap (fragmentAt page k) = rest.flatMap (fragmentAt (r.filled s.fragment) k') ∧
      rest.any (isInterior page k) = rest.any (isInterior (r.filled s.fragment) k') := by
  constructor
  · refine List.flatMap_congr fun u hu => ?_
    obtain ⟨q, q', hq, hpos⟩ := exists_places h hss r hi hu
    rw [fragmentAt_eq q, fragmentAt_eq q']
    congr 1
    exact propext (by omega)
  · refine any_congr_of_mem fun u hu => ?_
    obtain ⟨q, q', hq, hpos⟩ := exists_places h hss r hi hu
    rw [isInterior_eq q, isInterior_eq q']
    congr 1
    exact propext (by omega)

/-- Filling the first section at once, and then the others in the result, is the same as all at
once. -/
theorem substituted_cons :
    substituted page (s :: rest) = substituted (r.filled s.fragment) rest := by
  have hput : ∀ k, (s :: rest).flatMap (fragmentAt page k) =
      (if r.head.length = k then s.fragment else []) ++ rest.flatMap (fragmentAt page k) := by
    intro k
    rw [List.flatMap_cons, fragmentAt_eq r, r.length_head]
  have hdrop : ∀ k, (s :: rest).any (isInterior page k) =
      (decide (r.head.length ≤ k ∧ k < r.head.length + i.length) ||
        rest.any (isInterior page k)) := by
    intro k
    rw [List.any_cons, isInterior_eq r, r.length_head, Region.begins_add_length hi]
  have hnone : ∀ k, r.head.length ≤ k ∧ k ≤ r.head.length + i.length →
      rest.flatMap (fragmentAt page k) = [] ∧ rest.any (isInterior page k) = false := by
    refine fun k hk => absent_between (fun u hu => ?_) hk
    obtain ⟨q, q', hq, hpos⟩ := exists_places h hss r hi hu
    exact ⟨q, hq, by omega⟩
  have hnone' : ∀ k, r.head.length ≤ k ∧ k ≤ r.head.length + s.fragment.length →
      rest.flatMap (fragmentAt (r.filled s.fragment) k) = [] ∧
        rest.any (isInterior (r.filled s.fragment) k) = false := by
    refine fun k hk => absent_between (fun u hu => ?_) hk
    obtain ⟨q, q', hq, hpos⟩ := exists_places h hss r hi hu
    exact ⟨q', by omega, by omega⟩
  have htail : r.tail ≠ [] := by
    have hopened := r.head?_tail
    rintro hnil
    simp [hnil] at hopened
  -- page and result share the head and the tail; between them stand the interior and the fragment
  refine overlay_hole hi htail (fun k hk => ?_) ?_ (fun k hk hk' => ⟨?_, fun hne => ?_⟩)
    (fun k hk hk' => hnone' k ⟨hk, by omega⟩) fun k k' hk hk' => ?_
  · simp only [hput, hdrop]
    obtain ⟨h₁, h₂⟩ := others_moved h hss r hi (.inl ⟨hk, rfl⟩)
    rw [if_neg (by omega), h₁, h₂, decide_eq_false (by omega)]
    exact ⟨rfl, rfl⟩
  · simp only [hput]
    rw [if_pos trivial, (hnone _ ⟨by omega, by omega⟩).1, List.append_nil]
  · simp only [hdrop]
    rw [decide_eq_true ⟨hk, hk'⟩, Bool.true_or]
  · simp only [hput]
    rw [if_neg (Ne.symm hne), (hnone k ⟨hk, by omega⟩).1]
    rfl
  · simp only [hput, hdrop]
    obtain ⟨h₁, h₂⟩ := others_moved h hss r hi (.inr ⟨hk, hk'⟩)
    rw [decide_eq_false (by omega), Bool.false_or, h₂]
    refine ⟨?_, rfl⟩
    split
    · exact (hnone' k' ⟨by omega, by omega⟩).1.symm
    · next hne => rw [if_neg (Ne.symm hne), h₁, List.nil_append]

end

/-! ## One after the other -/

theorem Harmless.tail {s : Section} {rest : List Section} (h : Harmless (s :: rest)) :
    Harmless rest :=
  ⟨fun u hu => h.closed u (List.mem_cons_of_mem _ hu),
    fun u hu v hv => h.clean u (List.mem_cons_of_mem _ hu) v (List.mem_cons_of_mem _ hv)⟩

theorem Harmless.perm {ss us : List Section} (h : Harmless ss) (hus : us.Perm ss) : Harmless us :=
  ⟨fun u hu => h.closed u (hus.mem_iff.1 hu),
    fun u hu v hv => h.clean u (hus.mem_iff.1 hu) v (hus.mem_iff.1 hv)⟩

theorem LaidOut.tail {page : Text} {s : Section} {rest : List Section}
    (h : LaidOut page (s :: rest)) : LaidOut page rest :=
  ⟨fun u hu => h.placed u (List.mem_cons_of_mem _ hu), (List.pairwise_cons.1 h.apart).2⟩

theorem LaidOut.perm {page : Text} {ss us : List Section} (h : LaidOut page ss)
    (hus : us.Perm ss) : LaidOut page us :=
  ⟨fun u hu => h.placed u (hus.mem_iff.1 hu), h.apart.perm hus.symm Apart.symm⟩

theorem fillSections_eq_substituted {page : Text} {ss : List Section} (hss : Harmless ss)
    (h : LaidOut page ss) : fillSections page ss = .ok (substituted page ss) := by
  induction ss generalizing page with
  | nil => exact congrArg Except.ok (overlay_keep (fun _ _ => rfl) fun _ _ => rfl).symm
  | cons s rest ih =>
    have hs : s ∈ s :: rest := List.mem_cons_self ..
    obtain ⟨r⟩ := h.placed s hs
    obtain ⟨i, hi⟩ := r.exists_interior
    rw [fillSections_cons_eq_ok_iff]
    refine ⟨r, ?_⟩
    rw [substituted_cons h hss r hi]
    exact ih hss.tail (h.filled hss hs r).tail

/-- Interiors that lie apart do not begin at one place. -/
theorem fragmentAt_comm {page : Text} {s u : Section} (r : Region page s.name)
    (q : Region page u.name) (h : Apart page s u) (k : Nat) (acc : Text) :
    fragmentAt page k u ++ (fragmentAt page k s ++ acc) =
      fragmentAt page k s ++ (fragmentAt page k u ++ acc) := by
  have := h r q
  have := r.opens_lt_begins
  have := r.begins_le_ends
  have := r.ends_lt_closes
  have := q.opens_lt_begins
  have := q.begins_le_ends
  have := q.ends_lt_closes
  rw [fragmentAt_eq r, fragmentAt_eq q]
  by_cases hr : r.begins = k
  · rw [if_neg (show ¬ q.begins = k by omega), List.nil_append, List.nil_append]
  · rw [if_neg hr, List.nil_append, List.nil_append]

/-- No two of the fragments are put at one place, so the order of the sections does not matter. -/
theorem substituted_perm {page : Text} {ss us : List Section} (h : LaidOut page ss)
    (hus : us.Perm ss) : substituted page us = substituted page ss := by
  have hput : ∀ k, us.flatMap (fragmentAt page k) = ss.flatMap (fragmentAt page k) := by
    intro k
    have hfold : ∀ l : List Section, l.flatMap (fragmentAt page k) =
        l.foldr (fun s acc => fragmentAt page k s ++ acc) [] := by
      intro l
      induction l with
      | nil => rfl
      | cons s l ih => rw [List.flatMap_cons, List.foldr_cons, ih]
    have hcomm : ∀ s ∈ us, ∀ u ∈ us, ∀ acc, fragmentAt page k u ++ (fragmentAt page k s ++ acc) =
        fragmentAt page k s ++ (fragmentAt page k u ++ acc) := by
      intro s hs u hu
      have h := h.perm hus
      refine List.Pairwise.forall_of_forall_of_flip
        (R := fun s u => ∀ acc, fragmentAt page k u ++ (fragmentAt page k s ++ acc) =
          fragmentAt page k s ++ (fragmentAt page k u ++ acc))
        (fun _ _ _ => rfl) (h.apart.imp_of_mem fun {s u} hs hu hsu => ?_)
        (h.apart.imp_of_mem fun {s u} hs hu hsu => ?_) hs hu
      all_goals
        obtain ⟨r⟩ := h.placed s hs
        obtain ⟨q⟩ := h.placed u hu
      · exact fragmentAt_comm r q hsu k
      · exact fragmentAt_comm q r hsu.symm k
    rw [hfold, hfold, hus.foldr_eq' hcomm]
  have hdrop : ∀ k, us.any (isInterior page k) = ss.any (isInterior page k) :=
    fun k => hus.any_eq
  simp only [substituted, hput, hdrop]

/-- Sections whose regions lie apart can be filled in any order: each order puts every fragment in the
place of its interior and keeps all else, and filling them again changes nothing. -/
theorem fillSections_simultaneous {page : Text} {ss us : List Section} (hss : Inert ss)
    (h : LaidOut page ss) (hus : us.Perm ss) :
    fillSections page us = .ok (substituted page ss) ∧
      fillSections (substituted page ss) us = .ok (substituted page ss) := by
  have hus' : Harmless us := hss.harmless.perm hus
  have hok : fillSections page us = .ok (substituted page ss) := by
    rw [fillSections_eq_substituted hus' (h.perm hus), substituted_perm h hus]
  refine ⟨hok, fillSections_again hus' (h.perm hus).nodup ?_ hok⟩
  exact (h.perm hus).undisturbed hus' (by simp) (fun _ hs => hs)

/-- The section that comes first in the page is filled last, and a later start marker stays. -/
theorem fillSections_simultaneous_two :
    let page := "<!--B-->old<!-- /B --><!-- A --><!--/A-->|<!--A-->".toList
    let a : Section := ⟨"A".toList, "<p>".toList, by decide⟩
    let b : Section := ⟨"B".toList, "<!--C-->".toList, by decide⟩
    let result := "<!--B--><!--C--><!-- /B --><!-- A --><p><!--/A-->|<!--A-->".toList
    Inert [a, b] ∧ LaidOut page [a, b] ∧ [b, a].Perm [a, b] ∧ substituted page [a, b] = result ∧
      fillSections page [b, a] = .ok result ∧ fillSections result [b, a] = .ok result := by
  intro page a b result
  have hss : Inert [a, b] := by decide
  have h : LaidOut page [a, b] := by decide
  have hperm : [b, a].Perm [a, b] := .swap a b []
  have hresult : substituted page [a, b] = result := by decide
  obtain ⟨honce, hagain⟩ := fillSections_simultaneous hss h hperm
  rw [hresult] at honce hagain
  exact ⟨hss, h, hperm, hresult, honce, hagain⟩

end PageSplice
