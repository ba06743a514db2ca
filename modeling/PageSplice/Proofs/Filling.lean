import PageSplice.Proofs.Region

/-!
# Filling several sections

Sections are filled one after the other, each in the result of the last.  `Undisturbed` says that no
section, when its turn comes, takes a marker away from one that was filled before it; then in the
end all are settled, and filling them again changes nothing (`fillSections_again`).  Sections whose
regions lie apart in a page stay apart and are undisturbed (`LaidOut.filled`,
`LaidOut.undisturbed`).
-/

namespace PageSplice

open Text

/-- Names without angle brackets, and fragments that hold no marker of any of the sections. -/
structure Inert (ss : List Section) : Prop where
  plain : ∀ s ∈ ss, IsPlain s.name
  clean : ∀ s ∈ ss, ∀ u ∈ ss, ¬ HoldsMarker u.name s.fragment

instance (ss : List Section) : Decidable (Inert ss) :=
  decidable_of_iff ((∀ s ∈ ss, IsPlain s.name) ∧ ∀ s ∈ ss, ∀ u ∈ ss, ¬ HoldsMarker u.name s.fragment)
    ⟨fun h => ⟨h.1, h.2⟩, fun h => ⟨h.1, h.2⟩⟩

/-- Names without `>`, and fragments in which no marker of any of the sections begins. -/
structure Harmless (ss : List Section) : Prop where
  closed : ∀ s ∈ ss, '>' ∉ s.name
  clean : ∀ s ∈ ss, ∀ u ∈ ss, ¬ BeginsMarker u.name s.fragment

theorem Inert.harmless {ss : List Section} (h : Inert ss) : Harmless ss :=
  ⟨fun s hs => (h.plain s hs).2, fun s hs u hu hm =>
    h.clean s hs u hu ((beginsMarker_iff_holdsMarker (h.plain u hu)).1 hm)⟩

/-- While some sections are filled one after the other, none has a first marker of one before it
between its own markers; `done` are the sections before them. -/
def Undisturbed (done : List Section) (page : Text) : List Section → Prop
  | [] => True
  | s :: rest => ∀ r : Region page s.name,
    (∀ d ∈ done, ∀ q : Region page d.name, r.Spares q.start ∧ r.Spares q.stop) ∧
      Undisturbed (s :: done) (r.filled s.fragment) rest

instance decidableUndisturbed :
    ∀ (done : List Section) (page : Text) (ss : List Section), Decidable (Undisturbed done page ss)
  | _, _, [] => .isTrue trivial
  | done, page, s :: rest =>
    match h : regionOf? page s.name with
    | none => .isTrue fun r => by rw [r.eq_regionOf?] at h; cases h
    | some r =>
      have := decidableUndisturbed (s :: done) (r.filled s.fragment) rest
      decidable_of_iff ((∀ d ∈ done, ∀ q ∈ regionOf? page d.name,
          r.Spares q.start ∧ r.Spares q.stop) ∧ Undisturbed (s :: done) (r.filled s.fragment) rest)
        ⟨fun h r' => r'.eq r ▸ ⟨fun d hd q => h.1 d hd q q.eq_regionOf?, h.2⟩,
          fun h' => ⟨fun d hd q _ => (h' r).1 d hd q, (h' r).2⟩⟩

theorem fillSections_of_settled {page : Text} {ss : List Section} (h : ∀ s ∈ ss, Settled page s) :
    fillSections page ss = .ok page := by
  induction ss with
  | nil => rfl
  | cons s rest ih =>
    rw [fillSections_cons, show fillSection page s.name s.fragment = .ok page from
      h s (List.mem_cons_self ..)]
    exact ih fun u hu => h u (List.mem_cons_of_mem _ hu)

theorem fillSections_cons_eq_ok_iff {page page' : Text} {s : Section} {rest : List Section} :
    fillSections page (s :: rest) = .ok page' ↔
      ∃ r : Region page s.name, fillSections (r.filled s.fragment) rest = .ok page' := by
  rw [fillSections_cons]
  constructor
  · intro h
    cases hs : fillSection page s.name s.fragment with
    | error e => rw [hs] at h; cases h
    | ok mid =>
      obtain ⟨r, rfl⟩ := fillSection_eq_ok_iff.1 hs
      rw [hs] at h
      exact ⟨r, h⟩
  · rintro ⟨r, h⟩
    rw [fillSection_eq_ok_iff.2 ⟨r, rfl⟩]
    exact h

/-- What was settled stays settled, and what is filled becomes settled. -/
theorem settled_of_fillSections {all : List Section} (hall : Harmless all) {done ss : List Section}
    {page page' : Text} (hdone : ∀ d ∈ done, d ∈ all ∧ Settled page d) (hss : ∀ s ∈ ss, s ∈ all)
    (hnames : ((done ++ ss).map (·.name)).Nodup) (h : Undisturbed done page ss)
    (hok : fillSections page ss = .ok page') : ∀ s ∈ done ++ ss, Settled page' s := by
  induction ss generalizing done page with
  | nil =>
    cases hok
    intro s hs
    exact (hdone s (by simpa using hs)).2
  | cons s rest ih =>
    obtain ⟨r, hok⟩ := fillSections_cons_eq_ok_iff.1 hok
    obtain ⟨hspares, h⟩ := h r
    have hs := hss s (List.mem_cons_self ..)
    have hperm : (done ++ s :: rest).Perm (s :: done ++ rest) := List.perm_middle
    have hnames' := (hperm.map (·.name)).nodup_iff.1 hnames
    have hdone' : ∀ d ∈ s :: done, d ∈ all ∧ Settled (r.filled s.fragment) d := by
      intro d hd
      rcases List.mem_cons.1 hd with rfl | hd
      · exact ⟨hs, r.settled_filled (hall.closed _ hs) (not_or.1 (hall.clean _ hs _ hs)).2⟩
      · obtain ⟨hda, hset⟩ := hdone d hd
        have hne : d.name ≠ s.name := by
          rintro heq
          simp only [List.cons_append, List.map_cons, List.nodup_cons, List.mem_map] at hnames'
          exact hnames'.1 ⟨d, List.mem_append_left _ hd, heq⟩
        exact ⟨hda, hset.filled r (hall.closed _ hda) (hall.closed _ hs) hne (hspares d hd)
          (hall.clean _ hda _ hs) (hall.clean _ hs _ hda)⟩
    intro u hu
    exact ih hdone' (fun u hu => hss u (List.mem_cons_of_mem _ hu)) hnames' h hok u
      (hperm.mem_iff.1 hu)

/-- Filling undisturbed sections again changes nothing. -/
theorem fillSections_again {page page' : Text} {ss : List Section} (hss : Harmless ss)
    (hnames : (ss.map (·.name)).Nodup) (h : Undisturbed [] page ss)
    (hok : fillSections page ss = .ok page') : fillSections page' ss = .ok page' :=
  fillSections_of_settled
    (settled_of_fillSections hss (fun _ hd => absurd hd List.not_mem_nil) (fun _ hs => hs) hnames h
      hok)

/-! ## Regions that lie apart -/

/-- Two sections whose regions have no place of the page in common. -/
def Apart (page : Text) (s u : Section) : Prop :=
  ∀ (r : Region page s.name) (q : Region page u.name), r.closes ≤ q.opens ∨ q.closes ≤ r.opens

/-- Each section has a region in the page, and these lie apart. -/
structure LaidOut (page : Text) (ss : List Section) : Prop where
  placed : ∀ s ∈ ss, Nonempty (Region page s.name)
  apart : ss.Pairwise (Apart page)

instance (page : Text) (s u : Section) : Decidable (Apart page s u) :=
  decidable_of_iff (∀ r ∈ regionOf? page s.name, ∀ q ∈ regionOf? page u.name,
      r.closes ≤ q.opens ∨ q.closes ≤ r.opens)
    ⟨fun h r q => h r r.eq_regionOf? q q.eq_regionOf?, fun h r _ q _ => h r q⟩

instance (page : Text) (ss : List Section) : Decidable (LaidOut page ss) :=
  decidable_of_iff ((∀ s ∈ ss, Nonempty (Region page s.name)) ∧ ss.Pairwise (Apart page))
    ⟨fun h => ⟨h.1, h.2⟩, fun h => ⟨h.1, h.2⟩⟩

theorem Apart.symm {page : Text} {s u : Section} (h : Apart page s u) : Apart page u s :=
  fun q r => (h r q).symm

namespace Region

variable {page : Text} {s u : Section}

theorem opens_lt_begins (r : Region page s.name) : r.opens < r.begins :=
  start_lt_stop_of_firstOccurrence? (isLabel_of_isSectionName s.isName) r.start_first

theorem begins_le_ends (r : Region page s.name) : r.begins ≤ r.ends := r.ordered

theorem positions_eq {m n : Text} (r : Region page m) (q : Region page n) (h : m = n) :
    r.opens = q.opens ∧ r.closes = q.closes := by
  subst h
  rw [r.eq q]
  exact ⟨rfl, rfl⟩

theorem ends_lt_closes (r : Region page s.name) : r.ends < r.closes :=
  start_lt_stop_of_firstOccurrence? (isLabel_slash s.name) r.stop_first

/-- A region spares the markers of one that lies apart, and its own. -/
theorem spares_of_apart (r : Region page s.name) (q : Region page u.name) (h : Apart page s u) :
    r.Spares q.start ∧ r.Spares q.stop := by
  have := h r q
  have := r.opens_lt_begins
  have := r.ends_lt_closes
  have := q.opens_lt_begins
  have := q.begins_le_ends
  have := q.ends_lt_closes
  unfold Spares
  simp only [opens, begins, ends, closes] at *
  omega

theorem spares_self (r q : Region page s.name) : r.Spares q.start ∧ r.Spares q.stop := by
  rw [q.eq r]
  exact ⟨.inl (Nat.le_refl _), .inr (Nat.le_refl _)⟩

end Region

namespace LaidOut

variable {page : Text} {ss : List Section}

theorem spares (h : LaidOut page ss) {s u : Section} (hs : s ∈ ss) (hu : u ∈ ss)
    (r : Region page s.name) (q : Region page u.name) : r.Spares q.start ∧ r.Spares q.stop :=
  List.Pairwise.forall_of_forall_of_flip
    (R := fun s u => ∀ (r : Region page s.name) (q : Region page u.name),
      r.Spares q.start ∧ r.Spares q.stop)
    (fun _ _ r q => r.spares_self q) (h.apart.imp fun h r q => r.spares_of_apart q h)
    (h.apart.imp fun h r q => r.spares_of_apart q h.symm) hs hu r q

/-- When one of the sections is filled, the markers of each keep their places or move along. -/
theorem exists_moved (h : LaidOut page ss) (hss : Harmless ss) {s u : Section} (hs : s ∈ ss)
    (hu : u ∈ ss) (r : Region page s.name) {i : Text} (hi : r.head ++ i ++ r.tail = page)
    (q : Region page u.name) :
    ∃ q' : Region (r.filled s.fragment) u.name,
      Moved r.head i s.fragment r.tail q.start q'.start ∧
        Moved r.head i s.fragment r.tail q.stop q'.stop := by
  obtain ⟨hstart, hstop⟩ := h.spares hs hu r q
  simp only [Region.Spares, ← Region.begins_add_length hi, ← r.length_head] at hstart hstop
  exact q.exists_moved hi u.isName (hss.closed u hu) (r.getLast?_head s.isName (hss.closed s hs))
    r.head?_tail hstart hstop (hss.clean s hs u hu)

/-- Filling one of the sections keeps their regions apart. -/
theorem filled (h : LaidOut page ss) (hss : Harmless ss) {s : Section} (hs : s ∈ ss)
    (r : Region page s.name) : LaidOut (r.filled s.fragment) ss := by
  obtain ⟨i, hi⟩ := r.exists_interior
  have hmoved := fun u (hu : u ∈ ss) q => h.exists_moved hss hs hu r hi (u := u) q
  refine ⟨fun u hu => ?_, h.apart.imp_of_mem fun {u v} hu hv huv p' q' => ?_⟩
  · obtain ⟨q⟩ := h.placed u hu
    obtain ⟨q', -, -⟩ := hmoved u hu q
    exact ⟨q'⟩
  · obtain ⟨p⟩ := h.placed u hu
    obtain ⟨q⟩ := h.placed v hv
    obtain ⟨p'', hp₁, hp₂⟩ := hmoved u hu p
    obtain ⟨q'', hq₁, hq₂⟩ := hmoved v hv q
    rw [p'.eq p'', q'.eq q'']
    have hp₁ := hp₁.positions
    have hp₂ := hp₂.positions
    have hq₁ := hq₁.positions
    have hq₂ := hq₂.positions
    have := p.opens_lt_begins
    have := p.begins_le_ends
    have := p.ends_lt_closes
    have := q.opens_lt_begins
    have := q.begins_le_ends
    have := q.ends_lt_closes
    have := huv p q
    simp only [Region.opens, Region.begins, Region.ends, Region.closes] at *
    omega

theorem undisturbed {all done : List Section} (h : LaidOut page all) (hall : Harmless all)
    (hdone : done ⊆ all) (hss : ss ⊆ all) : Undisturbed done page ss := by
  induction ss generalizing page done with
  | nil => trivial
  | cons s rest ih =>
    have hs : s ∈ all := hss (List.mem_cons_self ..)
    intro r
    refine ⟨fun d hd q => h.spares hs (hdone hd) r q, ?_⟩
    exact ih (h.filled hall hs r) (List.cons_subset.2 ⟨hs, hdone⟩)
      fun u hu => hss (List.mem_cons_of_mem _ hu)

/-- The names of sections whose regions lie apart are different. -/
theorem nodup (h : LaidOut page ss) : (ss.map (·.name)).Nodup := by
  rw [List.Nodup, List.pairwise_map]
  refine h.apart.imp_of_mem fun {s u} hs hu hsu heq => ?_
  obtain ⟨r⟩ := h.placed s hs
  obtain ⟨q⟩ := h.placed u hu
  have := Region.positions_eq r q heq
  have := hsu r q
  have := r.opens_lt_begins
  have := r.begins_le_ends
  have := r.ends_lt_closes
  omega

end LaidOut

end PageSplice
