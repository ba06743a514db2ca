import PageSplice.Proofs.Marker

/-!
# The region of a section

`Region page name` is where a section stands in a page: its first start marker and, behind it, its
first end marker.  Filling a section changes only what is between the two (`fillSection_eq_ok_iff`).
The markers of other sections keep their places, or move along with what follows the region
(`Moved`).  Filling the same section once more replaces what it was filled with, up to the first end
marker in it (`Region.fillSection_filled`).  A section is `Settled` in a page if filling it changes
nothing.  Main statement: filling one section leaves another settled, unless it takes a marker away
from it (`Settled.filled`).
-/

namespace PageSplice

open Text

/-- The first start marker of a section in a page and its first end marker, in this order. -/
structure Region (page name : Text) where
  start : Occurrence
  stop : Occurrence
  start_first : firstOccurrence? (startMarker name) page = some start
  stop_first : firstOccurrence? (endMarker name) page = some stop
  ordered : start.stop ≤ stop.start

/-- Where the section stands in the page, if it has a place there. -/
def regionOf? (page name : Text) : Option (Region page name) :=
  match hstart : firstOccurrence? (startMarker name) page,
      hstop : firstOccurrence? (endMarker name) page with
  | some start, some stop =>
    if h : start.stop ≤ stop.start then some ⟨start, stop, hstart, hstop, h⟩ else none
  | _, _ => none

namespace Region

variable {page name : Text}

/-- The page up to and including the start marker. -/
def head (r : Region page name) : Text := r.start.through

/-- The page from the end marker on. -/
def tail (r : Region page name) : Text := r.stop.onward

/-- The page with a text in the place of what stands between the markers. -/
def filled (r : Region page name) (text : Text) : Text := r.head ++ text ++ r.tail

/-- Where the start marker begins. -/
def opens (r : Region page name) : Nat := r.start.start

/-- Where the start marker ends, and the interior begins. -/
def begins (r : Region page name) : Nat := r.start.stop

/-- Where the interior ends, and the end marker begins. -/
def ends (r : Region page name) : Nat := r.stop.start

/-- Where the end marker ends. -/
def closes (r : Region page name) : Nat := r.stop.stop

/-- A marker that stands outside the interior. -/
def Spares (r : Region page name) (o : Occurrence) : Prop := o.stop ≤ r.begins ∨ r.ends ≤ o.start

instance (r : Region page name) (o : Occurrence) : Decidable (r.Spares o) := by
  unfold Spares; infer_instance

theorem eq_regionOf? (r : Region page name) : regionOf? page name = some r := by
  obtain ⟨start, stop, hstart, hstop, h⟩ := r
  unfold regionOf?
  split
  · next s e hs he =>
    obtain rfl : start = s := by simpa [hstart] using hs
    obtain rfl : stop = e := by simpa [hstop] using he
    rw [dif_pos h]
  · next hnone => exact absurd hstop (hnone start stop hstart)

instance : Decidable (Nonempty (Region page name)) :=
  decidable_of_iff ((regionOf? page name).isSome = true)
    ⟨fun h => ⟨(regionOf? page name).get h⟩, fun ⟨r⟩ => by rw [r.eq_regionOf?]; rfl⟩

theorem eq (r r' : Region page name) : r = r' :=
  Option.some.inj (r.eq_regionOf?.symm.trans r'.eq_regionOf?)

@[simp] theorem length_head (r : Region page name) : r.head.length = r.begins := by
  simp [head, begins, Occurrence.through, Occurrence.stop]

theorem head_append_after (r : Region page name) : r.head ++ r.start.after = page :=
  Occurrence.text_eq (commentOf_splits name) r.start_first

theorem before_append_tail (r : Region page name) : r.stop.before ++ r.tail = page := by
  have h : r.stop.text = page := Occurrence.text_eq (commentOf_splits _) r.stop_first
  rwa [Occurrence.text, List.append_assoc] at h

/-- The page is its head, an interior and its tail. -/
theorem exists_interior (r : Region page name) : ∃ i, r.head ++ i ++ r.tail = page := by
  have htext := r.head_append_after.trans r.before_append_tail.symm
  have hlen : r.head.length ≤ r.stop.before.length := by
    rw [r.length_head]; exact r.ordered
  obtain ⟨i, hi, -⟩ | ⟨z, hz, -⟩ := List.append_eq_append_iff.1 htext
  · exact ⟨i, by rw [← hi, r.before_append_tail]⟩
  · have hz' := congrArg List.length hz
    rw [List.length_append] at hz'
    obtain rfl : z = [] := List.length_eq_zero_iff.1 (by omega)
    exact ⟨[], by rw [hz, List.append_nil, List.append_nil, r.before_append_tail]⟩

theorem begins_add_length {r : Region page name} {i : Text} (hi : r.head ++ i ++ r.tail = page) :
    r.begins + i.length = r.ends := by
  have h := List.append_cancel_right (hi.trans r.before_append_tail.symm)
  rw [← r.length_head, ← List.length_append, h]
  rfl

end Region

theorem fillSection_eq_ok_iff {page name text page' : Text} :
    fillSection page name text = .ok page' ↔ ∃ r : Region page name, r.filled text = page' := by
  unfold fillSection
  constructor
  · intro h
    split at h
    · cases h
    · next start hstart =>
      split at h
      · cases h
      · next stop hstop =>
        split at h
        · cases h
        · next hle => cases h; exact ⟨⟨start, stop, hstart, hstop, Nat.le_of_not_lt hle⟩, rfl⟩
  · rintro ⟨⟨start, stop, hstart, hstop, h⟩, rfl⟩
    simp only [hstart, hstop, if_neg (Nat.not_lt.2 h)]
    rfl

/-! ## Markers outside the interior -/

/-- How a marker moves that stands outside `i` when `g` comes in the place of `i`. -/
inductive Moved (x i g y : Text) : Occurrence → Occurrence → Prop
  | left (o : Occurrence) : o.text = x → Moved x i g y (o.followedBy (i ++ y)) (o.followedBy (g ++ y))
  | right (o : Occurrence) : o.text = y → Moved x i g y (o.behind (x ++ i)) (o.behind (x ++ g))

theorem Moved.positions {x i g y : Text} {o o' : Occurrence} (h : Moved x i g y o o') :
    (o'.start = o.start ∧ o'.stop = o.stop ∧ o.stop ≤ x.length) ∨
      (x.length + i.length ≤ o.start ∧ o'.start + i.length = o.start + g.length ∧
        o'.stop + i.length = o.stop + g.length) := by
  cases h with
  | left o ho =>
    left
    have := congrArg List.length ho
    simp only [Occurrence.text, List.length_append] at this
    simp only [Occurrence.followedBy, Occurrence.start, Occurrence.stop, true_and]
    omega
  | right o ho =>
    right
    simp only [Occurrence.behind, Occurrence.start, Occurrence.stop, List.length_append]
    omega

/-- What stands around a marker that moves: it is in `x` or in `y`. -/
theorem Moved.texts {x i g y : Text} {o o' : Occurrence} (h : Moved x i g y o o') :
    (o.stop ≤ x.length ∧ ∃ z w, x = o.through ++ z ∧ o'.through = o.through ∧
        o.onward = w ++ i ++ y ∧ o'.onward = w ++ g ++ y) ∨
      (x.length + i.length ≤ o.start ∧ ∃ z w, y = z ++ o.onward ∧ o'.onward = o.onward ∧
        o.through = x ++ i ++ w ∧ o'.through = x ++ g ++ w) := by
  cases h with
  | left o ho =>
    left
    refine ⟨?_, o.after, o.onward, ho.symm, rfl, ?_, ?_⟩
    · have := congrArg List.length ho
      simp only [Occurrence.text, Occurrence.followedBy, Occurrence.stop,
        List.length_append] at this ⊢
      omega
    · simp [Occurrence.followedBy, Occurrence.onward]
    · simp [Occurrence.followedBy, Occurrence.onward]
  | right o ho =>
    right
    refine ⟨?_, o.before, o.through, ?_, rfl, ?_, ?_⟩
    · simp [Occurrence.behind, Occurrence.start]
    · rw [← ho, Occurrence.text, List.append_assoc]; rfl
    · simp [Occurrence.behind, Occurrence.through]
    · simp [Occurrence.behind, Occurrence.through]

section
variable {label x i g y : Text} (hl : IsLabel label)
include hl

theorem firstOccurrence?_seams (hx : Seam label x (g ++ y)) (hg : Seam label g y) :
    firstOccurrence? (commentOf label) (x ++ g ++ y) =
      ((firstOccurrence? (commentOf label) x).map (·.followedBy (g ++ y))).or
        ((((firstOccurrence? (commentOf label) g).map (·.followedBy y)).or
          ((firstOccurrence? (commentOf label) y).map (·.behind g))).map (·.behind x)) := by
  rw [List.append_assoc, firstOccurrence?_append hl hx, firstOccurrence?_append hl hg]

/-- A first marker outside the interior stays the first one if none begins in what takes the place
of the interior. -/
theorem exists_moved {page : Text} {o : Occurrence} (hc : '>' ∉ label)
    (hx : x.getLast? = some '>') (hy : y.head? = some '<') (hpage : x ++ i ++ y = page)
    (h : firstOccurrence? (commentOf label) page = some o)
    (ho : o.stop ≤ x.length ∨ x.length + i.length ≤ o.start) (hn : ¬ Begins label g) :
    ∃ o', firstOccurrence? (commentOf label) (x ++ g ++ y) = some o' ∧ Moved x i g y o o' := by
  have hlt := start_lt_stop_of_firstOccurrence? hl h
  have hnone : firstOccurrence? (commentOf label) g = none :=
    (firstOccurrence?_eq_none_iff_not_holds hl).2 fun hg => hn hg.begins
  rw [firstOccurrence?_seams hl (seam_of_closed hc hx) (seam_of_not_begins hn hy), hnone]
  rw [← hpage, List.append_assoc] at h
  cases hfirst : firstOccurrence? (commentOf label) x with
  | some a =>
    obtain rfl : a.followedBy (i ++ y) = o := by
      simpa [firstOccurrence?_append hl (seam_of_closed hc hx), hfirst] using h
    exact ⟨_, by simp, .left a (Occurrence.text_eq (commentOf_splits label) hfirst)⟩
  | none =>
    -- the marker begins behind `x`, and outside the interior: in `y`
    have hbehind : x.length ≤ o.start := by
      rw [firstOccurrence?_append hl (seam_of_closed hc hx), hfirst] at h
      obtain ⟨a, -, rfl⟩ : ∃ a, firstOccurrence? (commentOf label) (i ++ y) = some a ∧
          a.behind x = o := by simpa using h
      simp [Occurrence.behind, Occurrence.start]
    rw [← List.append_assoc] at h
    obtain ⟨a, ha, rfl⟩ := exists_of_length_le_start h (by rw [List.length_append]; omega)
    have hmoved := Moved.right (x := x) (i := i) (g := g) a
      (Occurrence.text_eq (commentOf_splits label) ha)
    refine ⟨_, ?_, hmoved⟩
    simp [ha, Occurrence.behind]

end

/-! ## Regions that keep their place -/

/-- A text that holds a start or an end marker of a section. -/
def HoldsMarker (name t : Text) : Prop := Holds name t ∨ Holds ('/' :: name) t

/-- A text in which a start or an end marker of a section begins. -/
def BeginsMarker (name t : Text) : Prop := Begins name t ∨ Begins ('/' :: name) t

theorem beginsMarker_iff_holdsMarker {name t : Text} (hp : IsPlain name) :
    BeginsMarker name t ↔ HoldsMarker name t :=
  or_congr (begins_iff_holds hp) (begins_iff_holds (isPlain_slash hp))

instance (s : Section) (t : Text) : Decidable (HoldsMarker s.name t) :=
  decidable_of_iff (¬ (firstOccurrence? (startMarker s.name) t = none ∧
      firstOccurrence? (endMarker s.name) t = none)) <| by
    rw [startMarker, endMarker,
      firstOccurrence?_eq_none_iff_not_holds (isLabel_of_isSectionName s.isName),
      firstOccurrence?_eq_none_iff_not_holds (isLabel_slash s.name), ← not_or, Classical.not_not]
    rfl

namespace Region

theorem getLast?_head {page name : Text} (r : Region page name) (hn : IsSectionName name)
    (hc : '>' ∉ name) : r.head.getLast? = some '>' := by
  obtain ⟨m, hm, -⟩ :=
    (isComment_of_firstOccurrence? (isLabel_of_isSectionName hn) r.start_first).eq_concat hc
  simp [head, Occurrence.through, hm]

theorem head?_tail {page name : Text} (r : Region page name) : r.tail.head? = some '<' := by
  have hm := isComment_of_firstOccurrence? (isLabel_slash name) r.stop_first
  rw [tail, Occurrence.onward, List.head?_append, hm.head?, Option.some_or]

/-- Where a section stands after the interior of another one was filled that spares its markers. -/
theorem exists_moved {page name x i g y : Text} (q : Region page name) (hpage : x ++ i ++ y = page)
    (hn : IsSectionName name) (hc : '>' ∉ name) (hx : x.getLast? = some '>')
    (hy : y.head? = some '<')
    (hstart : q.start.stop ≤ x.length ∨ x.length + i.length ≤ q.start.start)
    (hstop : q.stop.stop ≤ x.length ∨ x.length + i.length ≤ q.stop.start)
    (hno : ¬ BeginsMarker name g) :
    ∃ q' : Region (x ++ g ++ y) name,
      Moved x i g y q.start q'.start ∧ Moved x i g y q.stop q'.stop := by
  obtain ⟨hno₁, hno₂⟩ := not_or.1 hno
  obtain ⟨start, hs, hsm⟩ := PageSplice.exists_moved (isLabel_of_isSectionName hn) hc hx hy hpage
    q.start_first hstart hno₁
  obtain ⟨stop, he, hem⟩ := PageSplice.exists_moved (isLabel_slash name) (not_mem_slash hc) hx hy
    hpage q.stop_first hstop hno₂
  have hle : start.stop ≤ stop.start := by
    have := q.ordered
    have := hsm.positions
    have := hem.positions
    have := start_lt_stop_of_firstOccurrence? (isLabel_of_isSectionName hn) q.start_first
    have := start_lt_stop_of_firstOccurrence? (isLabel_slash name) q.stop_first
    omega
  exact ⟨⟨start, stop, hs, he, hle⟩, hsm, hem⟩

end Region

/-! ## Filling a filled region -/

namespace Region

variable {page name : Text}

theorem firstOccurrence?_startMarker_head (r : Region page name) (hn : IsSectionName name) :
    firstOccurrence? (startMarker name) r.head = some ⟨r.start.before, r.start.matched, []⟩ := by
  have hl := commentOf_recognises (isLabel_of_isSectionName hn)
  exact (firstOccurrence?_eq_some_iff hl).2 (isEarliest_of_firstOccurrence? hl r.start_first).through

/-- No end marker stands before the region's own one. -/
theorem firstOccurrence?_endMarker_head (r : Region page name) :
    firstOccurrence? (endMarker name) r.head = none := by
  have hl := isLabel_slash name
  cases h : firstOccurrence? (endMarker name) r.head with
  | none => rfl
  | some o =>
    have hfirst := isEarliest_of_firstOccurrence? (commentOf_recognises hl) r.stop_first
    have htext := Occurrence.text_eq (commentOf_splits _) h
    have hle := hfirst.start_le_of_append (isComment_of_firstOccurrence? hl h)
      (show o.text ++ r.start.after = page by rw [htext, r.head_append_after])
    have hlt := start_lt_stop_of_firstOccurrence? hl h
    have hlen := congrArg List.length htext
    have hordered : r.begins ≤ r.stop.start := r.ordered
    simp only [Occurrence.text, Occurrence.start, Occurrence.stop, List.length_append,
      length_head] at hle hlt hlen hordered
    omega

theorem firstOccurrence?_endMarker_tail (r : Region page name) :
    firstOccurrence? (endMarker name) r.tail = some ⟨[], r.stop.matched, r.stop.after⟩ := by
  have hl := commentOf_recognises (isLabel_slash name)
  have hmarker := (isEarliest_of_firstOccurrence? hl r.stop_first).belongs
  exact (firstOccurrence?_eq_some_iff hl).2 ⟨rfl, hmarker, fun _ _ _ => Nat.zero_le _⟩

/-- What is filled in takes the place of what stood between the markers, up to the first end marker
in it, if none reaches from there into the region's own one; start markers in it make no
difference. -/
theorem fillSection_filled (r : Region page name) (hn : IsSectionName name) (hc : '>' ∉ name)
    {i : Text} (hi : Seam ('/' :: name) i r.tail) (g : Text) : fillSection (r.filled i) name g =
      .ok (r.filled (g ++ (firstOccurrence? (endMarker name) i).elim [] Occurrence.onward)) := by
  have hclosed := r.getLast?_head hn hc
  have hstart : firstOccurrence? (startMarker name) (r.filled i) =
      some { r.start with after := i ++ r.tail } := by
    have hhead := r.firstOccurrence?_startMarker_head hn
    rw [startMarker] at hhead
    rw [filled, startMarker, List.append_assoc,
      firstOccurrence?_append (isLabel_of_isSectionName hn) (seam_of_closed hc hclosed), hhead]
    rfl
  have hstop : firstOccurrence? (endMarker name) (r.filled i) =
      some (((firstOccurrence? (endMarker name) i).elim { r.stop with before := i }
        (·.followedBy r.tail)).behind r.head) := by
    have hhead := r.firstOccurrence?_endMarker_head
    have htail := r.firstOccurrence?_endMarker_tail
    rw [endMarker] at hhead htail ⊢
    rw [filled, firstOccurrence?_seams (isLabel_slash name)
      (seam_of_closed (not_mem_slash hc) hclosed) hi, hhead, htail]
    cases firstOccurrence? (commentOf ('/' :: name)) i with
    | none => simp [Occurrence.behind]
    | some o => simp
  rw [fillSection, hstart, hstop]
  simp only
  have hlen : r.start.before.length + r.start.matched.length = r.head.length := r.length_head.symm
  rw [if_neg (by simp only [Occurrence.behind, Occurrence.start, Occurrence.stop,
    List.length_append]; omega)]
  cases firstOccurrence? (endMarker name) i with
  | none => simp [filled, head, tail, Occurrence.through, Occurrence.onward, Occurrence.behind]
  | some o =>
    simp [filled, head, tail, Occurrence.through, Occurrence.onward, Occurrence.behind,
      Occurrence.followedBy]

theorem fillSection_filled_of_not_begins (r : Region page name) (hn : IsSectionName name)
    (hc : '>' ∉ name) {i : Text} (hno : ¬ Begins ('/' :: name) i) (g : Text) :
    fillSection (r.filled i) name g = .ok (r.filled g) := by
  have hnone := (firstOccurrence?_eq_none_iff_not_holds (isLabel_slash name)).2
    fun hi => hno hi.begins
  rw [r.fillSection_filled hn hc (seam_of_not_begins hno r.head?_tail), endMarker, hnone,
    Option.elim_none, List.append_nil]

end Region

/-! ## Settled sections -/

/-- Filling the section changes nothing. -/
def Settled (page : Text) (s : Section) : Prop := fillSection page s.name s.fragment = .ok page

theorem settled_iff {page : Text} {s : Section} :
    Settled page s ↔ ∃ r : Region page s.name, r.filled s.fragment = page :=
  fillSection_eq_ok_iff

/-- A section that was filled is settled, whatever start markers its fragment holds. -/
theorem Region.settled_filled {page : Text} {s : Section} (r : Region page s.name)
    (hc : '>' ∉ s.name) (hno : ¬ Begins ('/' :: s.name) s.fragment) :
    Settled (r.filled s.fragment) s :=
  r.fillSection_filled_of_not_begins s.isName hc hno s.fragment

/-- If the end markers of two sections begin at the same place, it is one section. -/
theorem Region.name_eq_of_tail_eq {page page' m n : Text} (r : Region page m) (q : Region page' n)
    (hm : IsSectionName m) (hn : IsSectionName n) (hcm : '>' ∉ m) (hcn : '>' ∉ n)
    (h : r.tail = q.tail) : m = n := by
  have hr := isComment_of_firstOccurrence? (isLabel_slash m) r.stop_first
  have hq := isComment_of_firstOccurrence? (isLabel_slash n) q.stop_first
  have heq := hr.eq_of_append_eq hq (not_mem_slash hcm) (not_mem_slash hcn) h
  exact (List.cons.inj
    (hr.name_unique (isSectionName_slash hm) (isSectionName_slash hn) (heq ▸ hq))).2

/-- No region ends in a fragment with which another one was filled, nor right behind it. -/
theorem Region.not_ends_in_fragment {page : Text} {d s : Section} (r : Region page s.name)
    (q : Region page d.name) (hcs : '>' ∉ s.name) (hcd : '>' ∉ d.name) (hne : d.name ≠ s.name)
    (hno : ¬ Begins ('/' :: s.name) d.fragment) {w z : Text} (htail : r.tail = z ++ q.tail) :
    d.fragment ≠ w ++ z := by
  intro hfrag
  by_cases hz : z = []
  · have heq : q.tail = r.tail := by rw [htail, hz, List.nil_append]
    exact hne (q.name_eq_of_tail_eq r d.isName s.isName hcd hcs heq)
  · have hm := isComment_of_firstOccurrence? (isLabel_slash s.name) r.stop_first
    have hsuffix : z <:+ d.fragment := hfrag ▸ List.suffix_append w z
    exact hno ⟨z, r.stop.matched, r.stop.after, q.tail, hsuffix, hz, hm, q.head?_tail, htail⟩

/-- Filling a section leaves another one settled if it takes no marker away from it. -/
theorem Settled.filled {page : Text} {d s : Section} (hd : Settled page d)
    (r : Region page s.name) (hcd : '>' ∉ d.name) (hcs : '>' ∉ s.name)
    (hne : d.name ≠ s.name)
    (hspares : ∀ q : Region page d.name, r.Spares q.start ∧ r.Spares q.stop)
    (hnod : ¬ BeginsMarker s.name d.fragment) (hnos : ¬ BeginsMarker d.name s.fragment) :
    Settled (r.filled s.fragment) d := by
  obtain ⟨q, hq⟩ := settled_iff.1 hd
  obtain ⟨i, hi⟩ := r.exists_interior
  obtain ⟨hstart, hstop⟩ := hspares q
  simp only [Region.Spares, ← Region.begins_add_length hi, ← r.length_head] at hstart hstop
  obtain ⟨q', hms, hme⟩ := q.exists_moved hi d.isName hcd (r.getLast?_head s.isName hcs)
    r.head?_tail hstart hstop hnos
  have hs := start_lt_stop_of_firstOccurrence? (isLabel_of_isSectionName d.isName) q.start_first
  have he := start_lt_stop_of_firstOccurrence? (isLabel_slash d.name) q.stop_first
  have hle := q.ordered
  have hpage : q.start.through ++ d.fragment ++ q.stop.onward = r.head ++ i ++ r.tail :=
    hq.trans hi.symm
  refine settled_iff.2 ⟨q', ?_⟩
  show q'.start.through ++ d.fragment ++ q'.stop.onward = r.head ++ s.fragment ++ r.tail
  obtain ⟨-, z, w, hx, hthrough, -, -⟩ | ⟨hx, z, w, -, -, hthrough, hthrough'⟩ := hms.texts
  · obtain ⟨-, z', w', -, -, honward, honward'⟩ | ⟨-, z', w', hy, honward, -, -⟩ := hme.texts
    · -- the region lies in the head
      rw [honward, ← List.append_assoc, ← List.append_assoc, List.append_cancel_right_eq,
        List.append_cancel_right_eq] at hpage
      rw [hthrough, honward', ← hpage]
      simp only [List.append_assoc]
    · -- the region would enclose the one that was filled
      exfalso
      rw [hx, hy] at hpage
      have hfrag : d.fragment ++ q.stop.onward = z ++ i ++ z' ++ q.stop.onward := by
        simpa using hpage
      exact r.not_ends_in_fragment q hcs hcd hne (not_or.1 hnod).2 hy
        (List.append_cancel_right hfrag)
  · obtain ⟨hy, -⟩ | ⟨-, z', w', -, honward, -, -⟩ := hme.texts
    · omega
    · -- the region lies in the tail
      rw [hthrough', honward]
      rw [hthrough] at hpage
      simpa using hpage

end PageSplice
