import PageSplice.Proofs.Names

/-!
# Markers are unambiguous

A name may hold anything but blanks at its ends: comment delimiters, blanks, slashes.  Its markers
may then overlap, but no marker stands within another one (`IsComment.eq_nil_of_within`), and what a
text has at one place is one start marker at most, or one end marker, and not both
(`markers_unambiguous`).  So it does not matter how a search takes the blanks in a marker, and the
first start marker of a text does not depend on what comes after it.
-/

namespace PageSplice

open Text

variable {name label m m' : Text}

/-! ## One place -/

/-- A pattern that matches a member of the class wherever a text begins with one, and nothing else.
Where a text begins with several members, it may match any of them. -/
def Text.Pattern.Chooses (p : Pattern) (q : Text → Prop) : Prop :=
  (∀ t m r, p t = some (m, r) → q m ∧ m ++ r = t) ∧ ∀ m r, q m → p (m ++ r) ≠ none

/-- A recognised class leaves no choice. -/
theorem Text.Pattern.Recognises.chooses_iff {p p' : Pattern} {q : Text → Prop}
    (hp : p.Recognises q) : p'.Chooses q ↔ p' = p := by
  constructor
  · rintro ⟨hsound, hcomplete⟩
    funext t
    cases h' : p' t with
    | some x =>
      obtain ⟨m, r⟩ := x
      exact (hp.2 (hsound t m r h')).symm
    | none =>
      cases h : p t with
      | none => rfl
      | some x =>
        obtain ⟨m, r⟩ := x
        obtain ⟨hm, rfl⟩ := hp.1 h
        exact absurd h' (hcomplete m r hm)
  · rintro rfl
    refine ⟨fun t m r h => hp.1 h, fun m r hm h => ?_⟩
    rw [hp.2 ⟨hm, rfl⟩] at h
    cases h

/-- If a text is the same with and without a character before a word, that character is also behind
the word. -/
theorem head?_eq_of_append_eq_cons {c : Char} {w x y : Text} (h : w ++ x = c :: (w ++ y)) :
    x.head? = some c := by
  induction w with
  | nil => exact congrArg List.head? h
  | cons d w ih =>
    obtain ⟨rfl, hrest⟩ := List.cons.inj h
    exact ih hrest

/-- A start marker and an end marker of one name do not begin a text both.  The blanks before the
name would be the same, so the name would be all slashes and another one would follow it. -/
theorem not_both_markers {r r' : Text} (hname : IsLabel name) (hm : IsComment name m)
    (hm' : IsComment ('/' :: name) m') : m ++ r ≠ m' ++ r' := by
  obtain ⟨u, v, hu, hv, rfl⟩ := hm
  obtain ⟨u', v', hu', hv', rfl⟩ := hm'
  obtain ⟨c, rest, rfl, hc⟩ := hname
  intro h
  have h : u ++ (c :: rest ++ (v ++ ("-->".toList ++ r))) =
      u' ++ ('/' :: (c :: rest ++ (v' ++ ("-->".toList ++ r')))) := by
    simpa using h
  have hcut : c :: rest ++ (v ++ ("-->".toList ++ r)) =
      '/' :: (c :: rest ++ (v' ++ ("-->".toList ++ r'))) := by
    have hleft := (takeWhile_blank_append (t := c :: rest ++ (v ++ ("-->".toList ++ r))) hu
      (by simp [hc])).2
    have hright := (takeWhile_blank_append
      (t := '/' :: (c :: rest ++ (v' ++ ("-->".toList ++ r')))) hu' (by simp; decide)).2
    rw [← hleft, h, hright]
  have hbehind := head?_eq_of_append_eq_cons hcut
  -- behind the name there is a blank or the end of the comment
  cases v with
  | nil => exact absurd hbehind (by simp)
  | cons d v =>
    obtain rfl : d = '/' := by simpa using hbehind
    exact absurd (List.all_eq_true.1 hv '/' (by simp)) (by decide)

/-! ## Two places -/

/-- A name does not end blank, so the blanks behind it begin where it ends. -/
theorem exists_concat_of_isSectionName (h : IsSectionName name) :
    ∃ init c, name = init ++ [c] ∧ isBlank c = false := by
  have hkeep := dropWhile_reverse_of_isSectionName h
  obtain ⟨c, init, hrev⟩ : ∃ c init, name.reverse = c :: init := by
    obtain ⟨c, rest, rfl, -⟩ := isLabel_of_isSectionName h
    exact List.exists_cons_of_ne_nil (by simp)
  refine ⟨init.reverse, c, by simpa using congrArg List.reverse hrev, ?_⟩
  refine Bool.eq_false_iff.2 fun hc => ?_
  rw [hrev, List.dropWhile_cons_of_pos hc] at hkeep
  have hle := (List.dropWhile_suffix (l := init) isBlank).length_le
  rw [hkeep, List.length_cons] at hle
  omega

theorem isBlank_of_getElem? {a b c : Text} (k : Nat) (d : Char) (hb : b.all isBlank)
    (hd : (a ++ b ++ c)[k]? = some d) (hak : a.length ≤ k) (hkb : k < a.length + b.length) :
    isBlank d := by
  rw [List.getElem?_append_left (by simpa using hkb), List.getElem?_append_right hak] at hd
  exact List.all_eq_true.1 hb d (List.mem_of_getElem? hd)

theorem getElem?_append_concat (a b c : Text) (d : Char) :
    (a ++ (b ++ [d]) ++ c)[(a ++ b).length]? = some d := by
  rw [← List.append_assoc, List.append_assoc, List.getElem?_append_right (Nat.le_refl _),
    Nat.sub_self]
  rfl

/-- No marker stands within another marker of its label, but at its beginning.  If the label of the
inner one stands further right, its last character is among the blanks behind the outer label; if
not, the inner delimiter is among the blanks before it. -/
theorem IsComment.eq_nil_of_within {x y : Text} (hlabel : IsSectionName label)
    (hm : IsComment label m) (hm' : IsComment label m') (h : m = x ++ m' ++ y) : x = [] := by
  obtain ⟨u, v, hu, hv, rfl⟩ := hm
  obtain ⟨u', v', hu', hv', rfl⟩ := hm'
  cases x with
  | nil => rfl
  | cons d x =>
    exfalso
    -- what the inner marker has at a place, the outer one has further right
    have hat : ∀ k e, ("<!--".toList ++ u' ++ label ++ v' ++ "-->".toList)[k]? = some e →
        ("<!--".toList ++ u ++ label ++ v ++ "-->".toList)[(d :: x).length + k]? = some e := by
      intro k e he
      have hk := List.getElem?_eq_some_iff.1 he
      rw [h, List.append_assoc, List.getElem?_append_right (Nat.le_add_right ..),
        Nat.add_sub_cancel_left, List.getElem?_append_left hk.1, he]
    have hlen := congrArg List.length h
    have hopen : "<!--".toList.length = 4 := rfl
    simp only [List.length_append, List.length_cons, hopen] at hlen hat
    rcases Nat.lt_or_ge u.length (x.length + 1 + u'.length) with hright | hleft
    · obtain ⟨init, e, rfl, he⟩ := exists_concat_of_isSectionName hlabel
      have hlast := getElem?_append_concat ("<!--".toList ++ u') init (v' ++ "-->".toList) e
      rw [← List.append_assoc, List.length_append, List.length_append, hopen] at hlast
      have hblank := isBlank_of_getElem? (a := "<!--".toList ++ u ++ (init ++ [e])) (b := v)
        (c := "-->".toList) (x.length + 1 + (4 + u'.length + init.length)) e hv (hat _ e hlast)
      simp only [List.length_append, List.length_cons, hopen, List.length_nil] at hblank hlen
      rw [hblank (by omega) (by omega)] at he
      cases he
    · have hblank := isBlank_of_getElem? (a := "<!--".toList) (b := u)
        (c := label ++ v ++ "-->".toList) (x.length + 1 + 3) '-' hu (by simpa using hat 3 '-' rfl)
      rw [hopen] at hblank
      exact absurd (hblank (by omega) (by omega)) (by decide)

/-- What begins no earlier than another match in a text and ends no later stands within it. -/
theorem exists_of_stop_le {o o' : Occurrence} (htext : o.text = o'.text) (hstart : o.start ≤ o'.start)
    (hstop : o'.stop ≤ o.stop) :
    ∃ x y, o.matched = x ++ o'.matched ++ y ∧ o'.start = o.start + x.length := by
  have hto : o.through <+: o'.text := htext ▸ List.prefix_append ..
  have hto' : o'.through <+: o'.text := List.prefix_append ..
  obtain ⟨y, hy⟩ : o'.through <+: o.through :=
    List.prefix_of_prefix_length_le hto' hto (by rwa [o'.length_through, o.length_through])
  obtain ⟨x, hx⟩ : o.before <+: o'.before :=
    List.prefix_of_prefix_length_le ((List.prefix_append ..).trans hto)
      ((List.prefix_append ..).trans hto') hstart
  refine ⟨x, y, ?_, by rw [Occurrence.start, ← hx, List.length_append]; rfl⟩
  rw [Occurrence.through, Occurrence.through, ← hx, List.append_assoc, List.append_assoc,
    List.append_cancel_left_eq] at hy
  rw [List.append_assoc, hy]

/-- Of two markers of a label in a text, the one that begins earlier ends earlier. -/
theorem stop_lt_stop_of_start_lt {o o' : Occurrence} (hlabel : IsSectionName label)
    (htext : o.text = o'.text) (ho : IsComment label o.matched) (ho' : IsComment label o'.matched)
    (hlt : o.start < o'.start) : o.stop < o'.stop := by
  refine Nat.lt_of_not_le fun hle => ?_
  obtain ⟨x, y, hm, hx⟩ := exists_of_stop_le htext (Nat.le_of_lt hlt) hle
  obtain rfl := ho.eq_nil_of_within hlabel ho' hm
  rw [hx] at hlt
  exact Nat.lt_irrefl _ hlt

/-- The marker that begins first does so whatever comes behind it: another one that began earlier
would end earlier too, and would have been there before. -/
theorem isEarliest_replace_after {t : Text} {o : Occurrence} (hlabel : IsSectionName label)
    (h : IsEarliest (IsComment label) t o) (z : Text) :
    IsEarliest (IsComment label) (o.through ++ z) { o with after := z } := by
  let o₁ : Occurrence := { o with after := z }
  refine ⟨rfl, h.belongs, fun o' htext ho' => Nat.le_of_not_lt fun hlt => ?_⟩
  have htext₁ : o'.text = o₁.text := htext
  have hstop : o'.stop < o₁.stop := stop_lt_stop_of_start_lt hlabel htext₁ ho' h.belongs hlt
  have hthrough : o'.through <+: o.through ++ z := htext ▸ List.prefix_append ..
  obtain ⟨w, hw⟩ : o'.through <+: o.through :=
    List.prefix_of_prefix_length_le hthrough (List.prefix_append ..)
      (by rw [o'.length_through, o.length_through]; exact Nat.le_of_lt hstop)
  have hle : o.start ≤ o'.start := by
    refine h.first ⟨o'.before, o'.matched, w ++ o.after⟩ ?_ ho'
    rw [← h.text_eq, Occurrence.text, Occurrence.text, ← List.append_assoc]
    exact congrArg (· ++ o.after) hw
  exact Nat.not_lt.2 hle hlt

/-! ## All names -/

/-- At one place of a text stands one start marker of a name at most, and one end marker at most, so
it does not matter which of the blanks a search tries first.  No start marker begins where an end
marker does.  Of two start markers the one that begins earlier ends earlier, and the first one of a
text stays the first, with the same end, whatever replaces the text behind it. -/
theorem markers_unambiguous (hname : IsSectionName name) :
    (∀ label, label = name ∨ label = '/' :: name →
      (∀ o o' : Occurrence, o.text = o'.text → o.start = o'.start →
        IsComment label o.matched → IsComment label o'.matched → o.stop = o'.stop) ∧
      ∀ p : Pattern, p.Chooses (IsComment label) ↔ p = commentOf label) ∧
    (∀ o o' : Occurrence, o.text = o'.text → IsComment name o.matched →
      IsComment ('/' :: name) o'.matched → o.start ≠ o'.start) ∧
    (∀ o o' : Occurrence, o.text = o'.text → IsComment name o.matched →
      IsComment name o'.matched → o.start < o'.start → o.stop < o'.stop) ∧
    ∀ t o, firstOccurrence? (startMarker name) t = some o → ∀ z,
      firstOccurrence? (startMarker name) (o.through ++ z) = some { o with after := z } := by
  have hlabel := isLabel_of_isSectionName hname
  refine ⟨?_, ?_, fun o o' htext ho ho' => stop_lt_stop_of_start_lt hname htext ho ho', ?_⟩
  · intro label hl
    have hrec : (commentOf label).Recognises (IsComment label) := by
      obtain rfl | rfl := hl
      · exact commentOf_recognises hlabel
      · exact commentOf_recognises (isLabel_slash name)
    exact ⟨fun o o' htext hstart ho ho' =>
        congrArg Occurrence.stop (hrec.eq_of_start_eq ho ho' htext hstart),
      fun p => hrec.chooses_iff⟩
  · intro o o' htext ho ho' hstart
    rw [Occurrence.text, Occurrence.text, List.append_assoc, List.append_assoc] at htext
    exact not_both_markers hlabel ho ho' (List.append_inj htext hstart).2
  · intro t o ho z
    have hrec := commentOf_recognises hlabel
    exact (firstOccurrence?_eq_some_iff hrec).2
      (isEarliest_replace_after hname (isEarliest_of_firstOccurrence? hrec ho) z)

/-- The name holds comment delimiters, so two start markers overlap: the second one begins with the
end of the first. -/
theorem markers_unambiguous_overlap :
    let name := "A--><!--A".toList
    let t := "x<!--A--><!--A--><!--A-->".toList
    let o : Occurrence := ⟨"x".toList, "<!--A--><!--A-->".toList, "<!--A-->".toList⟩
    let o' : Occurrence := ⟨"x<!--A-->".toList, "<!--A--><!--A-->".toList, []⟩
    IsSectionName name ∧ o.text = t ∧ o'.text = t ∧ o.start < o'.start ∧ o'.start < o.stop ∧
      o.stop < o'.stop ∧
      ∀ z, firstOccurrence? (startMarker name) (o.through ++ z) = some { o with after := z } := by
  intro name t o o'
  have hname : IsSectionName name := by decide +kernel
  have hm : IsComment name "<!--A--><!--A-->".toList := ⟨[], [], rfl, rfl, by decide +kernel⟩
  have ho : o.text = t := by decide +kernel
  have ho' : o'.text = t := by decide +kernel
  have hlt : o.start < o'.start := by decide +kernel
  obtain ⟨-, -, hstops, hstays⟩ := markers_unambiguous hname
  exact ⟨hname, ho, ho', hlt, by decide +kernel, hstops o o' (ho.trans ho'.symm) hm hm hlt,
    hstays t o (by decide +kernel)⟩

end PageSplice
