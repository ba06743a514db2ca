import PageSplice.Page.Body
import PageSplice.Proofs.Search

/-!
# Bodies in templates

A template frames its placeholder if the first opening body tag before the placeholder ends right
there and a closing tag follows (`Frame`).  The body of a page then survives its way through the
template: it is cut out again as it was put in, whatever it holds (`fillTemplate_round_trip`).
-/

namespace PageSplice

open Text

/-! ## Tags at a seam -/

/-- The only `>` of an opening tag is its last character. -/
theorem eq_concat_of_openingTag {t m r : Text} (h : openingTag t = some (m, r)) :
    ∃ m', m = m' ++ ['>'] ∧ '>' ∉ m' := by
  obtain ⟨w, a, hw, ha, rfl, -⟩ := openingTag_eq_some_iff.1 h
  refine ⟨w ++ a, rfl, ?_⟩
  rw [List.mem_append, not_or]
  refine ⟨fun hmem => ?_, fun hmem => ?_⟩
  · have hlower : '>' ∈ lower w := List.mem_map.2 ⟨'>', hmem, by decide⟩
    rw [hw] at hlower
    exact absurd hlower (by decide)
  · exact absurd (List.all_eq_true.1 ha _ hmem) (by decide)

/-- An opening tag does not reach beyond a `>`. -/
theorem openingTag_append {x : Text} (y : Text) (hx : x.getLast? = some '>') :
    openingTag (x ++ y) = (openingTag x).map fun (m, r) => (m, r ++ y) := by
  ext ⟨m, r⟩
  rw [Option.map_eq_some_iff]
  constructor
  · intro h
    obtain ⟨w, a, hw, ha, hm, htext⟩ := openingTag_eq_some_iff.1 h
    obtain ⟨x', rfl, hr⟩ | ⟨z, hz, -⟩ := List.append_eq_append_iff.1 htext
    · exact ⟨(m, x'), openingTag_eq_some_iff.2 ⟨w, a, hw, ha, hm, rfl⟩, by rw [hr]⟩
    · -- the `>` at the end of `x` would stand inside the tag
      obtain ⟨m', hm', hnot⟩ := eq_concat_of_openingTag h
      obtain ⟨u, rfl⟩ := List.getLast?_eq_some_iff.1 hx
      obtain rfl | ⟨z', c, rfl⟩ := List.eq_nil_or_concat z
      · refine ⟨(m, []), openingTag_eq_some_iff.2 ⟨w, a, hw, ha, hm, ?_⟩, ?_⟩ <;> simp_all
      · refine absurd ?_ hnot
        rw [hm', List.concat_eq_append, ← List.append_assoc] at hz
        rw [(List.append_inj' hz rfl).1]
        simp
  · rintro ⟨⟨m', x'⟩, h, heq⟩
    obtain ⟨rfl, rfl⟩ := Prod.mk.inj heq
    obtain ⟨w, a, hw, ha, hm, rfl⟩ := openingTag_eq_some_iff.1 h
    exact openingTag_eq_some_iff.2 ⟨w, a, hw, ha, hm, by simp⟩

/-- A text that ends in its first opening tag still has that one first if more follows. -/
theorem firstOccurrence?_openingTag_append {x : Text} {o : Occurrence} (y : Text)
    (h : firstOccurrence? openingTag x = some o) (hend : o.after = []) :
    firstOccurrence? openingTag (x ++ y) = some { o with after := y } := by
  have htext : o.before ++ o.matched = x := by
    simpa [Occurrence.text, hend] using Occurrence.text_eq openingTag_splits h
  have htag := matches_of_firstOccurrence? h
  obtain ⟨w, a, hw, ha, hm, -⟩ := openingTag_eq_some_iff.1 htag
  obtain ⟨m', hm', -⟩ := eq_concat_of_openingTag htag
  rw [← htext, List.append_assoc]
  refine firstOccurrence?_of_matches (openingTag_eq_some_iff.2 ⟨w, a, hw, ha, hm, rfl⟩) ?_
  intro i hi
  have hlast : (x.drop i).getLast? = some '>' := by
    rw [← htext, List.drop_append_of_le_length (Nat.le_of_lt hi), hm', ← List.append_assoc,
      List.getLast?_concat]
  have hlen : i ≤ x.length := by
    rw [← htext, List.length_append]
    omega
  rw [← List.append_assoc, htext, List.drop_append_of_le_length hlen, openingTag_append y hlast,
    not_matches_before h hi]
  rfl

theorem caseless_eq_none_iff {w t : Text} : caseless w t = none ↔ lower (t.take w.length) ≠ w := by
  unfold caseless
  split
  · next h => simp [h]
  · next h => simp [h]

/-- Whether a tag matches does not depend on its letter case, nor on what follows it. -/
theorem caseless_eq_none_congr {w m m' : Text} (hm : lower m = w) (hm' : lower m' = w)
    (x r r' : Text) : caseless w (x ++ (m ++ r)) = none ↔ caseless w (x ++ (m' ++ r')) = none := by
  have htake : ∀ {m r : Text}, lower m = w →
      lower ((x ++ (m ++ r)).take w.length) = (lower x ++ w).take w.length := by
    rintro m r rfl
    rw [← List.append_assoc, List.take_append_of_le_length (by simp), lower, List.map_take,
      List.map_append]
    rfl
  rw [caseless_eq_none_iff, caseless_eq_none_iff, htake hm, htake hm']

/-! ## Placeholders -/

/-- A word that occurs once is replaced there. -/
theorem fillTemplate_of_once {before placeholder after : Text} (hne : placeholder ≠ [])
    (honce : ∀ x y, x ++ placeholder ++ y = before ++ placeholder ++ after → x = before)
    (body : Text) : fillTemplate (before ++ placeholder ++ after) placeholder body =
      .ok (before ++ body ++ after) := by
  have hfirst : firstOccurrence? (literal placeholder) (before ++ placeholder ++ after) =
      some ⟨before, placeholder, after⟩ := by
    refine (firstOccurrence?_eq_some_iff (literal_recognises placeholder)).2 ⟨rfl, rfl, ?_⟩
    rintro ⟨x, m, y⟩ ht rfl
    exact Nat.le_of_eq (congrArg List.length (honce x y ht).symm)
  have hrest : firstOccurrence? (literal placeholder) after = none := by
    refine (firstOccurrence?_eq_none_iff_not_contains (literal_recognises placeholder)).2 ?_
    rintro ⟨x, m, y, rfl, rfl⟩
    have heq := honce (before ++ m ++ x) y (by simp)
    simp [hne] at heq
  rw [fillTemplate, if_neg (by rw [hfirst]; simp [hne]), replaceAll, pieces_of_some hne hfirst,
    pieces_of_none hrest]
  simp

/-! ## The round trip -/

/-- A template cut at its placeholder, which occurs nowhere else: the first opening body tag before
it ends right there, and behind it stands a closing tag in either letter case. -/
structure Frame (before placeholder after : Text) : Prop where
  nonempty : placeholder ≠ []
  once : ∀ x y, x ++ placeholder ++ y = before ++ placeholder ++ after → x = before
  opens : ∃ o, firstOccurrence? openingTag before = some o ∧ o.after = []
  closes : ∃ m r, m ++ r = after ∧ lower m = "</body>".toList

/-- What a page holds between its tags: no closing tag begins in the body, not even one that ends
in the tag behind it. -/
theorem exists_of_bodyOf {page body : Text} (h : bodyOf page = .ok body) :
    ∃ m r, lower m = "</body>".toList ∧
      ∀ i < body.length, closingTag ((body ++ (m ++ r)).drop i) = none := by
  unfold bodyOf at h
  split at h
  · cases h
  · next tag _ =>
    split at h
    · cases h
    · next close hclose =>
      cases h
      have htext := Occurrence.text_eq closingTag_splits hclose
      rw [Occurrence.text, List.append_assoc] at htext
      refine ⟨close.matched, close.after,
        (caseless_eq_some_iff.1 (matches_of_firstOccurrence? hclose)).1, fun i hi => ?_⟩
      rw [htext]
      exact not_matches_before hclose hi

/-- The body of a page is found again in a template that frames it, and put there once more it gives
the same text.  This holds whatever stands in the body. -/
theorem fillTemplate_round_trip {page body before placeholder after : Text}
    (hbody : bodyOf page = .ok body) (h : Frame before placeholder after) :
    let template := before ++ placeholder ++ after
    let filled := before ++ body ++ after
    fillTemplate template placeholder body = .ok filled ∧ bodyOf filled = .ok body ∧
      pageInTemplate template placeholder filled = .ok filled := by
  intro template filled
  have hfill : fillTemplate template placeholder body = .ok filled :=
    fillTemplate_of_once h.nonempty h.once body
  have hagain : bodyOf filled = .ok body := by
    obtain ⟨o, ho, hend⟩ := h.opens
    obtain ⟨m, r, hafter, hm⟩ := h.closes
    obtain ⟨m', r', hm', hnone⟩ := exists_of_bodyOf hbody
    have hopen := firstOccurrence?_openingTag_append (body ++ after) ho hend
    have hclose : firstOccurrence? closingTag (body ++ after) = some ⟨body, m, r⟩ := by
      refine firstOccurrence?_of_matches (caseless_eq_some_iff.2 ⟨hm, hafter⟩) fun i hi => ?_
      have hpage := hnone i hi
      rw [List.drop_append_of_le_length (Nat.le_of_lt hi)] at hpage ⊢
      rw [← hafter]
      exact (caseless_eq_none_congr hm' hm _ _ _).1 hpage
    simp only [bodyOf, filled, List.append_assoc, hopen, hclose]
  refine ⟨hfill, hagain, ?_⟩
  rw [pageInTemplate, hagain]
  exact hfill

/-- The body holds the placeholder and an opening tag, and ends like a closing tag that is cut
off. -/
theorem fillTemplate_round_trip_nested :
    let page := "<body>@@<body>\n</body</body>".toList
    let body := "@@<body>\n</body".toList
    let before := "<body\n<Body id=x>".toList
    let after := "</BODY></body>".toList
    bodyOf page = .ok body ∧ Frame before "@@".toList after ∧
      bodyOf (before ++ body ++ after) = .ok body ∧
      pageInTemplate (before ++ "@@".toList ++ after) "@@".toList (before ++ body ++ after) =
        .ok (before ++ body ++ after) := by
  intro page body before after
  have hbody : bodyOf page = .ok body := by rfl
  have honce : ∀ i ≤ (before ++ "@@".toList ++ after).length,
      "@@".toList <+: (before ++ "@@".toList ++ after).drop i → i = before.length := by decide
  have hframe : Frame before "@@".toList after := by
    refine ⟨by decide, fun x y hxy => ?_,
      ⟨⟨"<body\n".toList, "<Body id=x>".toList, []⟩, by decide, rfl⟩,
      ⟨"</BODY>".toList, "</body>".toList, rfl, by decide⟩⟩
    have hin : x.length ≤ (before ++ "@@".toList ++ after).length := by
      rw [← hxy, List.length_append, List.length_append]
      omega
    have hlen := honce x.length hin (by
      rw [← hxy, List.append_assoc, List.drop_left]
      exact List.prefix_append ..)
    rw [List.append_assoc, List.append_assoc] at hxy
    exact (List.append_inj hxy hlen).1
  obtain ⟨-, hagain, hsame⟩ := fillTemplate_round_trip hbody hframe
  exact ⟨hbody, hframe, hagain, hsame⟩

end PageSplice
