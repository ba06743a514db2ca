import Mathlib.Tactic.Ring
import PageSplice.Page.Body
import PageSplice.Proofs.Search

/-!
# Templates around their placeholder

A word cuts a text into pieces if each piece but the last ends where the word begins first in what
is left of the text (`CutsInto`).  There is one way to do so, and `pieces` finds it
(`cutsInto_iff`).  Main statement: filling a template puts the body between the pieces into which the
placeholder cuts the template, whatever the body holds; it fails exactly if the placeholder is empty
or missing (`fillTemplate_by_pieces`).
-/

namespace PageSplice

namespace Text

/-- The pieces of a text between the occurrences of a word that are found from left to right. -/
structure CutsInto (w t : Text) (ss : List Text) : Prop where
  nonempty : ss ≠ []
  text_eq : w.intercalate ss = t
  free : ∀ s ∈ ss, ¬ Contains (· = w) s
  first : ∀ xs s rest, ss = xs ++ s :: rest → rest ≠ [] →
    IsEarliest (· = w) (w.intercalate (s :: rest)) ⟨s, w, w.intercalate rest⟩

variable {w t : Text} {ss : List Text}

theorem intercalate_cons (w s : Text) (h : ss ≠ []) :
    w.intercalate (s :: ss) = s ++ w ++ w.intercalate ss := by
  obtain ⟨s', rest, rfl⟩ := List.exists_cons_of_ne_nil h
  rw [List.intercalate_cons_cons]

theorem CutsInto.last (h : ¬ Contains (· = w) t) : CutsInto w t [t] := by
  refine ⟨List.cons_ne_nil _ _, by simp, by simpa using h, ?_⟩
  intro xs s rest heq hrest
  have hlen := congrArg List.length heq
  have hpos := List.length_pos_iff.2 hrest
  simp only [List.length_cons, List.length_nil, List.length_append] at hlen
  omega

theorem CutsInto.cons (hw : w ≠ []) {o : Occurrence} (h : IsEarliest (· = w) t o)
    (hrest : CutsInto w o.after ss) : CutsInto w t (o.before :: ss) := by
  have htext : w.intercalate (o.before :: ss) = t := by
    rw [intercalate_cons w o.before hrest.nonempty, hrest.text_eq, ← h.text_eq, Occurrence.text,
      h.belongs]
  refine ⟨List.cons_ne_nil _ _, htext, ?_, ?_⟩
  · rintro s (_ | ⟨_, hs⟩)
    · exact h.not_contains_before fun m hm => hm ▸ hw
    · exact hrest.free s hs
  · intro xs s rest heq hne
    have hplace : (⟨o.before, w, o.after⟩ : Occurrence) = o := by rw [← h.belongs]
    cases xs with
    | nil =>
      obtain ⟨rfl, rfl⟩ := List.cons.inj heq
      rw [htext, hrest.text_eq, hplace]
      exact h
    | cons x xs => exact hrest.first xs s rest (List.cons.inj heq).2 hne

theorem CutsInto.tail {s : Text} (h : CutsInto w t (s :: ss)) (hss : ss ≠ []) :
    CutsInto w (w.intercalate ss) ss := by
  refine ⟨hss, rfl, fun x hx => h.free x (List.mem_cons_of_mem _ hx), ?_⟩
  intro xs x rest heq hrest
  exact h.first (s :: xs) x rest (congrArg (s :: ·) heq) hrest

theorem cutsInto_pieces (hw : w ≠ []) (t : Text) : CutsInto w t (pieces w t) := by
  cases ho : firstOccurrence? (literal w) t with
  | none =>
    rw [pieces_of_none ho]
    exact .last ((firstOccurrence?_eq_none_iff_not_contains (literal_recognises w)).1 ho)
  | some o =>
    have hlen := length_after_lt hw ho
    rw [pieces_of_some hw ho]
    exact (cutsInto_pieces hw o.after).cons hw
      (isEarliest_of_firstOccurrence? (literal_recognises w) ho)
termination_by t.length

theorem CutsInto.eq_pieces (hw : w ≠ []) (h : CutsInto w t ss) : ss = pieces w t := by
  induction ss generalizing t with
  | nil => exact absurd rfl h.nonempty
  | cons s rest ih =>
    cases rest with
    | nil =>
      obtain rfl : s = t := by simpa using h.text_eq
      have hnone := (firstOccurrence?_eq_none_iff_not_contains (literal_recognises w)).2
        (h.free s (List.mem_singleton_self s))
      rw [pieces_of_none hnone]
    | cons s' rest =>
      have hfirst := h.first [] s (s' :: rest) rfl (List.cons_ne_nil _ _)
      rw [h.text_eq] at hfirst
      rw [pieces_of_some hw ((firstOccurrence?_eq_some_iff (literal_recognises w)).2 hfirst),
        ← ih (h.tail (List.cons_ne_nil _ _))]

/-- A word cuts a text in one way only. -/
theorem cutsInto_iff (hw : w ≠ []) : CutsInto w t ss ↔ ss = pieces w t :=
  ⟨fun h => h.eq_pieces hw, fun h => h ▸ cutsInto_pieces hw t⟩

theorem CutsInto.two_le_length (h : CutsInto w t ss) (ht : Contains (· = w) t) :
    2 ≤ ss.length := by
  match ss, h with
  | [], h => exact absurd rfl h.nonempty
  | [s], h =>
    obtain rfl : s = t := by simpa using h.text_eq
    exact absurd ht (h.free s (List.mem_singleton_self s))
  | _ :: _ :: _, _ => simp

/-- A length that adds up takes the word between the pieces once less than there are pieces. -/
theorem measure_intercalate (f : Text → Nat)
    (happend : ∀ a b, f (a ++ b) = f a + f b) (w : Text) (h : ss ≠ []) :
    f (w.intercalate ss) = (ss.map f).sum + (ss.length - 1) * f w := by
  induction ss with
  | nil => exact absurd rfl h
  | cons s rest ih =>
    cases rest with
    | nil => simp
    | cons s' rest =>
      have ih := ih (List.cons_ne_nil _ _)
      rw [intercalate_cons w s (List.cons_ne_nil _ _), happend, happend, ih]
      simp only [List.map_cons, List.sum_cons, List.length_cons, Nat.add_sub_cancel,
        Nat.succ_mul]
      omega

/-- Putting another word between the pieces changes the length once for each place of the word. -/
theorem measure_replaced (f : Text → Nat)
    (happend : ∀ a b, f (a ++ b) = f a + f b) (h : CutsInto w t ss) (body : Text) :
    (f (body.intercalate ss) : Int) = f t + ((ss.length : Int) - 1) * (f body - f w) := by
  have hpos := List.length_pos_iff.2 h.nonempty
  have hn : ((ss.length - 1 : Nat) : Int) = ss.length - 1 := by omega
  have ht := measure_intercalate f happend w h.nonempty
  rw [h.text_eq] at ht
  rw [measure_intercalate f happend body h.nonempty, ht]
  push_cast
  rw [hn]
  ring

end Text

open Text

variable {template placeholder : Text}

theorem fillTemplate_eq_noPlaceholder_iff {body : Text} :
    fillTemplate template placeholder body = .error (.noPlaceholder placeholder) ↔
      placeholder = [] ∨ ¬ Contains (· = placeholder) template := by
  rw [← firstOccurrence?_eq_none_iff_not_contains (literal_recognises placeholder), fillTemplate]
  split
  · next h => simp [h]
  · next h => simp [h]

theorem fillTemplate_eq_ok {ss : List Text} (hne : placeholder ≠ [])
    (h : Contains (· = placeholder) template) (hss : CutsInto placeholder template ss)
    (body : Text) : fillTemplate template placeholder body = .ok (body.intercalate ss) := by
  have hsome : firstOccurrence? (literal placeholder) template ≠ none := fun hnone =>
    (firstOccurrence?_eq_none_iff_not_contains (literal_recognises placeholder)).1 hnone h
  rw [fillTemplate, if_neg (not_or.2 ⟨hne, hsome⟩), replaceAll, ← (cutsInto_iff hne).1 hss]

/-- A template with its placeholder in it is cut in one way, into two pieces at least, and filling it
with a body puts the body between them.  What is put in is not looked at again: the pieces do not
depend on it. -/
theorem fillTemplate_by_pieces (template placeholder : Text) :
    (∀ body, fillTemplate template placeholder body = .error (.noPlaceholder placeholder) ↔
      placeholder = [] ∨ ¬ Contains (· = placeholder) template) ∧
    (placeholder ≠ [] → Contains (· = placeholder) template →
      ∃ ss, (2 ≤ ss.length ∧ CutsInto placeholder template ss) ∧
        (∀ ss', CutsInto placeholder template ss' → ss' = ss) ∧
        fillTemplate template placeholder placeholder = .ok template ∧
        ∀ body, ∃ filled, fillTemplate template placeholder body = .ok filled ∧
          filled = body.intercalate ss ∧
          (filled.byteLength : Int) = template.byteLength +
            ((ss.length : Int) - 1) * (body.byteLength - placeholder.byteLength) ∧
          (filled.length : Int) = template.length +
            ((ss.length : Int) - 1) * (body.length - placeholder.length)) := by
  refine ⟨fun body => fillTemplate_eq_noPlaceholder_iff, fun hne h => ?_⟩
  have hss : CutsInto placeholder template (pieces placeholder template) := (cutsInto_iff hne).2 rfl
  refine ⟨pieces placeholder template, ⟨hss.two_le_length h, hss⟩, fun ss' => (cutsInto_iff hne).1,
    ?_, fun body => ⟨_, fillTemplate_eq_ok hne h hss body, rfl, ?_, ?_⟩⟩
  · rw [fillTemplate_eq_ok hne h hss, hss.text_eq]
  · exact measure_replaced byteLength byteLength_append hss body
  · exact measure_replaced List.length (fun _ _ => List.length_append) hss body

/-- The placeholder overlaps itself, and with the body put in it occurs again. -/
theorem fillTemplate_by_pieces_overlap :
    let template := "xaaaaay".toList
    let placeholder := "aa".toList
    let ss := ["x".toList, [], "ay".toList]
    placeholder ≠ [] ∧ Contains (· = placeholder) template ∧ CutsInto placeholder template ss ∧
      fillTemplate template placeholder placeholder = .ok template ∧
      fillTemplate template placeholder "é".toList = .ok "xééay".toList ∧
      fillTemplate template placeholder "aaa".toList = .ok "xaaaaaaay".toList := by
  intro template placeholder ss
  have hne : placeholder ≠ [] := by decide
  have hin : Contains (· = placeholder) template := ⟨"x".toList, _, "aaay".toList, rfl, by decide⟩
  have hcut : CutsInto placeholder template ss := by
    refine .cons (o := ⟨"x".toList, "aa".toList, "aaay".toList⟩) hne
      (isEarliest_of_firstOccurrence? (literal_recognises _) (by rfl)) ?_
    refine .cons (o := ⟨[], "aa".toList, "ay".toList⟩) hne
      (isEarliest_of_firstOccurrence? (literal_recognises _) (by rfl)) (.last ?_)
    exact (firstOccurrence?_eq_none_iff_not_contains (literal_recognises _)).1 (by rfl)
  obtain ⟨ss', -, hunique, hsame, hfill⟩ := (fillTemplate_by_pieces template placeholder).2 hne hin
  obtain rfl : ss = ss' := hunique ss hcut
  obtain ⟨_, h₁, rfl, -⟩ := hfill "é".toList
  obtain ⟨_, h₂, rfl, -⟩ := hfill "aaa".toList
  exact ⟨hne, hin, hcut, hsame, h₁, h₂⟩

end PageSplice
