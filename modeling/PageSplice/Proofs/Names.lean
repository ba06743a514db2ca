import PageSplice.Config.Basic
import PageSplice.Proofs.Marker

/-!
# Names and their markers

Each marker has one label, so two sections of different names share no start marker and no end
marker.  A label may begin with a slash, though: the start marker of a section `/N` is the end marker
of `N`, and a configuration may name both (`slash_name_shares_marker`).  In no other way is a marker
that of two sections (`isMarker_both_iff`).
-/

namespace PageSplice

open Text

/-- A start or an end marker of a section. -/
def IsMarker (name m : Text) : Prop := IsComment name m ∨ IsComment ('/' :: name) m

/-- What is a marker of two sections is the start marker of one and the end marker of the other. -/
theorem eq_slash_of_isMarker {m n t : Text} (hm : IsSectionName m) (hn : IsSectionName n)
    (hne : m ≠ n) (htm : IsMarker m t) (htn : IsMarker n t) :
    (m = '/' :: n ∧ IsComment m t) ∨ (n = '/' :: m ∧ IsComment n t) := by
  have hm' := isSectionName_slash hm
  have hn' := isSectionName_slash hn
  rcases htm with htm | htm
  · rcases htn with htn | htn
    · exact absurd (htm.name_unique hm hn htn) hne
    · exact .inl ⟨htm.name_unique hm hn' htn, htm⟩
  · rcases htn with htn | htn
    · exact .inr ⟨htn.name_unique hn hm' htm, htn⟩
    · have heq := htm.name_unique hm' hn' htn
      exact absurd (List.cons.inj heq).2 hne

/-- A marker belongs to two sections only if the name of one is that of the other behind a slash: it
is then any start marker of the former.  So it is for the sections of every configuration that is
accepted. -/
theorem isMarker_both_iff :
    (∀ m n t : Text, IsSectionName m → IsSectionName n → m ≠ n →
      (IsMarker m t ∧ IsMarker n t ↔
        (m = '/' :: n ∧ IsComment m t) ∨ (n = '/' :: m ∧ IsComment n t))) ∧
    ∀ c : Config, c.verify = .ok () → c.retemplate.sections.Pairwise fun s u => ∀ t,
      (IsMarker s.name t ∧ IsMarker u.name t ↔
        (s.name = '/' :: u.name ∧ IsComment s.name t) ∨
          (u.name = '/' :: s.name ∧ IsComment u.name t)) := by
  have hboth : ∀ m n t : Text, IsSectionName m → IsSectionName n → m ≠ n →
      (IsMarker m t ∧ IsMarker n t ↔
        (m = '/' :: n ∧ IsComment m t) ∨ (n = '/' :: m ∧ IsComment n t)) := by
    intro m n t hm hn hne
    constructor
    · rintro ⟨htm, htn⟩
      exact eq_slash_of_isMarker hm hn hne htm htn
    · rintro (⟨rfl, ht⟩ | ⟨rfl, ht⟩)
      · exact ⟨.inl ht, .inr ht⟩
      · exact ⟨.inr ht, .inl ht⟩
  refine ⟨hboth, ?_⟩
  intro c hc
  obtain ⟨-, -, hnames, hnodup⟩ := Config.verify_eq_ok_iff.1 hc
  refine (List.pairwise_map.1 hnodup).imp_of_mem ?_
  intro s u hs hu hne t
  exact hboth s.name u.name t (hnames s hs).1 (hnames u hu).1 hne

/-- The same comment ends section `A` and starts section `/A`, also for a configuration. -/
theorem isMarker_both_slash :
    let a := "A".toList
    let b := "/A".toList
    let t := "<!--\u3000/A -->".toList
    let c : Config :=
      { retemplate := ⟨[⟨a, "f".toList⟩, ⟨"B".toList, "f".toList⟩, ⟨b, "g".toList⟩]⟩ }
    IsSectionName a ∧ IsSectionName b ∧ a ≠ b ∧ IsMarker a t ∧ IsMarker b t ∧ c.verify = .ok () ∧
      c.retemplate.sections.Pairwise fun s u => ∀ t, IsMarker s.name t ∧ IsMarker u.name t →
        u.name = '/' :: s.name ∨ s.name = '/' :: u.name := by
  intro a b t c
  have ha : IsSectionName a := by decide
  have hb : IsSectionName b := by decide
  have hne : a ≠ b := by decide
  have ht : IsComment b t := ⟨"\u3000".toList, " ".toList, by decide, by decide, by decide⟩
  have hc : c.verify = .ok () := by rfl
  obtain ⟨hnames, hconfig⟩ := isMarker_both_iff
  obtain ⟨hta, htb⟩ := (hnames a b t ha hb hne).2 (.inr ⟨rfl, ht⟩)
  refine ⟨ha, hb, hne, hta, htb, hc, (hconfig c hc).imp ?_⟩
  intro s u h t hboth
  rcases (h t).1 hboth with ⟨heq, -⟩ | ⟨heq, -⟩
  · exact .inr heq
  · exact .inl heq

/-- A configuration with the names `A` and `/A` is accepted; the end marker of one section is the
start marker of the other, and both are filled at it. -/
theorem slash_name_shares_marker :
    let a : Section := ⟨"A".toList, "1".toList, by decide⟩
    let b : Section := ⟨"/A".toList, "2".toList, by decide⟩
    let c : Config := { retemplate := ⟨[⟨a.name, "f".toList⟩, ⟨b.name, "g".toList⟩]⟩ }
    a.name ≠ b.name ∧ c.verify = .ok () ∧ IsMarker a.name "<!--/A-->".toList ∧
      IsMarker b.name "<!--/A-->".toList ∧
      fillSections "<!--A-->x<!--/A-->y<!--//A-->".toList [a, b] =
        .ok "<!--A-->1<!--/A-->2<!--//A-->".toList := by
  intro a b c
  have ht : IsComment b.name "<!--/A-->".toList := ⟨[], [], by decide, by decide, by decide⟩
  exact ⟨by decide, by rfl, .inr ht, .inl ht, by rfl⟩

end PageSplice
