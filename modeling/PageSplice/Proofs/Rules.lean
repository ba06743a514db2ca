import PageSplice.Proofs.Pieces
import PageSplice.Proofs.Stopping

/-!
# Rules on a configuration

A configuration breaks a `Rule` in a way that `Breaks` states, and the rules have an order.  Main
statement: a configuration is refused for the first rule that it breaks, and where it is accepted no
section has an improper name.  A run then fails to load its sections only at a fragment that cannot
be read, and it fails to fill its template only if the placeholder is not there (`verify_first_rule`).
-/

namespace PageSplice

open Text

/-- A name under which a section can be made. -/
def IsAccepted (name : Text) : Prop := ∃ fragment s, Section.make name fragment = .ok s

theorem isAccepted_iff {name : Text} : IsAccepted name ↔ IsSectionName name := by
  constructor
  · rintro ⟨fragment, s, h⟩
    by_contra hname
    rw [Section.make, dif_neg hname] at h
    cases h
  · intro hname
    exact ⟨[], ⟨name, [], hname⟩, by rw [Section.make, dif_pos hname]⟩

/-! ## The first rule broken -/

/-- A rule on the settings, or on the section at a position. -/
inductive Rule where
  | placeholder
  | pages
  | name (i : Nat)
  | unique (i : Nat)
  | fragment (i : Nat)

namespace Rule

/-- The place of a rule in the order of the rules: the settings, then one section after the
other. -/
def rank : Rule → Nat
  | placeholder => 0
  | pages => 1
  | name i => 3 * i + 2
  | unique i => 3 * i + 3
  | fragment i => 3 * i + 4

@[simp] theorem rank_pages : rank pages = 1 := rfl

@[simp] theorem rank_name (i : Nat) : rank (name i) = 3 * i + 2 := rfl

@[simp] theorem rank_unique (i : Nat) : rank (unique i) = 3 * i + 3 := rfl

@[simp] theorem rank_fragment (i : Nat) : rank (fragment i) = 3 * i + 4 := rfl

theorem rank_injective {r r' : Rule} (h : r.rank = r'.rank) : r = r' := by
  cases r <;> cases r' <;> simp only [rank] at h <;> first | rfl | omega | (congr 1; omega)

end Rule

namespace Config

/-- A configuration breaks a rule, and the problem is the one stated. -/
inductive Breaks (c : Config) : Rule → ConfigProblem → Prop
  | placeholder : c.rebuild.placeholder = [] → c.Breaks .placeholder .emptyPlaceholder
  | pages : [] ∈ c.rebuild.pages → c.Breaks .pages .emptyPage
  | name {i : Nat} {s : SectionEntry} : c.retemplate.sections[i]? = some s → ¬ IsAccepted s.name →
      c.Breaks (.name i) (.invalidName s.name)
  | unique {i j : Nat} {s u : SectionEntry} : c.retemplate.sections[i]? = some s →
      c.retemplate.sections[j]? = some u → j < i → u.name = s.name →
      c.Breaks (.unique i) (.duplicateName s.name)
  | fragment {i : Nat} {s : SectionEntry} : c.retemplate.sections[i]? = some s → s.fragment = [] →
      c.Breaks (.fragment i) (.emptyFragment s.name)

/-- A rule is broken, and none before it. -/
def BreaksFirst (c : Config) (r : Rule) (e : ConfigProblem) : Prop :=
  c.Breaks r e ∧ ∀ r' e', c.Breaks r' e' → r.rank ≤ r'.rank

variable {c : Config} {e e' : ConfigProblem} {r r' : Rule}

theorem Breaks.unique_problem (h : c.Breaks r e) (h' : c.Breaks r e') : e = e' := by
  cases h with
  | placeholder | pages =>
    cases h'
    rfl
  | name hs =>
    obtain _ | _ | ⟨hs'⟩ := h'
    rw [Option.some.inj (hs.symm.trans hs')]
  | unique hs =>
    obtain _ | _ | _ | ⟨hs'⟩ := h'
    rw [Option.some.inj (hs.symm.trans hs')]
  | fragment hs =>
    obtain _ | _ | _ | _ | ⟨hs'⟩ := h'
    rw [Option.some.inj (hs.symm.trans hs')]

theorem BreaksFirst.unique_problem (h : c.BreaksFirst r e) (h' : c.BreaksFirst r' e') : e = e' := by
  obtain rfl : r = r' := Rule.rank_injective (Nat.le_antisymm (h.2 _ _ h'.1) (h'.2 _ _ h.1))
  exact h.1.unique_problem h'.1

/-- Where sections are refused, those before some section are in order, and that section is not. -/
theorem exists_of_checkSections {seen : List Text} {ss : List SectionEntry}
    (h : checkSections seen ss = .error e) :
    ∃ before s after, ss = before ++ s :: after ∧ checkSections seen before = .ok () ∧
      ((e = .invalidName s.name ∧ ¬ IsSectionName s.name) ∨
        (e = .duplicateName s.name ∧ IsSectionName s.name ∧
          (s.name ∈ seen ∨ s.name ∈ before.map (·.name))) ∨
        e = .emptyFragment s.name ∧ IsSectionName s.name ∧ s.name ∉ seen ∧
          s.name ∉ before.map (·.name) ∧ s.fragment = []) := by
  induction ss generalizing seen with
  | nil => cases h
  | cons s rest ih =>
    rw [checkSections] at h
    by_cases hname : IsSectionName s.name
    · rw [if_neg (not_not.2 hname)] at h
      by_cases hseen : s.name ∈ seen
      · rw [if_pos hseen] at h
        cases h
        exact ⟨[], s, rest, rfl, rfl, .inr (.inl ⟨rfl, hname, .inl hseen⟩)⟩
      · rw [if_neg hseen] at h
        by_cases hfragment : s.fragment = []
        · rw [if_pos hfragment] at h
          cases h
          exact ⟨[], s, rest, rfl, rfl, .inr (.inr ⟨rfl, hname, hseen, by simp, hfragment⟩)⟩
        · rw [if_neg hfragment] at h
          obtain ⟨before, u, after, rfl, hbefore, hwhy⟩ := ih h
          refine ⟨s :: before, u, after, rfl, ?_, ?_⟩
          · simp [checkSections, hname, hseen, hfragment, hbefore]
          · -- the names seen are those before `u`, with `s` moved from one list to the other
            have hmem : u.name ∈ s.name :: seen ∨ u.name ∈ before.map (·.name) ↔
                u.name ∈ seen ∨ u.name ∈ (s :: before).map (·.name) := by
              simp only [List.mem_cons, List.map_cons]
              tauto
            rcases hwhy with hbad | ⟨he, hu, hdup⟩ | ⟨he, hu, hseen', hbefore', hempty⟩
            · exact .inl hbad
            · exact .inr (.inl ⟨he, hu, hmem.1 hdup⟩)
            · have hnot := (not_congr hmem).1 (not_or.2 ⟨hseen', hbefore'⟩)
              exact .inr (.inr ⟨he, hu, (not_or.1 hnot).1, (not_or.1 hnot).2, hempty⟩)
    · rw [if_pos hname] at h
      cases h
      exact ⟨[], s, rest, rfl, rfl, .inl ⟨rfl, hname⟩⟩

/-- Sections in order break no rule. -/
theorem le_of_breaks {before : List SectionEntry} {s : SectionEntry} {after : List SectionEntry}
    (hss : c.retemplate.sections = before ++ s :: after)
    (hbefore : checkSections [] before = .ok ()) (hplaceholder : c.rebuild.placeholder ≠ [])
    (hpages : [] ∉ c.rebuild.pages) (h : c.Breaks r e) : 3 * before.length + 2 ≤ r.rank := by
  obtain ⟨hrules, hnodup⟩ := checkSections_eq_ok_iff.1 hbefore
  have hold : ∀ {i : Nat} {u : SectionEntry}, c.retemplate.sections[i]? = some u →
      i < before.length → before[i]? = some u := by
    intro i u hu hi
    rwa [hss, List.getElem?_append_left hi] at hu
  have hmem : ∀ {i : Nat} {u : SectionEntry}, c.retemplate.sections[i]? = some u →
      i < before.length → IsSectionName u.name ∧ u.fragment ≠ [] := by
    intro i u hu hi
    obtain ⟨hname, -, hfragment⟩ := hrules u (List.mem_of_getElem? (hold hu hi))
    exact ⟨hname, hfragment⟩
  cases h with
  | placeholder h => exact absurd h hplaceholder
  | pages h => exact absurd h hpages
  | @name i u hu hbad =>
    have hi : ¬ i < before.length := fun hi => hbad (isAccepted_iff.2 (hmem hu hi).1)
    rw [Rule.rank_name]
    omega
  | @unique i j u v hu hv hj heq =>
    have hi : ¬ i < before.length := by
      intro hi
      have hdiff := List.pairwise_iff_getElem.1 hnodup j i (by rw [List.length_map]; omega)
        (by rwa [List.length_map]) hj
      obtain ⟨hjlt, hv⟩ := List.getElem?_eq_some_iff.1 (hold hv (by omega))
      obtain ⟨hilt, hu⟩ := List.getElem?_eq_some_iff.1 (hold hu hi)
      simp only [List.getElem_map, hv, hu] at hdiff
      exact hdiff heq
    rw [Rule.rank_unique]
    omega
  | @fragment i u hu hempty =>
    have hi : ¬ i < before.length := fun hi => (hmem hu hi).2 hempty
    rw [Rule.rank_fragment]
    omega

theorem not_breaks_name {i : Nat} {s : SectionEntry} (hs : c.retemplate.sections[i]? = some s)
    (hname : IsSectionName s.name) : ¬ c.Breaks (.name i) e := by
  rintro (_ | _ | ⟨hs', hbad⟩)
  rw [hs] at hs'
  cases hs'
  exact hbad (isAccepted_iff.2 hname)

theorem not_breaks_unique {before after : List SectionEntry} {s : SectionEntry}
    (hss : c.retemplate.sections = before ++ s :: after) (hnew : s.name ∉ before.map (·.name)) :
    ¬ c.Breaks (.unique before.length) e := by
  rintro (_ | _ | _ | ⟨hs', hu, hj, heq⟩)
  rw [hss, List.getElem?_append_left hj] at hu
  obtain rfl := Option.some.inj ((show _ = some s by simp [hss]).symm.trans hs')
  exact hnew (List.mem_map.2 ⟨_, List.mem_of_getElem? hu, heq⟩)

/-- What is refused breaks a rule, and no rule before it. -/
theorem exists_breaksFirst (h : c.verify = .error e) : ∃ r, c.BreaksFirst r e := by
  rw [verify] at h
  split at h
  · next hplaceholder =>
    cases h
    exact ⟨.placeholder, .placeholder hplaceholder, fun _ _ _ => Nat.zero_le _⟩
  · next hplaceholder =>
    split at h
    · next hpages =>
      cases h
      refine ⟨.pages, .pages hpages, ?_⟩
      intro r' e' h'
      cases h' with
      | placeholder h' => exact absurd h' hplaceholder
      | pages | name | unique | fragment => simp
    · next hpages =>
      obtain ⟨before, s, after, hss, hbefore, hwhy⟩ := exists_of_checkSections h
      have hs : c.retemplate.sections[before.length]? = some s := by simp [hss]
      have hle : ∀ {r' e'}, c.Breaks r' e' → 3 * before.length + 2 ≤ r'.rank :=
        fun h' => le_of_breaks hss hbefore hplaceholder hpages h'
      rcases hwhy with ⟨rfl, hbad⟩ | ⟨rfl, hname, hdup⟩ | ⟨rfl, hname, -, hnew, hempty⟩
      · exact ⟨.name before.length, .name hs (mt isAccepted_iff.1 hbad), fun _ _ => hle⟩
      · obtain ⟨u, hu, heq⟩ := List.mem_map.1 (hdup.resolve_left (by simp))
        obtain ⟨j, hj⟩ := List.mem_iff_getElem?.1 hu
        have hlt : j < before.length := (List.getElem?_eq_some_iff.1 hj).1
        have hu' : c.retemplate.sections[j]? = some u := by
          rw [hss, List.getElem?_append_left hlt, hj]
        refine ⟨.unique before.length, .unique hs hu' hlt heq, fun r' e' h' => ?_⟩
        have hne : (Rule.name before.length).rank ≠ r'.rank := fun heq =>
          not_breaks_name hs hname (Rule.rank_injective heq ▸ h')
        have := hle h'
        rw [Rule.rank_name] at hne
        rw [Rule.rank_unique]
        omega
      · refine ⟨.fragment before.length, .fragment hs hempty, fun r' e' h' => ?_⟩
        have hne : (Rule.name before.length).rank ≠ r'.rank := fun heq =>
          not_breaks_name hs hname (Rule.rank_injective heq ▸ h')
        have hne' : (Rule.unique before.length).rank ≠ r'.rank := fun heq =>
          not_breaks_unique hss hnew (Rule.rank_injective heq ▸ h')
        have := hle h'
        rw [Rule.rank_name] at hne
        rw [Rule.rank_unique] at hne'
        rw [Rule.rank_fragment]
        omega

/-- A configuration is accepted if it breaks no rule. -/
theorem verify_eq_ok_iff_not_breaks : c.verify = .ok () ↔ ∀ r e, ¬ c.Breaks r e := by
  constructor
  · intro h r e hbreaks
    obtain ⟨hplaceholder, hpages, hsections, hnodup⟩ := verify_eq_ok_iff.1 h
    cases hbreaks with
    | placeholder h => exact hplaceholder h
    | pages h => exact hpages h
    | name hs hbad => exact hbad (isAccepted_iff.2 (hsections _ (List.mem_of_getElem? hs)).1)
    | @unique i j s u hs hu hj heq =>
      obtain ⟨hi, rfl⟩ := List.getElem?_eq_some_iff.1 hs
      obtain ⟨hj', rfl⟩ := List.getElem?_eq_some_iff.1 hu
      have hdiff := List.pairwise_iff_getElem.1 hnodup j i (by simpa using hj') (by simpa using hi) hj
      simp only [List.getElem_map] at hdiff
      exact hdiff heq
    | fragment hs hempty => exact (hsections _ (List.mem_of_getElem? hs)).2 hempty
  · intro h
    cases hv : c.verify with
    | ok u => rfl
    | error e =>
      obtain ⟨r, hr, -⟩ := exists_breaksFirst hv
      exact absurd hr (h r e)

theorem verify_eq_error_iff : c.verify = .error e ↔ ∃ r, c.BreaksFirst r e := by
  refine ⟨exists_breaksFirst, fun ⟨r, hr⟩ => ?_⟩
  cases hv : c.verify with
  | ok u => exact absurd hr.1 (verify_eq_ok_iff_not_breaks.1 hv r e)
  | error e' =>
    obtain ⟨r', hr'⟩ := exists_breaksFirst hv
    rw [hr'.unique_problem hr]

end Config

/-! ## What can fail then -/

variable {t : Tree} {c : Config}

/-- Where all names are proper, sections are read in order, or up to a fragment that cannot be
read. -/
theorem readSections_cases {host : Host} {entries : List SectionEntry}
    (h : ∀ e ∈ entries, IsSectionName e.name) :
    (∃ ss, host.readSections t entries = .ok ss ∧ List.Forall₂ (fun e s =>
      s.name = e.name ∧ host.textAt t e.fragment = .ok s.fragment) entries ss) ∨
    ∃ before e after cause, entries = before ++ e :: after ∧
      (∀ u ∈ before, ∃ text, host.textAt t u.fragment = .ok text) ∧
      host.textAt t e.fragment = .error (.reading e.fragment cause) ∧
      host.readSections t entries = .error
        { during := some (.loading e.name), cause := .file (.reading e.fragment cause) } := by
  induction entries with
  | nil => exact .inl ⟨[], rfl, .nil⟩
  | cons e rest ih =>
    have hname := h e (List.mem_cons_self ..)
    cases ht : host.textAt t e.fragment with
    | error fault =>
      obtain ⟨cause, rfl⟩ := Host.exists_of_textAt_error ht
      exact .inr ⟨[], e, rest, cause, rfl, by simp, ht, by simp only [Host.readSections, ht]⟩
    | ok text =>
      have hread : host.readSections t (e :: rest) =
          (host.readSections t rest).map (⟨e.name, text, hname⟩ :: ·) := by
        simp only [Host.readSections, ht, Section.make, dif_pos hname]
      rcases ih fun u hu => h u (List.mem_cons_of_mem _ hu) with
        ⟨ss, hss, hall⟩ | ⟨before, u, after, cause, rfl, hbefore, hu, herror⟩
      · refine .inl ⟨_, by rw [hread, hss]; rfl, .cons ⟨rfl, ht⟩ hall⟩
      · refine .inr ⟨e :: before, u, after, cause, rfl, ?_, hu, by rw [hread, herror]; rfl⟩
        intro v hv
        rcases List.mem_cons.1 hv with rfl | hv
        · exact ⟨text, ht⟩
        · exact hbefore v hv

/-- A failure of the template: while it was being filled, or for want of its placeholder. -/
def Failure.IsOfTemplate (f : Failure) : Prop :=
  (∃ p, f.during = some (.filling p)) ∨ ∃ w, f.cause = .page (.noPlaceholder w)

theorem not_isOfTemplate_file (e : FileFault) : ¬ Failure.IsOfTemplate { cause := .file e } := by
  rintro (⟨p, hp⟩ | ⟨w, hw⟩)
  · cases hp
  · cases hw

theorem not_isOfTemplate_bodyOf {page : Text} {source : Path} {e : PageFault}
    (h : bodyOf page = .error e) :
    ¬ Failure.IsOfTemplate { during := some (.extracting source), cause := .page e } := by
  rintro (⟨p, hp⟩ | ⟨w, hw⟩)
  · cases hp
  · cases hw
    unfold bodyOf at h
    split at h
    · cases h
    · split at h <;> cases h

section Rebuild

variable {check : Bool} {template : Text} {f : Failure}

theorem exists_of_rebuiltPage {page : Path} (h : rebuiltPage t c template page = .error f)
    (hf : f.IsOfTemplate) : ∃ body e, fillTemplate template c.rebuild.placeholder body = .error e ∧
      f = { during := some (.filling c.rebuild.template), cause := .page e } := by
  rw [rebuiltPage] at h
  cases hsource : t.textAt (c.sourceOf page) with
  | error e =>
    simp only [hsource] at h
    cases h
    exact absurd hf (not_isOfTemplate_file e)
  | ok source =>
    cases hbody : bodyOf source with
    | error e =>
      simp only [hsource, hbody] at h
      cases h
      exact absurd hf (not_isOfTemplate_bodyOf hbody)
    | ok body =>
      cases hfill : fillTemplate template c.rebuild.placeholder body with
      | error e =>
        simp only [hsource, hbody, hfill] at h
        cases h
        exact ⟨body, e, hfill, rfl⟩
      | ok html => simp only [hsource, hbody, hfill, reduceCtorEq] at h

theorem rebuiltPage_of_rebuildStep {page : Path}
    (h : (rebuildStep c check template t page).result = .error f) (hf : f.IsOfTemplate) :
    rebuiltPage t c template page = .error f := by
  cases hhtml : rebuiltPage t c template page with
  | error f' =>
    simp only [rebuildStep, hhtml] at h
    cases h
    rfl
  | ok html =>
    cases hcurrent : t.contentAt (c.outputOf page) with
    | error e =>
      simp only [rebuildStep, hhtml, hcurrent] at h
      cases h
      exact absurd hf (not_isOfTemplate_file e)
    | ok current =>
      rw [rebuildStep_eq hhtml hcurrent] at h
      obtain ⟨-, -, -, e, rfl, -⟩ := store_of_settleFile_error h
      exact absurd hf (not_isOfTemplate_file e)

/-- A run does not get its template filled only if the placeholder is not in it. -/
theorem not_contains_of_rebuildAll (hne : c.rebuild.placeholder ≠ [])
    (h : (rebuildAll c check t).result = .error f) (hf : f.IsOfTemplate) :
    ∃ template, t.textAt c.rebuild.template = .ok template ∧
      ¬ Contains (· = c.rebuild.placeholder) template ∧
      f = { during := some (.filling c.rebuild.template),
            cause := .page (.noPlaceholder c.rebuild.placeholder) } := by
  cases ht : t.textAt c.rebuild.template with
  | error e =>
    simp only [rebuildAll, ht] at h
    cases h
    exact absurd hf (not_isOfTemplate_file e)
  | ok template =>
    simp only [rebuildAll, ht] at h
    obtain ⟨seen, page, rest, done, -, -, hpage⟩ :=
      exists_of_runBatch_error (Outcome.result_map_eq_error_iff.1 h)
    obtain ⟨body, e, hfill, rfl⟩ := exists_of_rebuiltPage (rebuiltPage_of_rebuildStep hpage hf) hf
    obtain rfl : e = .noPlaceholder c.rebuild.placeholder := by
      unfold fillTemplate at hfill
      split at hfill
      · cases hfill
        rfl
      · cases hfill
    exact ⟨template, rfl, (fillTemplate_eq_noPlaceholder_iff.1 hfill).resolve_left hne, rfl⟩

end Rebuild

/-- A configuration is accepted if its settings and its sections are in order, and else refused for
the first rule that it breaks.  If it is accepted, its sections are read with their names and the
texts of their fragments, or the first fragment that cannot be read is reported; and a template that
cannot be filled lacks the placeholder. -/
theorem verify_first_rule (c : Config) :
    (c.verify = .ok () ↔ c.rebuild.placeholder ≠ [] ∧ [] ∉ c.rebuild.pages ∧
      (∀ s ∈ c.retemplate.sections, IsAccepted s.name ∧ s.fragment ≠ []) ∧
      (c.retemplate.sections.map (·.name)).Nodup) ∧
    (∀ e, c.verify = .error e ↔ ∃ r, c.BreaksFirst r e) ∧
    (c.verify = .ok () → ∀ t : Tree,
      ((∃ ss, readSections t c.retemplate.sections = .ok ss ∧
          List.Forall₂ (fun e s => s.name = e.name ∧ t.textAt e.fragment = .ok s.fragment)
            c.retemplate.sections ss) ∨
        ∃ before e after cause, c.retemplate.sections = before ++ e :: after ∧
          (∀ u ∈ before, ∃ text, t.textAt u.fragment = .ok text) ∧
          t.textAt e.fragment = .error (.reading e.fragment cause) ∧
          readSections t c.retemplate.sections = .error
            { during := some (.loading e.name), cause := .file (.reading e.fragment cause) }) ∧
      ∀ check f, (rebuildAll c check t).result = .error f → f.IsOfTemplate →
        ∃ template, t.textAt c.rebuild.template = .ok template ∧
          ¬ Contains (· = c.rebuild.placeholder) template ∧
          f = { during := some (.filling c.rebuild.template),
                cause := .page (.noPlaceholder c.rebuild.placeholder) }) := by
  refine ⟨?_, fun e => Config.verify_eq_error_iff, fun h t => ?_⟩
  · simp only [isAccepted_iff]
    exact Config.verify_eq_ok_iff
  · obtain ⟨hne, -, hnames, -⟩ := Config.verify_eq_ok_iff.1 h
    exact ⟨readSections_cases fun e he => (hnames e he).1,
      fun check f hrun hf => not_contains_of_rebuildAll hne hrun hf⟩

/-- The first configuration breaks four rules.  The second one is accepted: the fragment of its second
section cannot be read, and the placeholder is in the page but not in the template. -/
theorem verify_first_rule_of_four :
    let a : SectionEntry := ⟨"A".toList, "f".toList⟩
    let b : SectionEntry := ⟨"　B".toList, []⟩
    let c : Config := { retemplate := ⟨[a, { a with fragment := [] }, b, a]⟩ }
    let d : Config :=
      { rebuild := { template := "t".toList }
        retemplate := ⟨[a, ⟨"B".toList, "g".toList⟩, ⟨"C".toList, "h".toList⟩]⟩ }
    let t := (Tree.ofTexts [("f", "F"), ("t", "_BODY_")]).addText ["docs"] "index.html"
      "<body>__BODY__</body>"
    c.Breaks (.unique 1) (.duplicateName a.name) ∧ c.Breaks (.fragment 1) (.emptyFragment a.name) ∧
      c.Breaks (.name 2) (.invalidName b.name) ∧ c.Breaks (.unique 3) (.duplicateName a.name) ∧
      (∃ r, c.BreaksFirst r (.duplicateName a.name)) ∧ d.verify = .ok () ∧
      (∃ e ∈ d.retemplate.sections, ∃ cause, readSections t d.retemplate.sections = .error
        { during := some (.loading e.name), cause := .file (.reading e.fragment cause) }) ∧
      (∃ f, (rebuildAll d false t).result = .error f ∧ f.IsOfTemplate) ∧
      ¬ Contains (· = "__BODY__".toList) "_BODY_".toList := by
  intro a b c d t
  have hname : ¬ IsAccepted b.name := mt isAccepted_iff.1 (by decide)
  have hd : d.verify = .ok () := by rfl
  let f : Failure :=
    { during := some (.filling "t".toList), cause := .page (.noPlaceholder "__BODY__".toList) }
  have hrun : (rebuildAll d false t).result = .error f := by decide +kernel
  have hf : f.IsOfTemplate := .inl ⟨_, rfl⟩
  obtain ⟨hread, htemplate⟩ := (verify_first_rule d).2.2 hd t
  obtain ⟨template, ht, hmissing, -⟩ := htemplate false f hrun hf
  obtain rfl : "_BODY_".toList = template := by
    have htext : t.textAt d.rebuild.template = .ok "_BODY_".toList := by decide +kernel
    exact Except.ok.inj (htext.symm.trans ht)
  let u : SectionEntry := { a with fragment := [] }
  refine ⟨.unique (j := 0) (s := u) rfl rfl (by decide) rfl, .fragment (s := u) rfl rfl,
    .name (s := b) rfl hname, .unique (j := 0) rfl rfl (by decide) rfl,
    ((verify_first_rule c).2.1 _).1 (by rfl), hd, ?_, ⟨f, hrun, hf⟩, hmissing⟩
  obtain ⟨ss, hss, -⟩ | ⟨before, e, after, cause, hmem, -, -, herror⟩ := hread
  · have hnone : ∀ ss, readSections t d.retemplate.sections = .ok ss → False := by decide +kernel
    exact (hnone ss hss).elim
  · exact ⟨e, by rw [hmem]; simp, cause, herror⟩

end PageSplice
