import Mathlib
import PageSplice.Proofs.Keys
import PageSplice.Proofs.Program

/-!
# Three layers of settings

A setting is what the command line gives; if it gives nothing, what the configuration file holds;
and if this has no such key, the default.  The settings are verified once the layers are put over
one another, so nothing else can fail after the file was read (`configFor_layered`).
-/

namespace PageSplice

open Toml (Value Fields)

variable {α σ : Type}

/-! ## Values as settings -/

/-- The setting for which a value stands that is a string. -/
def IsText (v : Value) (t : Text) : Prop := v = .string t

/-- The setting for which an array stands, given what its items stand for. -/
def IsList (item : Value → α → Prop) (v : Value) (xs : List α) : Prop :=
  ∃ vs, (v = .array vs ∨ v = .tables vs) ∧ List.Forall₂ item vs xs

/-- What a value holds as a table of some fields: its own fields or, if it is an array, its items
under the names in their order. -/
def Toml.Value.named (names : List Text) : Value → Fields
  | .table _ fs => fs
  | .array vs => names.zip vs
  | .tables vs => names.zip vs
  | _ => []

def fieldNames (fields : List (Field σ)) : List Text := fields.map (·.name)

/-- The section for which a table or an array stands. -/
def IsSection (v : Value) (s : SectionEntry) : Prop :=
  (v.named (fieldNames sectionFields)).get? "name".toList = some (.string s.name) ∧
    (v.named (fieldNames sectionFields)).get? "fragment".toList = some (.string s.fragment)

/-- A setting under what is given for it, what is documented, and a default. -/
def Layered (given : Option α) (documented : Option Value) (means : Value → α → Prop)
    (default x : α) : Prop :=
  match given, documented with
  | some a, _ => x = a
  | none, some v => means v x
  | none, none => x = default

theorem Layered.over {documented : Option Value} {means : Value → α → Prop} {default x : α}
    (h : Layered none documented means default x) (given : Option α) :
    Layered given documented means default (given.getD x) := by
  cases given with
  | none => exact h
  | some a => exact rfl

/-! ## Reading a table -/

theorem readString_eq_ok_iff {wanted : Wanted} {v : Value} {t : Text} :
    readString wanted v = .ok t ↔ IsText v t := by
  cases v <;> simp [readString, wrongType, IsText]

theorem isList_of_readList {item : Reading α} {P : Value → α → Prop} {v : Value} {xs : List α}
    (hv : v.WellFormed) (hitem : ∀ w, w.WellFormed → ∀ x, item w = .ok x → P w x)
    (h : readList item v = .ok xs) : IsList P v xs := by
  have hall : ∀ vs : List Value, (∀ w ∈ vs, w.WellFormed) → vs.mapM item = .ok xs →
      List.Forall₂ P vs xs := fun vs hvs hm =>
    ((List.forall₂_and_left vs xs).2 ⟨hvs, mapM_eq_ok_iff.1 hm⟩).imp fun w x hw => hitem w hw.1 x hw.2
  cases hv with
  | array hvs => exact ⟨_, .inl rfl, hall _ hvs h⟩
  | tables hvs => exact ⟨_, .inr rfl, hall _ hvs h⟩
  | _ => cases h

/-- What a record shows at one of its fields: reading this field from a value sets it to what the
value stands for, and reading another one leaves it. -/
structure Shows (fields : List (Field σ)) (name : Text) (get : σ → α) (means : Value → α → Prop) :
    Prop where
  own : ∀ f ∈ fields, f.name = name → ∀ v s s', v.WellFormed → f.read v s = .ok s' → means v (get s')
  other : ∀ f ∈ fields, f.name ≠ name → ∀ v s s', f.read v s = .ok s' → get s' = get s

section Table

variable {fields : List (Field σ)} {name : Text} {get : σ → α} {means : Value → α → Prop}
  {fs : Fields} {s s' : σ}

theorem readNamed_cons_eq_ok {k : Text} {v : Value}
    (h : Field.readNamed fields ((k, v) :: fs) s = .ok s') :
    ∃ f ∈ fields, f.name = k ∧ ∃ s₁, f.read v s = .ok s₁ ∧ Field.readNamed fields fs s₁ = .ok s' := by
  rw [Field.readNamed] at h
  split at h
  · cases h
  · next f hf =>
    cases hread : f.read v s with
    | error e => rw [hread] at h; cases h
    | ok s₁ =>
      rw [hread] at h
      exact ⟨f, List.mem_of_find?_eq_some hf, by simpa using List.find?_some hf, s₁, hread, h⟩

theorem Shows.readNamed (hshows : Shows fields name get means) (hfs : fs.WellFormed)
    (h : Field.readNamed fields fs s = .ok s') :
    Layered none (fs.get? name) means (get s) (get s') := by
  induction fs generalizing s with
  | nil =>
    cases h
    exact rfl
  | cons f fs ih =>
    obtain ⟨k, v⟩ := f
    obtain ⟨g, hg, hgk, s₁, hread, hrest⟩ := readNamed_cons_eq_ok h
    have hnodup := List.nodup_cons.1 hfs.nodup
    have ih := ih ⟨hnodup.2, fun f hf => hfs.values f (List.mem_cons_of_mem _ hf)⟩ hrest
    by_cases hk : name = k
    · -- the key does not stand again behind
      subst hk
      have hbehind : Fields.get? name fs = none := by
        cases hget : Fields.get? name fs with
        | none => rfl
        | some w =>
          exact absurd (List.mem_map.2 ⟨_, Fields.mem_of_get? hget, rfl⟩) hnodup.1
      have hown := hshows.own g hg hgk v s s₁ (hfs.values _ (List.mem_cons_self ..)) hread
      rw [hbehind] at ih
      have ih : get s' = get s₁ := ih
      rw [Fields.get?, List.lookup_cons_self]
      exact ih ▸ hown
    · have hsame := hshows.other g hg (hgk ▸ Ne.symm hk) v s s₁ hread
      rw [Fields.get?, List.lookup_cons, beq_false_of_ne hk]
      exact hsame ▸ ih

theorem find?_of_nodup (hnames : (fieldNames fields).Nodup) {f : Field σ} (hf : f ∈ fields) :
    fields.find? (·.name = f.name) = some f := by
  induction fields with
  | nil => cases hf
  | cons g fields ih =>
    obtain ⟨hg, hnames⟩ := List.nodup_cons.1 hnames
    rcases List.mem_cons.1 hf with rfl | hf
    · simp
    · have hne : g.name ≠ f.name := fun h => hg (List.mem_map.2 ⟨f, hf, h.symm⟩)
      rw [List.find?_cons_of_neg (by simpa using hne)]
      exact ih hnames hf

/-- Fields read in order are read by their names. -/
theorem readInOrder_eq {vs : List Value} (hnames : (fieldNames fields).Nodup) :
    Field.readInOrder fields vs s = Field.readNamed fields ((fieldNames fields).zip vs) s := by
  have key : ∀ rest : List (Field σ), (∀ f ∈ rest, f ∈ fields) → ∀ vs s,
      Field.readInOrder rest vs s = Field.readNamed fields ((fieldNames rest).zip vs) s := by
    intro rest hrest
    induction rest with
    | nil => exact fun _ _ => rfl
    | cons f rest ih =>
      intro vs s
      cases vs with
      | nil => rfl
      | cons v vs =>
        have hf := find?_of_nodup hnames (hrest f (List.mem_cons_self ..))
        have ih := ih fun g hg => hrest g (List.mem_cons_of_mem _ hg)
        simp only [Field.readInOrder, fieldNames, List.map_cons, List.zip_cons_cons,
          Field.readNamed, hf]
        congr 1
        funext s₁
        exact ih vs s₁
  exact key fields (fun _ hf => hf) vs s

theorem map_fst_zip_sublist {β : Type} (xs : List α) (ys : List β) :
    ((xs.zip ys).map (·.1)).Sublist xs := by
  induction xs generalizing ys with
  | nil => simp
  | cons x xs ih =>
    cases ys with
    | nil => simp
    | cons y ys => exact (ih ys).cons_cons x

theorem wellFormed_zip {names : List Text} {vs : List Value} (hnames : names.Nodup)
    (hvs : ∀ v ∈ vs, v.WellFormed) : Fields.WellFormed (names.zip vs) := by
  refine ⟨?_, fun f hf => hvs _ (List.of_mem_zip hf).2⟩
  exact hnames.sublist (map_fst_zip_sublist names vs)

/-- A table is read by the names under which it holds values, also if it is written as an array. -/
theorem Shows.readTable (hshows : Shows fields name get means) (hnames : (fieldNames fields).Nodup)
    {wanted : Wanted} {v : Value} (hv : v.WellFormed)
    (h : Field.readTable fields wanted s v = .ok s') :
    Layered none ((v.named (fieldNames fields)).get? name) means (get s) (get s') := by
  cases hv with
  | table hnodup hvalues => exact hshows.readNamed ⟨hnodup, hvalues⟩ h
  | array hvs =>
    rw [Field.readTable, readInOrder_eq hnames] at h
    exact hshows.readNamed (wellFormed_zip hnames hvs) h
  | tables hvs =>
    rw [Field.readTable, readInOrder_eq hnames] at h
    exact hshows.readNamed (wellFormed_zip hnames hvs) h
  | _ => cases h

end Table

/-! ## The fields of a configuration -/

section Shows

variable {fields : List (Field σ)} {name n : String} {get : σ → α} {means : Value → α → Prop}
  {β : Type} {read : Reading β} {put : β → σ → σ}

theorem read_of_eq_ok {v : Value} {s s' : σ} (h : (Field.of n read put).read v s = .ok s') :
    ∃ b, read v = .ok b ∧ s' = put b s := by
  simp only [Field.of] at h
  cases hr : read v with
  | error e => rw [hr] at h; cases h
  | ok b =>
    rw [hr] at h
    cases h
    exact ⟨b, rfl, rfl⟩

theorem Shows.nil {name : Text} : Shows [] name get means := ⟨by simp, by simp⟩

theorem Shows.cons_own (h : Shows fields name.toList get means)
    (hown : ∀ v b s, v.WellFormed → read v = .ok b → means v (get (put b s))) :
    Shows (.of name read put :: fields) name.toList get means := by
  refine ⟨fun f hf hn v s s' hv hread => ?_, fun f hf hn v s s' hread => ?_⟩
  · rcases List.mem_cons.1 hf with rfl | hf
    · obtain ⟨b, hb, rfl⟩ := read_of_eq_ok hread
      exact hown v b s hv hb
    · exact h.own f hf hn v s s' hv hread
  · rcases List.mem_cons.1 hf with rfl | hf
    · exact absurd rfl hn
    · exact h.other f hf hn v s s' hread

theorem Shows.cons_other (h : Shows fields name.toList get means) (hne : n ≠ name)
    (hkeep : ∀ b s, get (put b s) = get s) :
    Shows (.of n read put :: fields) name.toList get means := by
  refine ⟨fun f hf hn v s s' hv hread => ?_, fun f hf hn v s s' hread => ?_⟩
  · rcases List.mem_cons.1 hf with rfl | hf
    · exact absurd (String.toList_injective hn) hne
    · exact h.own f hf hn v s s' hv hread
  · rcases List.mem_cons.1 hf with rfl | hf
    · obtain ⟨b, -, rfl⟩ := read_of_eq_ok hread
      exact hkeep b s
    · exact h.other f hf hn v s s' hread

end Shows

theorem shows_template : Shows rebuildFields "template".toList (·.template) IsText := by
  unfold rebuildFields
  refine .cons_own ?_ fun v b s _ hb => readString_eq_ok_iff.1 hb
  iterate 4 refine .cons_other ?_ (by decide) fun _ _ => rfl
  exact .nil

theorem shows_placeholder : Shows rebuildFields "placeholder".toList (·.placeholder) IsText := by
  unfold rebuildFields
  refine .cons_other ?_ (by decide) fun _ _ => rfl
  refine .cons_own ?_ fun v b s _ hb => readString_eq_ok_iff.1 hb
  iterate 3 refine .cons_other ?_ (by decide) fun _ _ => rfl
  exact .nil

theorem shows_sourceDir : Shows rebuildFields "source_dir".toList (·.sourceDir) IsText := by
  unfold rebuildFields
  iterate 2 refine .cons_other ?_ (by decide) fun _ _ => rfl
  refine .cons_own ?_ fun v b s _ hb => readString_eq_ok_iff.1 hb
  iterate 2 refine .cons_other ?_ (by decide) fun _ _ => rfl
  exact .nil

theorem shows_outputDir : Shows rebuildFields "output_dir".toList (·.outputDir) IsText := by
  unfold rebuildFields
  iterate 3 refine .cons_other ?_ (by decide) fun _ _ => rfl
  refine .cons_own ?_ fun v b s _ hb => readString_eq_ok_iff.1 hb
  refine .cons_other ?_ (by decide) fun _ _ => rfl
  exact .nil

theorem shows_pages : Shows rebuildFields "pages".toList (·.pages) (IsList IsText) := by
  unfold rebuildFields
  iterate 4 refine .cons_other ?_ (by decide) fun _ _ => rfl
  refine .cons_own .nil fun v b s hv hb => ?_
  exact isList_of_readList hv (fun w _ x hx => readString_eq_ok_iff.1 hx) hb

/-- A field that has been read holds the text for which a value stands. -/
def IsSomeText (v : Value) (t : Option Text) : Prop := ∃ u, t = some u ∧ IsText v u

theorem shows_name : Shows sectionFields "name".toList (·.name) IsSomeText := by
  unfold sectionFields
  refine .cons_own ?_ fun v b s _ hb => ⟨b, rfl, readString_eq_ok_iff.1 hb⟩
  exact .cons_other .nil (by decide) fun _ _ => rfl

theorem shows_fragment : Shows sectionFields "fragment".toList (·.fragment) IsSomeText := by
  unfold sectionFields
  refine .cons_other ?_ (by decide) fun _ _ => rfl
  exact .cons_own .nil fun v b s _ hb => ⟨b, rfl, readString_eq_ok_iff.1 hb⟩

theorem get?_of_layered {documented : Option Value} {t : Text}
    (h : Layered none documented IsSomeText none (some t)) : documented = some (.string t) := by
  cases documented with
  | none => cases h
  | some v =>
    obtain ⟨u, hu, hv⟩ := h
    cases hu
    exact congrArg some hv

theorem isSection_of_readSection {v : Value} {s : SectionEntry} (hv : v.WellFormed)
    (h : readSection v = .ok s) : IsSection v s := by
  unfold readSection at h
  cases hr : Field.readTable sectionFields .sectionTable {} v with
  | error e => rw [hr] at h; cases h
  | ok r =>
    have hname := shows_name.readTable (by decide) hv hr
    have hfragment := shows_fragment.readTable (by decide) hv hr
    rw [hr] at h
    simp only [bind, Except.bind] at h
    split at h
    · next name fragment hn hf =>
      cases h
      rw [hn] at hname
      rw [hf] at hfragment
      exact ⟨get?_of_layered hname, get?_of_layered hfragment⟩
    · split at h <;> cases h

theorem shows_sections :
    Shows retemplateFields "sections".toList (·.sections) (IsList IsSection) :=
  .cons_own .nil fun _ _ _ hv hb => isList_of_readList hv (fun _ hw _ hx =>
    isSection_of_readSection hw hx) hb

/-- The record into which a value is read as a table. -/
def ReadsInto (fields : List (Field σ)) (wanted : Wanted) (s : σ) (v : Value) (r : σ) : Prop :=
  Field.readTable fields wanted s v = .ok r

theorem shows_rebuild :
    Shows configFields "rebuild".toList (·.rebuild) (ReadsInto rebuildFields .rebuildTable {}) := by
  unfold configFields
  refine .cons_own ?_ fun v b s _ hb => hb
  exact .cons_other .nil (by decide) fun _ _ => rfl

theorem shows_retemplate :
    Shows configFields "retemplate".toList (·.retemplate)
      (ReadsInto retemplateFields .retemplateTable {}) := by
  unfold configFields
  refine .cons_other ?_ (by decide) fun _ _ => rfl
  exact .cons_own .nil fun v b s _ hb => hb

/-! ## Settings of a document -/

/-- What a document holds for a field of a table. -/
def setting (doc : Fields) (table : String) (fields : List (Field σ)) (key : String) :
    Option Value :=
  (doc.get? table.toList).bind fun v => (v.named (fieldNames fields)).get? key.toList

theorem Shows.setting {fields : List (Field σ)} {key table : String} {get : σ → α}
    {means : Value → α → Prop} {doc : Fields} {wanted : Wanted} {s r : σ}
    (hshows : Shows fields key.toList get means) (hnames : (fieldNames fields).Nodup)
    (hdoc : doc.WellFormed)
    (h : Layered none (doc.get? table.toList) (ReadsInto fields wanted s) s r) :
    Layered none (setting doc table fields key) means (get s) (get r) := by
  unfold PageSplice.setting
  cases hv : doc.get? table.toList with
  | none =>
    rw [hv] at h
    exact congrArg get h
  | some v =>
    rw [hv] at h
    exact hshows.readTable hnames (hdoc.get? hv) h

/-- The document to which a configuration file comes down: its own one if it can be read as a
configuration, or the empty one if it is missing. -/
def Documents (t : Tree) (p : Path) (doc : Fields) : Prop :=
  (¬ t.leads p ∧ doc = []) ∨
    ∃ text c, t.textAt p = .ok text ∧ Toml.document? text = some doc ∧ Config.parse text = .ok c

theorem exists_of_documents {t : Tree} {p : Path} {doc : Fields} (h : Documents t p doc) :
    ∃ c, Config.loaded t p = .ok c ∧ Field.readNamed configFields doc {} = .ok c ∧
      doc.WellFormed := by
  obtain ⟨hleads, rfl⟩ | ⟨text, c, htext, hdoc, hparse⟩ := h
  · exact ⟨{}, if_neg hleads, rfl, Fields.wellFormed_nil⟩
  · refine ⟨c, ?_, ?_, Toml.wellFormed_of_document? hdoc⟩
    · have hread := Tree.textAt_eq_ok_iff.1 htext
      obtain ⟨l, hl, -⟩ := Tree.read_eq_ok_iff.1 hread
      have hleads : t.leads p := by
        rw [Tree.leads, hl]
        rfl
      rw [Config.loaded, if_pos hleads, Config.load, hread]
      simp only [Text.decode?_encode, hparse]
    · have hparse : (Field.readNamed configFields doc {}).mapError ConfigFault.readingFault = .ok c := by
        rw [Config.parse, hdoc] at hparse
        exact hparse
      cases hr : Field.readNamed configFields doc {} with
      | error e => rw [hr] at hparse; cases hparse
      | ok c' => rw [hr] at hparse; cases hparse; rfl

/-! ## The layers -/

/-- What a command line asks of a rebuild; nothing if it asks for something else. -/
def Command.rebuildRequest : Command → RebuildRequest
  | .rebuild r => r
  | _ => {}

/-- The sections that a command line gives for retemplating. -/
def Command.sectionsGiven : Command → List SectionEntry
  | .retemplate r => r.sections
  | _ => []

/-- A list that is empty gives nothing. -/
def givenList (xs : List α) : Option (List α) := if xs = [] then none else some xs

theorem override_eq (c : Config) (command : Command) :
    c.override command =
      { c with
        rebuild :=
          { template := command.rebuildRequest.template.getD c.rebuild.template
            placeholder := command.rebuildRequest.placeholder.getD c.rebuild.placeholder
            sourceDir := command.rebuildRequest.sourceDir.getD c.rebuild.sourceDir
            outputDir := command.rebuildRequest.outputDir.getD c.rebuild.outputDir
            pages := (givenList command.rebuildRequest.pages).getD c.rebuild.pages }
        retemplate :=
          { sections := (givenList command.sectionsGiven).getD c.retemplate.sections } } := by
  cases command with
  | init => rfl
  | rebuild r =>
    by_cases hpages : r.pages = [] <;>
      simp [Config.override, Command.rebuildRequest, Command.sectionsGiven, givenList, hpages]
  | retemplate r =>
    by_cases hsections : r.sections = [] <;>
      simp [Config.override, Command.rebuildRequest, Command.sectionsGiven, givenList, hsections]

/-- A configuration in which each setting comes from the first layer that has it: the command, the
document, the defaults. -/
structure Layers (doc : Fields) (command : Command) (c : Config) : Prop where
  template : Layered command.rebuildRequest.template
    (setting doc "rebuild" rebuildFields "template") IsText
    ({} : RebuildSettings).template c.rebuild.template
  placeholder : Layered command.rebuildRequest.placeholder
    (setting doc "rebuild" rebuildFields "placeholder") IsText
    ({} : RebuildSettings).placeholder c.rebuild.placeholder
  sourceDir : Layered command.rebuildRequest.sourceDir
    (setting doc "rebuild" rebuildFields "source_dir") IsText
    ({} : RebuildSettings).sourceDir c.rebuild.sourceDir
  outputDir : Layered command.rebuildRequest.outputDir
    (setting doc "rebuild" rebuildFields "output_dir") IsText
    ({} : RebuildSettings).outputDir c.rebuild.outputDir
  pages : Layered (givenList command.rebuildRequest.pages)
    (setting doc "rebuild" rebuildFields "pages") (IsList IsText)
    ({} : RebuildSettings).pages c.rebuild.pages
  sections : Layered (givenList command.sectionsGiven)
    (setting doc "retemplate" retemplateFields "sections") (IsList IsSection)
    ({} : RetemplateSettings).sections c.retemplate.sections

theorem layers_override {doc : Fields} {c : Config} (hdoc : doc.WellFormed)
    (h : Field.readNamed configFields doc {} = .ok c) (command : Command) :
    Layers doc command (c.override command) := by
  have hrebuild := shows_rebuild.readNamed hdoc h
  have hretemplate := shows_retemplate.readNamed hdoc h
  rw [override_eq]
  have hnames : (fieldNames rebuildFields).Nodup := by decide
  exact
    { template := (shows_template.setting hnames hdoc hrebuild).over _
      placeholder := (shows_placeholder.setting hnames hdoc hrebuild).over _
      sourceDir := (shows_sourceDir.setting hnames hdoc hrebuild).over _
      outputDir := (shows_outputDir.setting hnames hdoc hrebuild).over _
      pages := (shows_pages.setting hnames hdoc hrebuild).over _
      sections := (shows_sections.setting (by decide) hdoc hretemplate).over _ }

/-- The configuration that is verified has its settings from the three layers, and loading fails
only if it breaks a rule; the same settings then come back anchored.  Starting a project reads no
file, so it takes the defaults and cannot fail. -/
theorem configFor_layered (home : Path) (line : CommandLine) (t : Tree) :
    (∀ doc, line.command ≠ .init → Documents t line.configFile doc →
      ∃ c, Layers doc line.command c ∧
        (∀ e, c.verify = .error e →
          configFor home line t = .error { cause := .config (.invalid e) }) ∧
        (c.verify = .ok () →
          configFor home line t = .ok (Config.anchor t home line.rootPath c))) ∧
    (line.command = .init →
      configFor home line t = .ok (Config.anchor t home line.rootPath (Config.update t line {}))) := by
  refine ⟨fun doc hline hdoc => ?_, fun hline => configFor_init home hline t⟩
  obtain ⟨c, hloaded, hread, hwf⟩ := exists_of_documents hdoc
  have hconfig := configFor_of_ne_init home hline t
  have hlayers := layers_override hwf hread line.command
  rw [hloaded] at hconfig
  -- the path of the file is no setting
  refine ⟨c.update t line, { hlayers with }, fun e he => ?_, fun hok => ?_⟩
  · have he : (c.override line.command).verify = .error e := he
    simp only [hconfig, he]
  · have hok : (c.override line.command).verify = .ok () := hok
    simp only [hconfig, hok]

/-- The file writes one table as an array, and the list of sections in the other one is empty. -/
theorem configFor_layered_array :
    let t := Tree.ofTexts [("splice.toml", "rebuild = ['t']\nretemplate.sections = []\n")]
    let line : CommandLine := { command := .rebuild { placeholder := some "X".toList } }
    ∃ c, configFor [] line t = .ok (Config.anchor t [] line.rootPath c) ∧
      c.rebuild = { template := "t".toList, placeholder := "X".toList } ∧
      c.retemplate = { sections := [] } := by
  intro t line
  let doc : Fields := [("rebuild".toList, .array [.string "t".toList]),
    ("retemplate".toList, .table .dotted [("sections".toList, .array [])])]
  have hdoc : Documents t line.configFile doc :=
    .inr ⟨"rebuild = ['t']\nretemplate.sections = []\n".toList,
      { rebuild := { template := "t".toList }, retemplate := { sections := [] } },
      by decide +kernel, by cbv, by decide +kernel⟩
  obtain ⟨c, hc, -, hok⟩ := (configFor_layered [] line t).1 doc (by simp [line]) hdoc
  have htemplate : Value.string "t".toList = .string c.rebuild.template := hc.template
  have hsections : IsList IsSection (.array []) c.retemplate.sections := hc.sections
  obtain ⟨path, ⟨template, placeholder, sourceDir, outputDir, pages⟩, ⟨sections⟩⟩ := c
  obtain rfl : "t".toList = template := by simpa using htemplate
  obtain rfl : placeholder = "X".toList := hc.placeholder
  obtain rfl : sourceDir = "docs".toList := hc.sourceDir
  obtain rfl : outputDir = [] := hc.outputDir
  obtain rfl : pages = ["index.html".toList] := hc.pages
  obtain ⟨vs, hvs, hall⟩ := hsections
  obtain rfl : [] = vs := by simpa using hvs
  obtain rfl : sections = [] := List.forall₂_nil_left_iff.1 hall
  exact ⟨_, hok rfl, rfl, rfl⟩

end PageSplice
