import PageSplice.Proofs.Batch
import PageSplice.Proofs.Filling
import PageSplice.Proofs.Host
import PageSplice.Run.Retemplate

/-!
# Retemplating, run by run

A run that succeeds gives each file the sections filled in what the file held at the start, and
changes nothing else (`retemplateAll_fills_each`).  A second run finds every file up to date, as
long as no section takes away a marker that was filled before (`retemplateAll_again`).
-/

namespace PageSplice

open PageSplice.Tree

deriving instance DecidableEq for Section

/-- A tree with texts in files, each below the root. -/
def Tree.ofTexts (files : List (String × String)) : Tree :=
  files.foldl (fun t f => t.put [] f.1.toList (.file (Text.encode f.2.toList))) .empty

/-- The tree with a text in a file, and with the directories in which it stands. -/
def Tree.addText (t : Tree) (dirs : List String) (name text : String) : Tree :=
  let d := dirs.map String.toList
  (t.putDirs [] d).put d name.toList (.file (Text.encode text.toList))

/-- A configuration with sections of given names and fragments. -/
def Config.ofSections (sections : List (String × String)) : Config :=
  { retemplate := { sections := sections.map fun s => ⟨s.1.toList, s.2.toList⟩ } }

/-! ## Sections -/

variable {host : Host} {ss : List Section} {t : Tree}

/-- The sections have the configured names and the texts of the fragments, all of which were read. -/
theorem of_readSections {entries : List SectionEntry}
    (h : host.readSections t entries = .ok ss) :
    ss.map (·.name) = entries.map (·.name) ∧
      (∀ s ∈ ss, ∃ e ∈ entries, host.textAt t e.fragment = .ok s.fragment ∧ s.name = e.name) ∧
      ∀ e ∈ entries, ∃ text, host.textAt t e.fragment = .ok text := by
  induction entries generalizing ss with
  | nil => cases h; simp
  | cons e rest ih =>
    unfold Host.readSections at h
    cases ht : host.textAt t e.fragment with
    | error f => rw [ht] at h; cases h
    | ok fragment =>
      by_cases hname : IsSectionName e.name
      · simp only [ht, Section.make, dif_pos hname] at h
        cases hr : host.readSections t rest with
        | error f => rw [hr] at h; cases h
        | ok us =>
          rw [hr] at h
          cases h
          obtain ⟨hnames, hmem, hread⟩ := ih hr
          refine ⟨by rw [List.map_cons, List.map_cons, hnames], fun s hs => ?_, fun u hu => ?_⟩
          · rcases List.mem_cons.1 hs with rfl | hs
            · exact ⟨e, List.mem_cons_self .., ht, rfl⟩
            · obtain ⟨e', he', hs⟩ := hmem s hs
              exact ⟨e', List.mem_cons_of_mem _ he', hs⟩
          · rcases List.mem_cons.1 hu with rfl | hu
            · exact ⟨fragment, ht⟩
            · exact hread u hu
      · simp only [ht, Section.make, dif_neg hname] at h
        cases h

theorem readSections_congr {t' : Tree} {entries : List SectionEntry}
    (h : ∀ e ∈ entries, host.textAt t' e.fragment = host.textAt t e.fragment) :
    host.readSections t' entries = host.readSections t entries := by
  induction entries with
  | nil => rfl
  | cons e rest ih =>
    simp only [Host.readSections, h e (List.mem_cons_self ..),
      ih fun e he => h e (List.mem_cons_of_mem _ he)]

/-! ## One file -/

theorem exists_of_retemplateStep {check : Bool} {p : Path} {a : Path × Status}
    (h : (host.retemplateStep ss check t p).result = .ok a) :
    ∃ old new, host.textAt t p = .ok old ∧ fillSections old ss = .ok new := by
  cases ht : host.textAt t p with
  | error e => simp [Host.retemplateStep, ht] at h
  | ok old =>
    cases hf : fillSections old ss with
    | error e => simp [Host.retemplateStep, ht, hf] at h
    | ok new => exact ⟨old, new, rfl, hf⟩

theorem retemplateStep_eq (check : Bool) {p : Path} {old new : Text}
    (ht : host.textAt t p = .ok old) (hf : fillSections old ss = .ok new) :
    host.retemplateStep ss check t p =
      settleFile host.storeText .retemplate check t p (some old.encode) new := by
  simp only [Host.retemplateStep, ht, hf]

/-- A file that has its sections filled, or is only checked, is left alone. -/
theorem retemplateStep_of_still (check : Bool) {p : Path} {old new : Text}
    (ht : host.textAt t p = .ok old) (hf : fillSections old ss = .ok new)
    (h : new = old ∨ check = true) :
    (host.retemplateStep ss check t p).tree = t ∧
      (host.retemplateStep ss check t p).result =
        .ok (p, if new = old then .upToDate else .stale) := by
  have hiff : (some old.encode = some new.encode) ↔ new = old := by
    rw [Option.some.injEq, Text.encode_inj, eq_comm]
  have hset := settleFile_of_still (t := t) host.storeText .retemplate check p (h.imp_left hiff.2)
  rw [retemplateStep_eq check ht hf]
  simpa only [hiff] using hset

/-- What the turn of a file does: the file gets its sections filled, and all else stays. -/
theorem retemplateStep_eq_ok {p : Path} {a : Path × Status}
    (h : (host.retemplateStep ss false t p).result = .ok a) :
    ∃ l old new, host.unreadable p = none ∧ t.find p = .ok l ∧
      t.get? l = some (.file (Text.encode old)) ∧ fillSections old ss = .ok new ∧
      a = (p, if new = old then .upToDate else .written) ∧
      Overwritten l new.encode t (host.retemplateStep ss false t p).tree := by
  obtain ⟨old, new, ht, hf⟩ := exists_of_retemplateStep h
  obtain ⟨hallowed, hread⟩ := Host.textAt_eq_ok_iff.1 ht
  obtain ⟨l, hl, hb⟩ := read_eq_ok_iff.1 hread
  refine ⟨l, old, new, hallowed, hl, hb, hf, ?_⟩
  by_cases hsame : new = old
  · obtain ⟨htree, hres⟩ := retemplateStep_of_still false ht hf (.inl hsame)
    rw [hres] at h
    cases h
    refine ⟨by simp [hsame], by rw [htree], fun k => ?_⟩
    rw [htree]
    split
    · next hk => rw [hk, hb, hsame]
    · rfl
  · have hne : some old.encode ≠ some new.encode := by
      simpa [Text.encode_inj] using Ne.symm hsame
    rw [retemplateStep_eq false ht hf] at h ⊢
    obtain ⟨ha, hstore⟩ := store_of_settleFile hne h
    obtain ⟨t', ht', hover⟩ := Tree.storeText_of_file hl hb new
    have hstore := (Host.storeText_eq_ok_iff.1 hstore).2
    rw [ht'] at hstore
    cases hstore
    exact ⟨by rw [ha, if_neg hsame], hover⟩

/-! ## A run -/

/-- A run is a batch over the files for which the targets stand. -/
theorem retemplateAll_eq {c : Config} {targets files : List Path} (check : Bool)
    (hss : host.readSections t c.retemplate.sections = .ok ss)
    (hfiles : host.filesOf t targets c.fragments = .ok files) :
    (host.retemplateAll c targets check t).tree =
        (runBatch (host.retemplateStep ss check) t files).tree ∧
      (host.retemplateAll c targets check t).result =
        (runBatch (host.retemplateStep ss check) t files).result.map .ofList := by
  simp only [Host.retemplateAll, hss, hfiles]
  exact ⟨rfl, rfl⟩

theorem exists_of_retemplateAll {c : Config} {targets : List Path} {check : Bool} {report : Report}
    (h : (host.retemplateAll c targets check t).result = .ok report) :
    ∃ ss files done, host.readSections t c.retemplate.sections = .ok ss ∧
      host.filesOf t targets c.fragments = .ok files ∧
      (runBatch (host.retemplateStep ss check) t files).result = .ok done ∧
      report = .ofList done := by
  cases hss : host.readSections t c.retemplate.sections with
  | error f => simp [Host.retemplateAll, hss] at h
  | ok ss =>
    cases hfiles : host.filesOf t targets c.fragments with
    | error e =>
      simp only [Host.retemplateAll, hss, hfiles] at h
      cases h
    | ok files =>
      rw [(retemplateAll_eq check hss hfiles).2] at h
      cases hdone : (runBatch (host.retemplateStep ss check) t files).result with
      | error f => rw [hdone] at h; cases h
      | ok done =>
        rw [hdone] at h
        cases h
        exact ⟨ss, files, done, rfl, rfl, hdone, rfl⟩

/-- A run that leaves every file alone. -/
theorem retemplateAll_of_still {c : Config} {targets files : List Path} {check : Bool}
    {f : Path → Status} (hss : host.readSections t c.retemplate.sections = .ok ss)
    (hfiles : host.filesOf t targets c.fragments = .ok files)
    (h : ∀ p ∈ files, (host.retemplateStep ss check t p).tree = t ∧
      (host.retemplateStep ss check t p).result = .ok (p, f p)) :
    (host.retemplateAll c targets check t).tree = t ∧
      (host.retemplateAll c targets check t).result =
        .ok (.ofList (files.map fun p => (p, f p))) := by
  obtain ⟨htree, hres⟩ := runBatch_of_still (f := fun p => (p, f p)) h
  rw [(retemplateAll_eq check hss hfiles).1, (retemplateAll_eq check hss hfiles).2, htree, hres]
  exact ⟨rfl, rfl⟩

/-! ## Each file once -/

/-- After some files had their turns: each of them is filled, all else is as it was, and the status
of a file tells whether it changed. -/
structure FilledSoFar (t₀ : Tree) (ss : List Section) (seen : List Path)
    (done : List (Path × Status)) (t : Tree) : Prop where
  shape : SameShape t₀ t
  filled : ∀ p ∈ seen, ∃ old new, t₀.textAt p = .ok old ∧ fillSections old ss = .ok new ∧
    t.textAt p = .ok new
  frame : ∀ l, (∀ p ∈ seen, t₀.find p ≠ .ok l) → t.get? l = t₀.get? l
  statuses : done = seen.map fun p => (p, if t.read p = t₀.read p then .upToDate else .written)

theorem filledSoFar_step {t₀ : Tree} {seen : List Path} {done : List (Path × Status)} {p : Path}
    {a : Path × Status} (hI : FilledSoFar t₀ ss seen done t)
    (hnew : ∀ q ∈ seen, ¬ t₀.Coincide q p)
    (h : (host.retemplateStep ss false t p).result = .ok a) :
    FilledSoFar t₀ ss (seen ++ [p]) (done ++ [a]) (host.retemplateStep ss false t p).tree := by
  obtain ⟨l, old, new, -, hl, hb, hf, rfl, hover⟩ := retemplateStep_eq_ok h
  generalize (host.retemplateStep ss false t p).tree = t' at hover
  have hshape := hover.sameShape hb
  have hread : t'.read p = .ok new.encode := hover.read_eq hb hl
  have hl₀ : t₀.find p = .ok l := by rw [← hI.shape.find, hl]
  have hb₀ : t₀.get? l = some (.file old.encode) := by
    rw [← hI.frame l fun q hq hql => hnew q hq ⟨l, hql, hl₀⟩, hb]
  have hold : t₀.read p = .ok old.encode := read_eq_ok_iff.2 ⟨l, hl₀, hb₀⟩
  -- a file that had its turn before stands elsewhere
  have hseen : ∀ q ∈ seen, t'.read q = t.read q := by
    intro q hq
    refine hshape.read_congr fun k hk => ?_
    rw [hover.get?, if_neg]
    rintro rfl
    exact hnew q hq ⟨k, by rw [← hI.shape.find, hk], hl₀⟩
  refine ⟨hI.shape.trans hshape, fun q hq => ?_, fun k hk => ?_, ?_⟩
  · rcases List.mem_append.1 hq with hq | hq
    · obtain ⟨o, n, ho, hn, hq'⟩ := hI.filled q hq
      exact ⟨o, n, ho, hn, by rw [Tree.textAt_congr (hseen q hq), hq']⟩
    · rw [List.mem_singleton.1 hq]
      exact ⟨old, new, Tree.textAt_eq_ok_iff.2 hold, hf, Tree.textAt_eq_ok_iff.2 hread⟩
  · have hkl : k ≠ l := by
      rintro rfl
      exact hk p (by simp) hl₀
    rw [hover.get?, if_neg hkl, hI.frame k fun q hq => hk q (List.mem_append_left _ hq)]
  · have hsame : (t'.read p = t₀.read p) ↔ new = old := by
      rw [hread, hold, Except.ok.injEq, Text.encode_inj]
    rw [hI.statuses, List.map_append, List.map_singleton]
    congr 1
    · exact List.map_congr_left fun q hq => by rw [hseen q hq]
    · simp only [hsame]

/-- A run that succeeds fills the sections in each file, as the file and the fragments were at the
start, and reports which files that changed; a checking run reports the same ones. -/
theorem retemplateAll_fills_each {c : Config} {targets files : List Path} {report : Report}
    (hfiles : t.filesOf targets c.fragments = .ok files)
    (hdiff : files.Pairwise fun p q => ¬ t.Coincide p q)
    (h : (retemplateAll c targets false t).result = .ok report) :
    let t' := (retemplateAll c targets false t).tree
    ∃ ss, readSections t c.retemplate.sections = .ok ss ∧
      (∀ p ∈ files, ∃ old new, t.textAt p = .ok old ∧ fillSections old ss = .ok new ∧
        t'.textAt p = .ok new) ∧
      (∀ l, (∀ p ∈ files, t.find p ≠ .ok l) → t'.get? l = t.get? l) ∧ t'.here = t.here ∧
      report =
        { written := files.filter fun p => t'.read p ≠ t.read p
          upToDate := files.filter fun p => t'.read p = t.read p
          stale := [] } ∧
      (retemplateAll c targets true t).result =
        .ok { upToDate := report.upToDate, stale := report.written } := by
  obtain ⟨ss, files', done, hss, hfiles', hdone, rfl⟩ := exists_of_retemplateAll h
  obtain rfl : files = files' := by simpa [hfiles] using hfiles'
  have hI : FilledSoFar t ss files done (runBatch (retemplateStep ss false) t files).tree := by
    refine runBatch_induction ⟨.refl t, by simp, fun _ _ => rfl, rfl⟩ ?_ hdone
    intro seen p rest before u a hsplit hI ha
    refine filledSoFar_step hI (fun q hq => ?_) ha
    rw [hsplit] at hdiff
    exact (List.pairwise_append.1 hdiff).2.2 q hq p (List.mem_cons_self ..)
  simp only [(retemplateAll_eq false hss hfiles).1]
  generalize (runBatch (retemplateStep ss false) t files).tree = t' at hI
  obtain ⟨hshape, hfilled, hframe, rfl⟩ := hI
  -- a check gives each file the status that tells whether the run changed it
  have hcheck : ∀ p ∈ files, (retemplateStep ss true t p).tree = t ∧
      (retemplateStep ss true t p).result =
        .ok (p, if t'.read p = t.read p then .upToDate else .stale) := by
    intro p hp
    obtain ⟨old, new, hold, hf, hnew⟩ := hfilled p hp
    have hold' : Host.willing.textAt t p = .ok old := hold
    obtain ⟨htree, hres⟩ := retemplateStep_of_still true hold' hf (.inr rfl)
    rw [hres, textAt_eq_ok_iff.1 hold, textAt_eq_ok_iff.1 hnew]
    simpa only [Except.ok.injEq, Text.encode_inj, and_true] using htree
  refine ⟨ss, hss, hfilled, hframe, hshape.here, Report.ofList_written _ _, ?_⟩
  rw [(retemplateAll_of_still hss hfiles hcheck).2, Report.ofList_written, Report.ofList_stale]

/-- A fragment that is one of the files is filled too, but the other file gets its old text. -/
theorem retemplateAll_fills_fragment :
    let t := Tree.ofTexts [("f", "<!--A-->x<!--/A-->"), ("p", "<!--A--><!--/A-->")]
    let c := Config.ofSections [("A", "f")]
    let files := ["f".toList, "p".toList]
    t.filesOf files c.fragments = .ok files ∧ (files.Pairwise fun p q => ¬ t.Coincide p q) ∧
      (retemplateAll c files false t).result = .ok { written := files } ∧
      (retemplateAll c files true t).result = .ok { stale := files } := by
  intro t c files
  have hfiles : t.filesOf files c.fragments = .ok files := by decide +kernel
  have hdiff : files.Pairwise fun p q => ¬ t.Coincide p q := by decide +kernel
  have h : (retemplateAll c files false t).result = .ok { written := files } := by decide +kernel
  obtain ⟨_, _, _, _, _, _, hcheck⟩ := retemplateAll_fills_each hfiles hdiff h
  exact ⟨hfiles, hdiff, h, hcheck⟩

/-! ## A second run -/

theorem not_beginsMarker {name text : Text} (h : ¬ "<!--".toList <:+: text) :
    ¬ BeginsMarker name text := by
  rintro (hm | hm)
  · exact h hm.isInfix
  · exact h hm.isInfix

/-- A text without comments has no place for a section. -/
theorem eq_nil_of_fillSections {text new : Text} (h : ¬ "<!--".toList <:+: text)
    (hf : fillSections text ss = .ok new) : ss = [] := by
  cases ss with
  | nil => rfl
  | cons s rest =>
    obtain ⟨r, -⟩ := fillSections_cons_eq_ok_iff.1 hf
    have hcomment := isComment_of_firstOccurrence? (isLabel_of_isSectionName s.isName) r.start_first
    have htext := Text.Occurrence.text_eq (commentOf_splits s.name) r.start_first
    have hholds : Holds s.name text := ⟨_, _, _, hcomment, htext⟩
    exact absurd hholds.begins.isInfix h

/-- After some files had their turns, maybe several paths leading to one of them: each is settled,
and what is at a location is what was there at the start or that text filled. -/
structure SettledSoFar (t₀ : Tree) (ss : List Section) (seen : List Path) (t : Tree) : Prop where
  shape : SameShape t₀ t
  origin : ∀ l, t.get? l = t₀.get? l ∨ ∃ old new, t₀.get? l = some (.file (Text.encode old)) ∧
    fillSections old ss = .ok new ∧ t.get? l = some (.file new.encode)
  settled : ∀ p ∈ seen, ∃ text, t.textAt p = .ok text ∧ fillSections text ss = .ok text

theorem settledSoFar_step {t₀ : Tree} {seen : List Path} {p : Path} {a : Path × Status}
    (hI : SettledSoFar t₀ ss seen t)
    (hagain : ∀ old new, t₀.textAt p = .ok old → fillSections old ss = .ok new →
      fillSections new ss = .ok new)
    (h : (host.retemplateStep ss false t p).result = .ok a) :
    SettledSoFar t₀ ss (seen ++ [p]) (host.retemplateStep ss false t p).tree := by
  obtain ⟨l, cur, new, -, hl, hb, hf, -, hover⟩ := retemplateStep_eq_ok h
  generalize (host.retemplateStep ss false t p).tree = t' at hover
  have hshape := hover.sameShape hb
  have hl₀ : t₀.find p = .ok l := by rw [← hI.shape.find, hl]
  have htext : ∀ {old}, t₀.get? l = some (.file (Text.encode old)) → t₀.textAt p = .ok old :=
    fun hold => Tree.textAt_eq_ok_iff.2 (read_eq_ok_iff.2 ⟨l, hl₀, hold⟩)
  -- either this is the file's first turn, or it is settled already
  have hfirst : fillSections new ss = .ok new ∧ ∃ old, t₀.get? l = some (.file (Text.encode old)) ∧
      fillSections old ss = .ok new := by
    obtain hsame | ⟨old, new', hold, hfill, hnew⟩ := hI.origin l
    · rw [hb] at hsame
      exact ⟨hagain cur new (htext hsame.symm) hf, cur, hsame.symm, hf⟩
    · obtain rfl : cur = new' := by
        rw [hb, Option.some.injEq, Entry.file.injEq, Text.encode_inj] at hnew
        exact hnew
      have hset := hagain old cur (htext hold) hfill
      obtain rfl : cur = new := by simpa [hset] using hf
      exact ⟨hset, old, hold, hfill⟩
  obtain ⟨hset, old, hold, hfill⟩ := hfirst
  refine ⟨hI.shape.trans hshape, fun k => ?_, fun q hq => ?_⟩
  · rw [hover.get?]
    split
    · next hk => exact .inr ⟨old, new, hk ▸ hold, hfill, rfl⟩
    · exact hI.origin k
  · rcases List.mem_append.1 hq with hq | hq
    · obtain ⟨text, htext, hfix⟩ := hI.settled q hq
      obtain ⟨k, hk, -⟩ := read_eq_ok_iff.1 (Tree.textAt_eq_ok_iff.1 htext)
      by_cases hkl : k = l
      · subst hkl
        exact ⟨new, Tree.textAt_eq_ok_iff.2 (hover.read_eq hb hk), hset⟩
      · have hread : t'.read q = t.read q := hshape.read_congr fun m hm => by
          obtain rfl : k = m := by simpa [hk] using hm
          rw [hover.get?, if_neg hkl]
        exact ⟨text, by rw [Tree.textAt_congr hread, htext], hfix⟩
    · rw [List.mem_singleton.1 hq]
      exact ⟨new, Tree.textAt_eq_ok_iff.2 (hover.read_eq hb hl), hset⟩

/-- A run keeps the fragments, since no text without comments can be filled. -/
theorem SettledSoFar.readSections_eq {t₀ : Tree} {seen : List Path} {entries : List SectionEntry}
    (hI : SettledSoFar t₀ ss seen t) (hss : readSections t₀ entries = .ok ss)
    (hclean : ∀ e ∈ entries, ∀ text, t₀.textAt e.fragment = .ok text → ¬ "<!--".toList <:+: text) :
    readSections t entries = .ok ss := by
  rw [← hss]
  refine readSections_congr fun e he => textAt_congr (hI.shape.read_congr fun l hl => ?_)
  obtain hsame | ⟨old, new, hold, hfill, -⟩ := hI.origin l
  · exact hsame
  · have htext := textAt_eq_ok_iff.2 (read_eq_ok_iff.2 ⟨l, hl, hold⟩)
    obtain rfl := eq_nil_of_fillSections (hclean e he old htext) hfill
    have hnil : entries = [] := by simpa using (of_readSections hss).1.symm
    simp [hnil] at he

/-- A second run right after one that succeeded finds every file up to date and changes nothing,
if names are without `>`, fragments are without comments, and no section takes a marker away from
one filled before it. -/
theorem retemplateAll_again {c : Config} {targets files : List Path} {report : Report}
    (hverify : c.verify = .ok ()) (hclosed : ∀ e ∈ c.retemplate.sections, '>' ∉ e.name)
    (hclean : ∀ e ∈ c.retemplate.sections, ∀ text, t.textAt e.fragment = .ok text →
      ¬ "<!--".toList <:+: text)
    (hss : readSections t c.retemplate.sections = .ok ss)
    (hfiles : t.filesOf targets c.fragments = .ok files)
    (hund : ∀ p ∈ files, ∀ text, t.textAt p = .ok text → Undisturbed [] text ss)
    (h : (retemplateAll c targets false t).result = .ok report) :
    let t' := (retemplateAll c targets false t).tree
    (retemplateAll c targets false t').tree = t' ∧
      (retemplateAll c targets false t').result = .ok { upToDate := files } := by
  obtain ⟨ss', files', done, hss', hfiles', hdone, rfl⟩ := exists_of_retemplateAll h
  obtain rfl : ss = ss' := by simpa [hss] using hss'
  obtain rfl : files = files' := by simpa [hfiles] using hfiles'
  obtain ⟨hnames, hentry, -⟩ := of_readSections hss
  have hharmless : Harmless ss := by
    refine ⟨fun s hs => ?_, fun s hs u _ => ?_⟩
    · obtain ⟨e, he, -, hname⟩ := hentry s hs
      exact hname ▸ hclosed e he
    · obtain ⟨e, he, htext, -⟩ := hentry s hs
      exact not_beginsMarker (hclean e he _ htext)
  have hI : SettledSoFar t ss files (runBatch (retemplateStep ss false) t files).tree := by
    refine runBatch_induction (I := fun seen _ u => SettledSoFar t ss seen u)
      ⟨.refl t, fun _ => .inl rfl, by simp⟩ ?_ hdone
    intro seen p rest before u a hsplit hI ha
    refine settledSoFar_step hI (fun old new hold hfill => ?_) ha
    exact fillSections_again hharmless (hnames ▸ (Config.verify_eq_ok_iff.1 hverify).2.2.2)
      (hund p (by simp [hsplit]) old hold) hfill
  simp only [(retemplateAll_eq false hss hfiles).1]
  generalize (runBatch (retemplateStep ss false) t files).tree = t' at hI
  have hagain : ∀ p ∈ files, (retemplateStep ss false t' p).tree = t' ∧
      (retemplateStep ss false t' p).result = .ok (p, .upToDate) := by
    intro p hp
    obtain ⟨text, htext, hfix⟩ := hI.settled p hp
    have htext : Host.willing.textAt t' p = .ok text := htext
    simpa using retemplateStep_of_still false htext hfix (.inl rfl)
  rw [← Report.ofList_upToDate]
  exact retemplateAll_of_still (hI.readSections_eq hss hclean)
    ((hI.shape.filesOf _ targets c.fragments).trans hfiles) hagain

/-- A page that is a target twice, with one section behind the other.  The name of the second one
holds a `<`, and each of its markers ends in a start marker of the first. -/
theorem retemplateAll_again_twice :
    let t := Tree.ofTexts
      [("f", "F"), ("g", "G"), ("p", "<!--B-->1<!--/B--> <!--A<!--B-->2<!--/A<!--B-->")]
    let c := Config.ofSections [("A<!--B", "f"), ("B", "g")]
    let files := ["p".toList, "p".toList]
    let t' := (retemplateAll c files false t).tree
    (retemplateAll c files false t).result =
        .ok { written := ["p".toList], upToDate := ["p".toList] } ∧
      (retemplateAll c files false t').tree = t' ∧
      (retemplateAll c files false t').result = .ok { upToDate := files } := by
  intro t c files t'
  have h : (retemplateAll c files false t).result =
      .ok { written := ["p".toList], upToDate := ["p".toList] } := by decide +kernel
  have hss : readSections t c.retemplate.sections =
      .ok [⟨"A<!--B".toList, "F".toList, by decide⟩, ⟨"B".toList, "G".toList, by decide⟩] := by
    decide +kernel
  exact ⟨h, retemplateAll_again (by decide +kernel) (by decide +kernel) (by decide +kernel) hss
    (by decide +kernel) (by decide +kernel) h⟩

/-- A section inside another one is gone after the first run, so a second one fails.  If a name holds
a `>`, a fragment can complete a marker before the one that was filled, and the second run changes
the page again though no section takes a marker away. -/
theorem retemplateAll_not_again :
    let p := "p".toList
    (let t := Tree.ofTexts [("f", "F"), ("g", "G"), ("p", "<!--A--><!--B-->x<!--/B--><!--/A-->")]
      let c := Config.ofSections [("B", "f"), ("A", "g")]
      let t' := (retemplateAll c [p] false t).tree
      c.verify = .ok () ∧
      (∀ e ∈ c.retemplate.sections, ∀ text, t.textAt e.fragment = .ok text →
        ¬ "<!--".toList <:+: text) ∧
      (retemplateAll c [p] false t).result = .ok { written := [p] } ∧
      (retemplateAll c [p] false t').result = .error
        { during := some (.retemplating p), cause := .page (.noDelimiter "<!-- B -->".toList) }) ∧
    (let t := Tree.ofTexts [("f", "f"), ("g", "g"),
        ("p", "<!--A-->old<!--/A-->z<!--A-->f<!--/A-->y<!--/A-->f<!--/A-->")]
      let c := Config.ofSections [("A-->f<!--/A", "g"), ("A", "f")]
      let t' := (retemplateAll c [p] false t).tree
      c.verify = .ok () ∧
      (∀ e ∈ c.retemplate.sections, ∀ text, t.textAt e.fragment = .ok text →
        ¬ "<!--".toList <:+: text) ∧
      (∀ ss, readSections t c.retemplate.sections = .ok ss →
        ∀ text, t.textAt p = .ok text → Undisturbed [] text ss) ∧
      (retemplateAll c [p] false t).result = .ok { written := [p] } ∧
      (retemplateAll c [p] false t').result = .ok { written := [p] } ∧
      (retemplateAll c [p] false t').tree.textAt p ≠ t'.textAt p) := by
  decide +kernel

end PageSplice
