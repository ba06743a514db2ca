import PageSplice.Proofs.Batch
import PageSplice.Proofs.Tree.Plain
import PageSplice.Run.Rebuild

/-!
# Rebuilding, run by run

If no path has a step up or passes a link, and no output is another output, the template or a
source, then a run that succeeds leaves in each output the page's body in the template, both as
they were at the start, and changes nothing else but for directories on the way to an output
(`rebuildAll_rebuilds_each`).
-/

namespace PageSplice

open PageSplice.Tree

variable {c : Config} {template : Text} {t : Tree}

/-! ## One page -/

theorem rebuiltPage_eq_ok_iff {page : Path} {html : Text} :
    rebuiltPage t c template page = .ok html ↔
      ∃ source, t.textAt (c.sourceOf page) = .ok source ∧
        pageInTemplate template c.rebuild.placeholder source = .ok html := by
  rw [rebuiltPage]
  cases t.textAt (c.sourceOf page) with
  | error e => simp
  | ok source =>
    simp only [pageInTemplate]
    cases hb : bodyOf source with
    | error e => simp [hb, Except.bind]
    | ok body =>
      cases hf : fillTemplate template c.rebuild.placeholder body with
      | error e => simp [hb, hf, Except.bind]
      | ok html' => simp [hb, hf, Except.bind]

theorem contentAt_eq_ok_iff {p : Path} {current : Option ByteArray} :
    t.contentAt p = .ok current ↔
      (∃ b, current = some b ∧ t.read p = .ok b) ∨
        current = none ∧ t.read p = .error .notFound := by
  rw [contentAt]
  cases t.read p with
  | ok b => simp [eq_comm]
  | error e => cases e <;> simp [eq_comm]

/-- The file held this text when its content was asked for. -/
theorem read_eq_iff_of_contentAt {p : Path} {current : Option ByteArray} {b : ByteArray}
    (h : t.contentAt p = .ok current) : t.read p = .ok b ↔ current = some b := by
  obtain ⟨b', rfl, hb'⟩ | ⟨rfl, hmiss⟩ := contentAt_eq_ok_iff.1 h
  · simp [hb']
  · simp [hmiss]

theorem rebuildStep_eq {check : Bool} {page : Path} {html : Text} {current : Option ByteArray}
    (hhtml : rebuiltPage t c template page = .ok html)
    (hcurrent : t.contentAt (c.outputOf page) = .ok current) :
    rebuildStep c check template t page =
      settleFile Tree.storeText .rebuild check t (c.outputOf page) current html := by
  simp only [rebuildStep, hhtml, hcurrent]

theorem exists_of_rebuildStep {check : Bool} {page : Path} {a : Path × Status}
    (h : (rebuildStep c check template t page).result = .ok a) :
    ∃ html current, rebuiltPage t c template page = .ok html ∧
      t.contentAt (c.outputOf page) = .ok current := by
  cases hhtml : rebuiltPage t c template page with
  | error e => simp [rebuildStep, hhtml] at h
  | ok html =>
    cases hcurrent : t.contentAt (c.outputOf page) with
    | error e => simp [rebuildStep, hhtml, hcurrent] at h
    | ok current => exact ⟨html, current, rfl, rfl⟩

/-- What the turn of a page does: its output holds the rebuilt page. -/
theorem rebuildStep_eq_ok {page : Path} {a : Path × Status} (hp : t.Plain (c.outputOf page))
    (h : (rebuildStep c false template t page).result = .ok a) :
    ∃ html current, rebuiltPage t c template page = .ok html ∧
      t.contentAt (c.outputOf page) = .ok current ∧
      a = (c.outputOf page, if t.read (c.outputOf page) = .ok html.encode then .upToDate
        else .written) ∧
      Stored [t.locate (c.outputOf page)] t (rebuildStep c false template t page).tree ∧
      (rebuildStep c false template t page).tree.read (c.outputOf page) = .ok html.encode := by
  obtain ⟨html, current, hhtml, hcurrent⟩ := exists_of_rebuildStep h
  refine ⟨html, current, hhtml, hcurrent, ?_⟩
  have hiff := read_eq_iff_of_contentAt (b := html.encode) hcurrent
  rw [rebuildStep_eq hhtml hcurrent] at h ⊢
  by_cases hsame : current = some html.encode
  · obtain ⟨htree, hres⟩ := settleFile_of_still (t := t) Tree.storeText .rebuild false (c.outputOf page)
      (.inl hsame)
    rw [hres] at h
    rw [htree]
    cases h
    have hread := hiff.2 hsame
    obtain ⟨-, -, hfile⟩ := (read_plain hp).1 hread
    exact ⟨by simp [hsame, hread], ⟨rfl, by simp [hfile], by simp [hfile], fun _ _ => .inl rfl⟩,
      hread⟩
  · obtain ⟨ha, hstore⟩ := store_of_settleFile hsame h
    obtain ⟨hstored, hread⟩ := storeText_plain hp hstore
    refine ⟨?_, hstored, hread⟩
    rw [ha, if_neg (fun hr => hsame (hiff.1 hr))]

/-! ## Other pages -/

section Stored

variable {ls : List Location} {t' : Tree} {page : Path} (h : Stored ls t t')
include h

theorem rebuiltPage_iff_of_stored {html : Text} (hp : t.Plain (c.sourceOf page))
    (hls : t.locate (c.sourceOf page) ∉ ls) :
    rebuiltPage t' c template page = .ok html ↔ rebuiltPage t c template page = .ok html := by
  simp only [rebuiltPage_eq_ok_iff, h.textAt_iff hp hls]

/-- A content that could be asked for later could be asked for before. -/
theorem contentAt_of_stored {p : Path} {current : Option ByteArray} (hp : t.Plain p)
    (hls : t.locate p ∉ ls) (hcurrent : t'.contentAt p = .ok current) :
    t.contentAt p = .ok current := by
  rw [contentAt_eq_ok_iff] at hcurrent ⊢
  refine hcurrent.imp (fun ⟨b, hb, hread⟩ => ⟨b, hb, (h.read_iff hp hls).1 hread⟩) ?_
  exact And.imp_right (h.extension.read_eq_notFound hp (h.plain hp))

end Stored

/-! ## A run -/

/-- No configured path has a step up or passes a link, and the outputs are different files, none of
them the template or a source. -/
structure Separate (c : Config) (t : Tree) : Prop where
  template_plain : t.Plain c.rebuild.template
  source_plain : ∀ g ∈ c.rebuild.pages, t.Plain (c.sourceOf g)
  output_plain : ∀ g ∈ c.rebuild.pages, t.Plain (c.outputOf g)
  outputs : c.rebuild.pages.Pairwise fun g g' =>
    t.locate (c.outputOf g) ≠ t.locate (c.outputOf g')
  template : ∀ g ∈ c.rebuild.pages, t.locate (c.outputOf g) ≠ t.locate c.rebuild.template
  sources : ∀ g ∈ c.rebuild.pages, ∀ g' ∈ c.rebuild.pages,
    t.locate (c.outputOf g) ≠ t.locate (c.sourceOf g')

instance (c : Config) (t : Tree) : Decidable (Separate c t) :=
  decidable_of_iff (t.Plain c.rebuild.template ∧ (∀ g ∈ c.rebuild.pages, t.Plain (c.sourceOf g)) ∧
      (∀ g ∈ c.rebuild.pages, t.Plain (c.outputOf g)) ∧
      (c.rebuild.pages.Pairwise fun g g' => t.locate (c.outputOf g) ≠ t.locate (c.outputOf g')) ∧
      (∀ g ∈ c.rebuild.pages, t.locate (c.outputOf g) ≠ t.locate c.rebuild.template) ∧
      ∀ g ∈ c.rebuild.pages, ∀ g' ∈ c.rebuild.pages,
        t.locate (c.outputOf g) ≠ t.locate (c.sourceOf g'))
    ⟨fun h => ⟨h.1, h.2.1, h.2.2.1, h.2.2.2.1, h.2.2.2.2.1, h.2.2.2.2.2⟩,
      fun h => ⟨h.1, h.2, h.3, h.4, h.5, h.6⟩⟩

/-- After some pages had their turns: each output holds its page, rebuilt from what was there at the
start, and the status tells whether the output changed. -/
structure RebuiltSoFar (c : Config) (template : Text) (t₀ : Tree) (seen : List Path)
    (done : List (Path × Status)) (t : Tree) : Prop where
  stored : Stored (seen.map fun g => t₀.locate (c.outputOf g)) t₀ t
  rebuilt : ∀ g ∈ seen, ∃ html current, rebuiltPage t₀ c template g = .ok html ∧
    t₀.contentAt (c.outputOf g) = .ok current ∧ t.read (c.outputOf g) = .ok html.encode
  statuses : done = (seen.map c.outputOf).map fun p =>
    (p, if t.read p = t₀.read p then .upToDate else .written)

theorem not_mem_outputs {gs : List Path} {l : Location}
    (h : ∀ g ∈ gs, t.locate (c.outputOf g) ≠ l) : l ∉ gs.map fun g => t.locate (c.outputOf g) := by
  intro hl
  obtain ⟨g, hg, hgl⟩ := List.mem_map.1 hl
  exact h g hg hgl

theorem rebuiltSoFar_step {t₀ : Tree} {seen rest : List Path} {done : List (Path × Status)}
    {g : Path} {a : Path × Status} (hsep : Separate c t₀)
    (hsplit : c.rebuild.pages = seen ++ g :: rest) (hI : RebuiltSoFar c template t₀ seen done t)
    (h : (rebuildStep c false template t g).result = .ok a) :
    RebuiltSoFar c template t₀ (seen ++ [g]) (done ++ [a])
      (rebuildStep c false template t g).tree := by
  have hg : g ∈ c.rebuild.pages := by simp [hsplit]
  have hseen : ∀ q ∈ seen, q ∈ c.rebuild.pages := fun q hq => by simp [hsplit, hq]
  have hdiff : ∀ q ∈ seen, t₀.locate (c.outputOf q) ≠ t₀.locate (c.outputOf g) := by
    intro q hq
    have hout := hsep.outputs
    rw [hsplit] at hout
    exact (List.pairwise_append.1 hout).2.2 q hq g (List.mem_cons_self ..)
  have hplain := hsep.output_plain g hg
  obtain ⟨html, current, hhtml, hcurrent, rfl, hstored, hread⟩ :=
    rebuildStep_eq_ok (hI.stored.plain hplain) h
  generalize (rebuildStep c false template t g).tree = t' at hstored hread
  rw [locate_of_here hI.stored.here] at hstored
  -- the page's source and old output are what they were at the start
  have hsource := not_mem_outputs fun q hq => hsep.sources q (hseen q hq) g hg
  have hhtml₀ := (rebuiltPage_iff_of_stored hI.stored (hsep.source_plain g hg) hsource).1 hhtml
  have hcurrent₀ := contentAt_of_stored hI.stored hplain (not_mem_outputs hdiff) hcurrent
  have hsame : ∀ b, t.read (c.outputOf g) = .ok b ↔ t₀.read (c.outputOf g) = .ok b := fun b => by
    rw [read_eq_iff_of_contentAt hcurrent, read_eq_iff_of_contentAt hcurrent₀]
  -- the outputs before it are not touched
  have hkept : ∀ q ∈ seen, t'.read (c.outputOf q) = t.read (c.outputOf q) := by
    intro q hq
    obtain ⟨html', -, -, -, hq'⟩ := hI.rebuilt q hq
    have hqplain := hI.stored.plain (hsep.output_plain q (hseen q hq))
    rw [hq']
    refine (hstored.read_iff hqplain ?_).2 hq'
    rw [locate_of_here hI.stored.here]
    simpa using hdiff q hq
  refine ⟨?_, fun q hq => ?_, ?_⟩
  · rw [List.map_append, List.map_singleton]
    exact hI.stored.trans hstored
  · rcases List.mem_append.1 hq with hq | hq
    · obtain ⟨html', current', hhtml', hcurrent', hq'⟩ := hI.rebuilt q hq
      exact ⟨html', current', hhtml', hcurrent', (hkept q hq).trans hq'⟩
    · rw [List.mem_singleton.1 hq]
      exact ⟨html, current, hhtml₀, hcurrent₀, hread⟩
  · rw [hI.statuses, List.map_append, List.map_append]
    congr 1
    · refine List.map_congr_left fun p hp => ?_
      obtain ⟨q, hq, rfl⟩ := List.mem_map.1 hp
      rw [hkept q hq]
    · simp only [List.map_cons, List.map_nil, hread, hsame, eq_comm]

theorem rebuildAll_eq (check : Bool) (ht : t.textAt c.rebuild.template = .ok template) :
    (rebuildAll c check t).tree = (runBatch (rebuildStep c check template) t c.rebuild.pages).tree ∧
      (rebuildAll c check t).result =
        (runBatch (rebuildStep c check template) t c.rebuild.pages).result.map .ofList := by
  simp [rebuildAll, ht, Outcome.map]

theorem exists_of_rebuildAll {check : Bool} {report : Report}
    (h : (rebuildAll c check t).result = .ok report) :
    ∃ template done, t.textAt c.rebuild.template = .ok template ∧
      (runBatch (rebuildStep c check template) t c.rebuild.pages).result = .ok done ∧
      report = .ofList done := by
  cases ht : t.textAt c.rebuild.template with
  | error e => simp [rebuildAll, ht] at h
  | ok template =>
    rw [(rebuildAll_eq check ht).2] at h
    cases hdone : (runBatch (rebuildStep c check template) t c.rebuild.pages).result with
    | error f => rw [hdone] at h; cases h
    | ok done =>
      rw [hdone] at h
      cases h
      exact ⟨template, done, rfl, hdone, rfl⟩

/-- A run that leaves every output alone. -/
theorem rebuildAll_of_still {check : Bool} {f : Path → Status}
    (ht : t.textAt c.rebuild.template = .ok template)
    (h : ∀ g ∈ c.rebuild.pages, ∃ html current, rebuiltPage t c template g = .ok html ∧
      t.contentAt (c.outputOf g) = .ok current ∧
      (current = some html.encode ∨ check = true) ∧
      f (c.outputOf g) = if current = some html.encode then .upToDate else .stale) :
    (rebuildAll c check t).tree = t ∧
      (rebuildAll c check t).result =
        .ok (.ofList ((c.rebuild.pages.map c.outputOf).map fun p => (p, f p))) := by
  have hstep : ∀ g ∈ c.rebuild.pages, (rebuildStep c check template t g).tree = t ∧
      (rebuildStep c check template t g).result = .ok (c.outputOf g, f (c.outputOf g)) := by
    intro g hg
    obtain ⟨html, current, hhtml, hcurrent, hstill, hf⟩ := h g hg
    rw [rebuildStep_eq hhtml hcurrent, hf]
    exact settleFile_of_still Tree.storeText .rebuild check (c.outputOf g) hstill
  obtain ⟨htree, hres⟩ := runBatch_of_still (f := fun g => (c.outputOf g, f (c.outputOf g))) hstep
  rw [(rebuildAll_eq check ht).1, (rebuildAll_eq check ht).2, htree, hres, List.map_map]
  exact ⟨rfl, rfl⟩

/-- What is read for a second run is what the first one read, and each output holds its page. -/
theorem RebuiltSoFar.again {t₀ : Tree} {done : List (Path × Status)} (hsep : Separate c t₀)
    (ht : t₀.textAt c.rebuild.template = .ok template)
    (hI : RebuiltSoFar c template t₀ c.rebuild.pages done t) :
    (rebuildAll c false t).tree = t ∧
      (rebuildAll c false t).result = .ok { upToDate := c.rebuild.pages.map c.outputOf } := by
  rw [← Report.ofList_upToDate]
  have ht' : t.textAt c.rebuild.template = .ok template :=
    (hI.stored.textAt_iff hsep.template_plain (not_mem_outputs hsep.template)).2 ht
  refine rebuildAll_of_still ht' fun g hg => ?_
  obtain ⟨html, -, hhtml, -, hread⟩ := hI.rebuilt g hg
  have hsource := not_mem_outputs fun g' hg' => hsep.sources g' hg' g hg
  refine ⟨html, some html.encode, ?_, ?_, .inl rfl, by simp⟩
  · exact (rebuiltPage_iff_of_stored hI.stored (hsep.source_plain g hg) hsource).2 hhtml
  · exact contentAt_eq_ok_iff.2 (.inl ⟨_, rfl, hread⟩)

/-- A check gives each output the status that tells whether the run changed it. -/
theorem RebuiltSoFar.check {t₀ : Tree} {done : List (Path × Status)}
    (ht : t₀.textAt c.rebuild.template = .ok template)
    (hI : RebuiltSoFar c template t₀ c.rebuild.pages done t) :
    (rebuildAll c true t₀).result = .ok (.ofList ((c.rebuild.pages.map c.outputOf).map fun p =>
      (p, if t.read p = t₀.read p then .upToDate else .stale))) := by
  refine (rebuildAll_of_still (f := fun p => if t.read p = t₀.read p then .upToDate else .stale)
    ht fun g hg => ?_).2
  obtain ⟨html, current, hhtml, hcurrent, hread⟩ := hI.rebuilt g hg
  refine ⟨html, current, hhtml, hcurrent, .inr rfl, ?_⟩
  simp only [hread, ← read_eq_iff_of_contentAt hcurrent, eq_comm]

/-- A run that succeeds leaves in each output the page's body in the template, as the source and the
template were at the start, and reports which outputs that changed; a second run changes nothing,
and a checking run reports the same ones. -/
theorem rebuildAll_rebuilds_each {report : Report} (hsep : Separate c t)
    (h : (rebuildAll c false t).result = .ok report) :
    let t' := (rebuildAll c false t).tree
    let outputs := c.rebuild.pages.map c.outputOf
    ∃ template, t.textAt c.rebuild.template = .ok template ∧
      (∀ g ∈ c.rebuild.pages, ∃ source html, t.textAt (c.sourceOf g) = .ok source ∧
        pageInTemplate template c.rebuild.placeholder source = .ok html ∧
        t'.textAt (c.outputOf g) = .ok html ∧
        t'.find (c.outputOf g) = .ok (t.locate (c.outputOf g))) ∧
      (∀ l, (∀ g ∈ c.rebuild.pages, l ≠ t.locate (c.outputOf g)) →
        t'.get? l = t.get? l ∨ t.get? l = none ∧ t'.get? l = some .dir ∧
          ∃ g ∈ c.rebuild.pages, l <+: t.locate (c.outputOf g)) ∧
      t'.here = t.here ∧
      report =
        { written := outputs.filter fun p => t'.read p ≠ t.read p
          upToDate := outputs.filter fun p => t'.read p = t.read p
          stale := [] } ∧
      (rebuildAll c false t').tree = t' ∧
      (rebuildAll c false t').result = .ok { upToDate := outputs } ∧
      (rebuildAll c true t).result =
        .ok { upToDate := report.upToDate, stale := report.written } := by
  obtain ⟨template, done, ht, hdone, rfl⟩ := exists_of_rebuildAll h
  have hI : RebuiltSoFar c template t c.rebuild.pages done
      (runBatch (rebuildStep c false template) t c.rebuild.pages).tree :=
    runBatch_induction ⟨.refl t, by simp, rfl⟩
      (fun _ _ _ _ _ _ hsplit hI ha => rebuiltSoFar_step hsep hsplit hI ha) hdone
  simp only [(rebuildAll_eq false ht).1]
  generalize (runBatch (rebuildStep c false template) t c.rebuild.pages).tree = t' at hI
  have hagain := hI.again hsep ht
  have hcheck := hI.check ht
  obtain ⟨hstored, hrebuilt, rfl⟩ := hI
  refine ⟨template, ht, fun g hg => ?_, fun l hl => ?_, hstored.here, Report.ofList_written _ _,
    hagain.1, hagain.2, ?_⟩
  · obtain ⟨html, -, hhtml, -, hread⟩ := hrebuilt g hg
    obtain ⟨source, hsource, hin⟩ := rebuiltPage_eq_ok_iff.1 hhtml
    have hplain := hstored.plain (hsep.output_plain g hg)
    obtain ⟨hlook, hends, hfile⟩ := (read_plain hplain).1 hread
    refine ⟨source, html, hsource, hin, textAt_eq_ok_iff.2 hread, ?_⟩
    rw [find_of_file hplain hlook hends hfile, locate_of_here hstored.here]
  · have hnot := not_mem_outputs fun g hg => (hl g hg).symm
    refine (hstored.frame l hnot).imp_right fun ⟨hnone, hdir, k, hk, hlk⟩ => ?_
    obtain ⟨g, hg, rfl⟩ := List.mem_map.1 hk
    exact ⟨hnone, hdir, g, hg, hlk⟩
  · rw [hcheck, Report.ofList_written, Report.ofList_stale]

/-- One output is there already, and the directory of the other one is missing. -/
theorem rebuildAll_rebuilds_nested :
    let t := ((((((Tree.empty.put [] "index_template.html".toList
      (.file (Text.encode "<html>__BODY__</html>".toList))).put [] "index.html".toList
      (.file (Text.encode "<html>1</html>".toList))).putDirs [] ["docs".toList, "new".toList]).put
      ["docs".toList] "index.html".toList (.file (Text.encode "<body>1</body>".toList))).put
      ["docs".toList, "new".toList] "a.html".toList
      (.file (Text.encode "<BODY id=x>2</BODY>".toList))))
    let c : Config := { rebuild := { pages := ["index.html".toList, "new/a.html".toList] } }
    let report : Report := { written := ["new/a.html".toList], upToDate := ["index.html".toList] }
    let t' := (rebuildAll c false t).tree
    Separate c t ∧ (rebuildAll c false t).result = .ok report ∧
      (rebuildAll c false t').tree = t' ∧
      (rebuildAll c true t).result =
        .ok { upToDate := report.upToDate, stale := report.written } := by
  intro t c report t'
  have hsep : Separate c t := by decide +kernel
  have h : (rebuildAll c false t).result = .ok report := by decide +kernel
  obtain ⟨_, _, _, _, _, _, hagain, _, hcheck⟩ := rebuildAll_rebuilds_each hsep h
  exact ⟨hsep, h, hagain, hcheck⟩

end PageSplice
