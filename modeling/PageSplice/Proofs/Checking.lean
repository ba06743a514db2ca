import PageSplice.Proofs.Rebuilding
import PageSplice.Proofs.Retemplating
import PageSplice.Run.Program

/-!
# Checks

A run that only checks and a run that writes take the same steps until the first file that is not
up to date.  So a check finds nothing stale exactly if the run that writes would succeed without
writing a file, and it leaves the tree as it is in any case (`check_foretells_run`).
-/

namespace PageSplice

open PageSplice.Tree

variable {t : Tree} {job : Job} {check : Bool}

/-! ## One file -/

/-- The status of a file that is not up to date. -/
def Status.pending (check : Bool) : Status := if check then .stale else .written

/-- What is said of a file that got a status. -/
def Status.notice (job : Job) (p : Path) : Status → Notice
  | .upToDate => .upToDate job p
  | .stale => .outOfDate p
  | .written => .writing job p

theorem settleFile_eq_ok {store : Store} {p : Path} {current : Option ByteArray} {text : Text}
    {a : Path × Status} (h : (settleFile store job check t p current text).result = .ok a) :
    (a.2 = .upToDate ∨ a.2 = .pending check) ∧
      (settleFile store job check t p current text).notices = [a.2.notice job a.1] := by
  unfold settleFile at h ⊢
  split at h
  · next hold =>
    cases h
    simp [hold, Status.notice]
  · next hold =>
    split at h
    · next hcheck =>
      cases h
      simp [hold, hcheck, Status.notice, Status.pending]
    · next hcheck =>
      simp only [if_neg hold, if_neg hcheck]
      cases hs : store t p text with
      | mk t' r =>
        rw [hs] at h
        cases r with
        | error e => cases h
        | ok u =>
          cases h
          simp [hcheck, Status.notice, Status.pending]

theorem settleFile_agrees {store : Store} {p q : Path} {current : Option ByteArray} {text : Text}
    (h : (settleFile store job check t p current text).result = .ok (q, .upToDate)) :
    settleFile store job false t p current text = settleFile store job true t p current text := by
  unfold settleFile at h ⊢
  split at h
  · next hold => simp only [if_pos hold]
  · split at h
    · cases h
    · cases hs : store t p text with
      | mk t' r =>
        rw [hs] at h
        cases r <;> cases h

/-- A file's turn fails before anything is written, or it is to bring a file to a new content; which
of the two does not depend on whether the run only checks. -/
def Settles (job : Job) (step : Bool → FileStep) : Prop :=
  ∀ t p, (∃ notices f, ∀ check, step check t p = { tree := t, notices, result := .error f }) ∨
    ∃ store q current text, ∀ check, step check t p = settleFile store job check t q current text

theorem settles_rebuildStep (c : Config) (template : Text) :
    Settles .rebuild fun check => rebuildStep c check template := by
  intro t page
  cases hhtml : rebuiltPage t c template page with
  | error f => exact .inl ⟨[], f, fun check => by simp only [rebuildStep, hhtml]⟩
  | ok html =>
    cases hcurrent : t.contentAt (c.outputOf page) with
    | error e =>
      exact .inl ⟨[], { cause := .file e }, fun check => by
        simp only [rebuildStep, hhtml, hcurrent]⟩
    | ok current => exact .inr ⟨_, _, _, _, fun check => rebuildStep_eq hhtml hcurrent⟩

theorem settles_retemplateStep (host : Host) (ss : List Section) :
    Settles .retemplate fun check => host.retemplateStep ss check := by
  intro t p
  cases ht : host.textAt t p with
  | error e =>
    exact .inl ⟨[.failing p], { cause := .file e }, fun check => by
      simp only [Host.retemplateStep, ht]⟩
  | ok text =>
    cases hfill : fillSections text ss with
    | error e =>
      exact .inl ⟨[.failing p], { during := some (.retemplating p), cause := .page e },
        fun check => by simp only [Host.retemplateStep, ht, hfill]⟩
    | ok new => exact .inr ⟨_, _, _, _, fun check => retemplateStep_eq check ht hfill⟩

namespace Settles

variable {step : Bool → FileStep} (h : Settles job step)
include h

theorem tree_step (t : Tree) (p : Path) : (step true t p).tree = t := by
  obtain ⟨_, _, hfails⟩ | ⟨store, q, current, text, hsettles⟩ := h t p
  · rw [hfails]
  · rw [hsettles]
    exact (settleFile_of_still store job true q (.inr rfl)).1

theorem step_eq_ok {p : Path} {a : Path × Status} (ha : (step check t p).result = .ok a) :
    (a.2 = .upToDate ∨ a.2 = .pending check) ∧
      (step check t p).notices = [a.2.notice job a.1] := by
  obtain ⟨_, _, hfails⟩ | ⟨store, q, current, text, hsettles⟩ := h t p
  · rw [hfails] at ha
    cases ha
  · rw [hsettles] at ha ⊢
    exact settleFile_eq_ok ha

theorem step_agrees {p q : Path} (hq : (step check t p).result = .ok (q, .upToDate)) :
    ∀ other, step other t p = step true t p := by
  obtain ⟨_, _, hfails⟩ | ⟨_, _, current, text, hsettles⟩ := h t p
  · rw [hfails] at hq
    cases hq
  · rw [hsettles] at hq
    intro other
    rw [hsettles, hsettles]
    cases other
    · exact settleFile_agrees hq
    · rfl

/-! ## A batch -/

theorem tree_runBatch (t : Tree) (ps : List Path) : (runBatch (step true) t ps).tree = t :=
  runBatch_invariant (I := (· = t)) rfl fun p _ u hu => by rw [h.tree_step, hu]

theorem runBatch_eq_ok {ps : List Path} {done : List (Path × Status)}
    (hdone : (runBatch (step check) t ps).result = .ok done) :
    (∀ a ∈ done, a.2 = .upToDate ∨ a.2 = .pending check) ∧
      (runBatch (step check) t ps).notices = done.map fun a => a.2.notice job a.1 := by
  induction ps generalizing t done with
  | nil =>
    cases hdone
    simp [runBatch]
  | cons p ps ih =>
    obtain ⟨a, rest, ha, hrest, rfl⟩ := runBatch_cons_eq_ok_iff.1 hdone
    obtain ⟨hstatus, hnotice⟩ := h.step_eq_ok ha
    obtain ⟨hstatuses, hnotices⟩ := ih hrest
    refine ⟨by simpa using ⟨hstatus, fun q s => hstatuses (q, s)⟩, ?_⟩
    simp only [runBatch, Outcome.andThen, ha, Outcome.map, hnotice, hnotices, List.map_cons,
      List.singleton_append]

/-- A batch that finds all files up to date goes the same way whether it checks or writes. -/
theorem runBatch_agrees {ps : List Path} {done : List (Path × Status)}
    (hdone : (runBatch (step check) t ps).result = .ok done)
    (hfresh : ∀ a ∈ done, a.2 = .upToDate) :
    ∀ other, runBatch (step other) t ps = runBatch (step true) t ps := by
  induction ps generalizing t done with
  | nil => exact fun _ => rfl
  | cons p ps ih =>
    obtain ⟨⟨q, s⟩, rest, ha, hrest, rfl⟩ := runBatch_cons_eq_ok_iff.1 hdone
    obtain rfl : s = .upToDate := hfresh _ (List.mem_cons_self ..)
    have hstep := h.step_agrees ha
    have hrest := ih hrest fun a ha => hfresh a (List.mem_cons_of_mem _ ha)
    rw [hstep] at ha hrest
    intro other
    simp only [runBatch, Outcome.andThen, hstep other, ha, hrest other]

end Settles

/-! ## A run -/

/-- What a check tells of the run that writes, given the outcomes of both. -/
structure Foretells (t : Tree) (checked real : Outcome Report) : Prop where
  still : checked.tree = t
  iff : (∃ r, checked.result = .ok r ∧ r.stale = []) ↔ ∃ r, real.result = .ok r ∧ r.written = []
  same : (∃ r, checked.result = .ok r ∧ r.stale = []) → real = checked

/-- The notices of a run tell whether files were written, and no file is stale. -/
def TellsWrites (o : Outcome Report) : Prop :=
  ∀ r, o.result = .ok r →
    r.stale = [] ∧ (r.written = [] ↔ ∀ job p, Notice.writing job p ∉ o.notices)

/-- The files of a run that are not up to date. -/
def Report.pending (check : Bool) (r : Report) : List Path := if check then r.stale else r.written

theorem Report.stale_ofList_eq_nil {done : List (Path × Status)} :
    (Report.ofList done).stale = [] ↔ ∀ a ∈ done, a.2 ≠ .stale := by
  simp [Report.ofList, List.filter_eq_nil_iff]

theorem Report.written_ofList_eq_nil {done : List (Path × Status)} :
    (Report.ofList done).written = [] ↔ ∀ a ∈ done, a.2 ≠ .written := by
  simp [Report.ofList, List.filter_eq_nil_iff]

theorem Report.pending_ofList_eq_nil {done : List (Path × Status)} :
    (Report.ofList done).pending check = [] ↔ ∀ a ∈ done, a.2 ≠ .pending check := by
  cases check
  · exact written_ofList_eq_nil
  · exact stale_ofList_eq_nil

theorem Settles.pending_eq_nil_iff {step : Bool → FileStep} (h : Settles job step) (check : Bool)
    (t : Tree) (ps : List Path) :
    (∃ r, ((runBatch (step check) t ps).map Report.ofList).result = .ok r ∧
        r.pending check = []) ↔
      ∃ done, (runBatch (step check) t ps).result = .ok done ∧ ∀ a ∈ done, a.2 = .upToDate := by
  constructor
  · rintro ⟨r, hr, hpending⟩
    obtain ⟨done, hdone, rfl⟩ := Outcome.result_map_eq_ok_iff.1 hr
    have hstatuses := (h.runBatch_eq_ok hdone).1
    exact ⟨done, hdone, fun a ha => (hstatuses a ha).resolve_right
      (Report.pending_ofList_eq_nil.1 hpending a ha)⟩
  · rintro ⟨done, hdone, hfresh⟩
    refine ⟨_, Outcome.result_map_eq_ok_iff.2 ⟨done, hdone, rfl⟩,
      Report.pending_ofList_eq_nil.2 fun a ha => ?_⟩
    rw [hfresh a ha]
    cases check <;> decide

theorem Settles.foretells {step : Bool → FileStep} (h : Settles job step) (t : Tree)
    (ps : List Path) :
    Foretells t ((runBatch (step true) t ps).map Report.ofList)
      ((runBatch (step false) t ps).map Report.ofList) := by
  have hcheck := h.pending_eq_nil_iff true t ps
  have hreal := h.pending_eq_nil_iff false t ps
  refine ⟨h.tree_runBatch t ps, hcheck.trans (.trans ⟨?_, ?_⟩ hreal.symm), fun hc => ?_⟩
  · rintro ⟨done, hdone, hfresh⟩
    rw [h.runBatch_agrees hdone hfresh false]
    exact ⟨done, hdone, hfresh⟩
  · rintro ⟨done, hdone, hfresh⟩
    rw [h.runBatch_agrees hdone hfresh false] at hdone
    exact ⟨done, hdone, hfresh⟩
  · obtain ⟨done, hdone, hfresh⟩ := hcheck.1 hc
    rw [h.runBatch_agrees hdone hfresh false]

theorem Settles.tellsWrites {step : Bool → FileStep} (h : Settles job step) (t : Tree)
    (ps : List Path) : TellsWrites ((runBatch (step false) t ps).map Report.ofList) := by
  intro r hr
  obtain ⟨done, hdone, rfl⟩ := Outcome.result_map_eq_ok_iff.1 hr
  obtain ⟨hstatuses, hnotices⟩ := h.runBatch_eq_ok hdone
  have hnotices : ((runBatch (step false) t ps).map Report.ofList).notices = _ := hnotices
  rw [Report.stale_ofList_eq_nil, Report.written_ofList_eq_nil, hnotices]
  refine ⟨fun a ha => ?_, fun hnone job' p hp => ?_, fun hnone a ha hwritten => ?_⟩
  · obtain hs | hs := hstatuses a ha <;> simp [hs, Status.pending]
  · obtain ⟨⟨q, s⟩, ha, hs⟩ := List.mem_map.1 hp
    cases s with
    | written => exact hnone _ ha rfl
    | upToDate | stale => cases hs
  · refine hnone job a.1 (List.mem_map.2 ⟨a, ha, ?_⟩)
    simp only [hwritten, Status.notice]

/-- An outcome with notices before its own. -/
def Outcome.after {α : Type} (notices : List Notice) (o : Outcome α) : Outcome α :=
  { o with notices := notices ++ o.notices }

theorem Foretells.after {checked real : Outcome Report} (h : Foretells t checked real)
    (notices : List Notice) : Foretells t (checked.after notices) (real.after notices) :=
  ⟨h.still, h.iff, fun hc => congrArg (Outcome.after notices) (h.same hc)⟩

theorem TellsWrites.after {o : Outcome Report} (h : TellsWrites o) {notices : List Notice}
    (hnotices : ∀ job p, Notice.writing job p ∉ notices) : TellsWrites (o.after notices) := by
  intro r hr
  obtain ⟨hstale, hwritten⟩ := h r hr
  refine ⟨hstale, hwritten.trans ?_⟩
  simp [Outcome.after, hnotices]

/-- A run that fails before its files have their turns. -/
theorem foretells_of_error {o : Outcome Report} {f : Failure} (htree : o.tree = t)
    (hresult : o.result = .error f) : Foretells t o o ∧ TellsWrites o :=
  ⟨⟨htree, by simp [hresult], fun _ => rfl⟩, fun r hr => by rw [hresult] at hr; cases hr⟩

theorem foretells_rebuildAll (c : Config) (t : Tree) :
    Foretells t (rebuildAll c true t) (rebuildAll c false t) ∧
      TellsWrites (rebuildAll c false t) := by
  cases ht : t.textAt c.rebuild.template with
  | error e =>
    simp only [rebuildAll, ht]
    exact foretells_of_error rfl rfl
  | ok template =>
    simp only [rebuildAll, ht]
    have h := settles_rebuildStep c template
    exact ⟨h.foretells t c.rebuild.pages, h.tellsWrites t c.rebuild.pages⟩

theorem foretells_retemplateAll (c : Config) (targets : List Path) (t : Tree) :
    Foretells t (retemplateAll c targets true t) (retemplateAll c targets false t) ∧
      TellsWrites (retemplateAll c targets false t) := by
  cases hss : readSections t c.retemplate.sections with
  | error f =>
    simp only [Host.retemplateAll, hss]
    exact foretells_of_error rfl rfl
  | ok ss =>
    cases hfiles : t.filesOf targets c.fragments with
    | error e =>
      simp only [Host.retemplateAll, hss, hfiles]
      exact foretells_of_error rfl rfl
    | ok files =>
      have hrun : ∀ check, retemplateAll c targets check t =
          ((runBatch (retemplateStep ss check) t files).map Report.ofList).after
            [.sections (ss.map (·.name))] := by
        intro check
        simp only [Host.retemplateAll, hss, hfiles]
        rfl
      have h := settles_retemplateStep .willing ss
      rw [hrun, hrun]
      exact ⟨(h.foretells t files).after _, (h.tellsWrites t files).after (by simp)⟩

/-! ## The program -/

def Command.checking (check : Bool) : Command → Command
  | .init => .init
  | .rebuild r => .rebuild { r with check }
  | .retemplate r => .retemplate { r with check }

/-- The same command line, to check or to write. -/
def CommandLine.checking (line : CommandLine) (check : Bool) : CommandLine :=
  { line with command := line.command.checking check }

theorem configFor_checking (home : Path) (line : CommandLine) (check : Bool) (t : Tree) :
    configFor home (line.checking check) t = configFor home line t := by
  obtain ⟨root, config, command⟩ := line
  cases command <;>
    simp [configFor, CommandLine.checking, Command.checking, CommandLine.rootPath,
      CommandLine.startsProject, Config.update, Config.override]

/-- A command line that starts no project fails at once, or carries out a run that goes through
files. -/
theorem carryOut_checking (home : Path) {line : CommandLine} (hline : line.command ≠ .init)
    (t : Tree) :
    (∃ f, ∀ check, carryOut home (line.checking check) t = { tree := t, result := .error f }) ∨
      ∃ (job : Job) (go : Bool → Outcome Report),
        (∀ check, carryOut home (line.checking check) t = (go check).andThen (finishReport job)) ∧
          Foretells t (go true) (go false) ∧ TellsWrites (go false) := by
  have hconfig := fun check => configFor_checking home line check t
  cases hc : configFor home line t with
  | error f => exact .inl ⟨f, fun check => by simp only [carryOut, hconfig, hc]⟩
  | ok c =>
    refine .inr ?_
    obtain ⟨root, config, command⟩ := line
    cases command with
    | init => exact absurd rfl hline
    | rebuild r =>
      exact ⟨.rebuild, fun check => rebuildAll c check t,
        fun check => by simp only [carryOut, hconfig, hc]; rfl, foretells_rebuildAll c t⟩
    | retemplate r =>
      exact ⟨.retemplate, fun check => retemplateAll c r.targets check t,
        fun check => by simp only [carryOut, hconfig, hc]; rfl,
        foretells_retemplateAll c r.targets t⟩

theorem finished_eq_ok_iff {o : Outcome Report} :
    (o.andThen (finishReport job)).result = .ok () ↔ ∃ r, o.result = .ok r ∧ r.stale = [] := by
  cases hr : o.result with
  | error f => simp [Outcome.andThen, hr]
  | ok r =>
    by_cases hstale : r.stale = [] <;>
      simp [Outcome.andThen, hr, finishReport, announce, refuseStale, hstale]

theorem tree_finished (o : Outcome Report) : (o.andThen (finishReport job)).tree = o.tree := by
  cases hr : o.result <;> simp [Outcome.andThen, hr, finishReport, announce, refuseStale]

theorem writing_mem_finished {o : Outcome Report} {job' : Job} {p : Path} :
    .writing job' p ∈ (o.andThen (finishReport job)).notices ↔ .writing job' p ∈ o.notices := by
  cases hr : o.result <;> simp [Outcome.andThen, hr, finishReport, announce, refuseStale]

theorem run_of_parse (home : Path) (coloured : Bool) (t : Tree) {args : List Text}
    {line : CommandLine} (h : CommandLine.parse args = .ok line) :
    (run home coloured args t).tree = (carryOut home line t).tree ∧
      ((run home coloured args t).code = 0 ↔ (carryOut home line t).result = .ok ()) := by
  simp only [run, h]
  cases (carryOut home line t).result <;> simp

/-- A check changes nothing.  It finds nothing stale exactly if the run that writes succeeds and
writes nothing, and then both have the same outcome.  So the command that checks ends with code 0
exactly if the same command without the check does so and writes no file, which its notices
tell. -/
theorem check_foretells_run (c : Config) (targets : List Path) (t : Tree) :
    (Foretells t (rebuildAll c true t) (rebuildAll c false t) ∧
      TellsWrites (rebuildAll c false t)) ∧
    (Foretells t (retemplateAll c targets true t) (retemplateAll c targets false t) ∧
      TellsWrites (retemplateAll c targets false t)) ∧
    ∀ (home : Path) (coloured : Bool) (line : CommandLine) (args args' : List Text),
      line.command ≠ .init →
      CommandLine.parse args = .ok (line.checking true) →
      CommandLine.parse args' = .ok (line.checking false) →
      (run home coloured args t).tree = t ∧
      ((run home coloured args t).code = 0 ↔ (run home coloured args' t).code = 0 ∧
        ∀ job p, .writing job p ∉ (carryOut home (line.checking false) t).notices) := by
  refine ⟨foretells_rebuildAll c t, foretells_retemplateAll c targets t, ?_⟩
  intro home coloured line args args' hline hargs hargs'
  obtain ⟨htree, hcode⟩ := run_of_parse home coloured t hargs
  obtain ⟨-, hcode'⟩ := run_of_parse home coloured t hargs'
  rw [htree, hcode, hcode']
  obtain ⟨f, hfails⟩ | ⟨job, go, hgo, hfore, htells⟩ := carryOut_checking home hline t
  · simp [hfails]
  · rw [hgo, hgo, tree_finished, finished_eq_ok_iff, finished_eq_ok_iff, hfore.iff]
    simp only [writing_mem_finished]
    refine ⟨hfore.still, ?_, ?_⟩
    · rintro ⟨r, hr, hwritten⟩
      obtain ⟨hstale, hiff⟩ := htells r hr
      exact ⟨⟨r, hr, hstale⟩, hiff.1 hwritten⟩
    · rintro ⟨⟨r, hr, -⟩, hnone⟩
      exact ⟨r, hr, (htells r hr).2.2 hnone⟩

/-- A page that is a target twice: the run that writes finds it up to date the second time, the
check finds it stale both times. -/
theorem check_foretells_run_twice :
    let t := Tree.ofTexts [("f", "F"), ("p", "<!--A-->1<!--/A-->")]
    let line : CommandLine :=
      { command := .retemplate { targets := ["p".toList, "p".toList],
                                 sections := [⟨"A".toList, "f".toList⟩] } }
    let args' := ["retemplate", "--section", "A=f", "p", "p"].map String.toList
    let args := args' ++ ["--check".toList]
    CommandLine.parse args = .ok (line.checking true) ∧
      CommandLine.parse args' = .ok (line.checking false) ∧
      (run [] false args t).tree = t ∧ (run [] false args t).code ≠ 0 ∧
      (run [] false args' t).code = 0 := by
  intro t line args' args
  have hargs : CommandLine.parse args = .ok (line.checking true) := by decide +kernel
  have hargs' : CommandLine.parse args' = .ok (line.checking false) := by decide +kernel
  have hwrites : .writing .retemplate "p".toList ∈
      (carryOut [] (line.checking false) t).notices := by decide +kernel
  obtain ⟨htree, hcode⟩ := (check_foretells_run {} [] t).2.2 [] false line args args'
    (by simp [line]) hargs hargs'
  exact ⟨hargs, hargs', htree, fun h => (hcode.1 h).2 _ _ hwrites, by decide +kernel⟩

end PageSplice
