import PageSplice.Proofs.Checking
import PageSplice.Proofs.Stopping

/-!
# The log of a retemplating run

The log names the sections and then has one line for each file that had its turn, in the order of
the turns: the line tells the file and what its turn came to.  A file that cannot be read or filled
gets an error line, and this is the last one (`retemplateAll_tells`).  The line of a file that is to
be written is there before the file is written (`retemplateStep_tells_first`), so where the system
refuses to write it, this line is the last one and there is no error line.
-/

namespace PageSplice

open PageSplice.Tree

variable {host : Host} {t : Tree} {ss : List Section} {check : Bool} {p : Path}

/-- The log calls of a run. -/
def Outcome.log {α : Type} (o : Outcome α) : List LogLine := o.notices.map Notice.line

/-! ## Lines -/

/-- The line for a file that got a status. -/
def Status.line (p : Path) : Status → LogLine
  | .upToDate => ⟨"retemplate".toList, "File ".toList ++ p ++ " up-to-date".toList⟩
  | .stale => ⟨"check".toList, p ++ " is out of date".toList⟩
  | .written => ⟨"retemplate".toList, "Rewriting ".toList ++ p⟩

/-- The status of which a line tells, by its topic and how its message begins. -/
def LogLine.status? (l : LogLine) : Option Status :=
  if l.topic = "check".toList then some .stale
  else if l.topic ≠ "retemplate".toList then none
  else if "File ".toList <+: l.message then some .upToDate
  else if "Rewriting ".toList <+: l.message then some .written
  else none

def openingLine (names : List Text) : LogLine :=
  ⟨"retemplate".toList, "sections: ".toList ++ ", ".toList.intercalate names⟩

def errorLine (p : Path) : LogLine := ⟨"error".toList, "Error in file ".toList ++ p⟩

theorem line_notice (p : Path) (s : Status) : (s.notice .retemplate p).line = s.line p := by
  cases s <;> rfl

theorem status?_retemplate (message : Text) :
    LogLine.status? ⟨"retemplate".toList, message⟩ =
      if "File ".toList <+: message then some .upToDate
      else if "Rewriting ".toList <+: message then some .written else none := by
  have hcheck : "retemplate".toList ≠ "check".toList := by decide +kernel
  exact (if_neg hcheck).trans (if_neg (not_not.2 rfl))

theorem not_isPrefix_append_of_head {s u v : Text} (hs : s ≠ []) (hu : u ≠ [])
    (h : s.head? ≠ u.head?) : ¬ s <+: u ++ v := by
  cases s with
  | nil => exact absurd rfl hs
  | cons c s =>
    cases u with
    | nil => exact absurd rfl hu
    | cons d u =>
      rw [List.cons_append, List.cons_prefix_cons]
      exact fun hcd => h (congrArg some hcd.1)

/-- A line tells of its own status only, whatever the file is called. -/
theorem status?_line (p : Path) (s : Status) : (s.line p).status? = some s := by
  cases s with
  | upToDate =>
    refine (status?_retemplate _).trans (if_pos ?_)
    rw [List.append_assoc]
    exact List.prefix_append ..
  | stale => exact if_pos rfl
  | written =>
    have hfile : ¬ "File ".toList <+: "Rewriting ".toList ++ p :=
      not_isPrefix_append_of_head (by decide +kernel) (by decide +kernel) (by decide +kernel)
    exact (status?_retemplate _).trans ((if_neg hfile).trans (if_pos (List.prefix_append ..)))

theorem status?_openingLine (names : List Text) : (openingLine names).status? = none := by
  have hfile : ¬ "File ".toList <+: "sections: ".toList ++ ", ".toList.intercalate names :=
    not_isPrefix_append_of_head (by decide +kernel) (by decide +kernel) (by decide +kernel)
  have hrewrite : ¬ "Rewriting ".toList <+: "sections: ".toList ++ ", ".toList.intercalate names :=
    not_isPrefix_append_of_head (by decide +kernel) (by decide +kernel) (by decide +kernel)
  exact (status?_retemplate _).trans ((if_neg hfile).trans (if_neg hrewrite))

/-- The files of a report that got a status. -/
def Report.withStatus (r : Report) : Status → List Path
  | .upToDate => r.upToDate
  | .stale => r.stale
  | .written => r.written

/-- The lines of one status, picked out of the log, are those of the files in the report. -/
theorem filter_lines (names : List Text) (done : List (Path × Status)) (s : Status) :
    (openingLine names :: done.map fun a => a.2.line a.1).filter (·.status? = some s) =
      ((Report.ofList done).withStatus s).map fun p => s.line p := by
  have hlist : (Report.ofList done).withStatus s = (done.filter (·.2 = s)).map (·.1) := by
    cases s <;> rfl
  rw [hlist, List.map_map, List.filter_cons_of_neg (by simp [status?_openingLine])]
  clear hlist
  induction done with
  | nil => rfl
  | cons a done ih =>
    by_cases ha : a.2 = s
    · simp [status?_line, ha, ih]
    · simp [status?_line, ha, ih]

/-! ## Turns -/

/-- What the turn of one file comes to: it has its sections filled, or it does not and is only
checked, or it is written. -/
inductive Turn (host : Host) (ss : List Section) (check : Bool) (t : Tree) (p : Path) :
    Status → Tree → Prop
  | upToDate {old} : host.textAt t p = .ok old → fillSections old ss = .ok old →
      Turn host ss check t p .upToDate t
  | stale {old new} : host.textAt t p = .ok old → fillSections old ss = .ok new → new ≠ old →
      check = true → Turn host ss check t p .stale t
  | written {old new t'} : host.textAt t p = .ok old → fillSections old ss = .ok new → new ≠ old →
      check = false → host.storeText t p new = (t', .ok ()) → Turn host ss check t p .written t'

/-- Turns of files one after the other, each on the tree that the one before it left. -/
inductive Turns (host : Host) (ss : List Section) (check : Bool) :
    Tree → List (Path × Status) → Tree → Prop
  | nil {t : Tree} : Turns host ss check t [] t
  | cons {t t' t'' : Tree} {p : Path} {s : Status} {done : List (Path × Status)} :
      Turn host ss check t p s t' → Turns host ss check t' done t'' →
        Turns host ss check t ((p, s) :: done) t''

/-- The text is stored under the path, as far as the system does. -/
def storing (host : Host) (t : Tree) (p : Path) (text : Text) : Outcome (Path × Status) :=
  match host.storeText t p text with
  | (t', .ok ()) => { tree := t', result := .ok (p, .written) }
  | (t', .error e) => { tree := t', result := .error { cause := .file e } }

/-- A file that is to change is announced first and written then, so it is announced too if it
cannot be written. -/
theorem retemplateStep_tells_first {old new : Text} (ht : host.textAt t p = .ok old)
    (hf : fillSections old ss = .ok new) (hne : new ≠ old) :
    host.retemplateStep ss false t p =
      (announce t (.writing .retemplate p)).andThen fun t _ => storing host t p new := by
  have hnot : ¬ holdsAlready (some old.encode) new.encode := by
    simpa [holdsAlready, Text.encode_inj] using Ne.symm hne
  rw [retemplateStep_eq false ht hf, settleFile, if_neg hnot, if_neg (by simp)]
  simp only [announce, Outcome.andThen, storing]
  cases host.storeText t p new with
  | mk t' r => cases r <;> rfl

theorem turn_of_retemplateStep {a : Path × Status}
    (h : (host.retemplateStep ss check t p).result = .ok a) :
    a.1 = p ∧ Turn host ss check t p a.2 (host.retemplateStep ss check t p).tree := by
  obtain ⟨old, new, ht, hf⟩ := exists_of_retemplateStep h
  by_cases hstill : new = old ∨ check = true
  · obtain ⟨htree, hres⟩ := retemplateStep_of_still check ht hf hstill
    rw [htree]
    rw [hres] at h
    cases h
    refine ⟨rfl, ?_⟩
    by_cases hsame : new = old
    · subst hsame
      simpa using .upToDate ht hf
    · simpa [hsame] using .stale ht hf hsame (hstill.resolve_left hsame)
  · obtain ⟨hne, hwrites⟩ := not_or.1 hstill
    obtain rfl : check = false := by simpa using hwrites
    rw [retemplateStep_eq false ht hf] at h ⊢
    obtain ⟨rfl, hstored⟩ :=
      store_of_settleFile (by simpa [Text.encode_inj] using Ne.symm hne) h
    exact ⟨rfl, .written ht hf hne rfl hstored⟩

theorem turns_of_runBatch {ps : List Path} {done : List (Path × Status)}
    (h : (runBatch (host.retemplateStep ss check) t ps).result = .ok done) :
    done.map (·.1) = ps ∧
      Turns host ss check t done (runBatch (host.retemplateStep ss check) t ps).tree := by
  induction ps generalizing t done with
  | nil =>
    cases h
    exact ⟨rfl, .nil⟩
  | cons p ps ih =>
    obtain ⟨⟨q, s⟩, rest, ha, hrest, rfl⟩ := runBatch_cons_eq_ok_iff.1 h
    obtain ⟨rfl, hturn⟩ := turn_of_retemplateStep ha
    obtain ⟨rfl, hturns⟩ := ih hrest
    rw [tree_runBatch_cons ha]
    exact ⟨rfl, .cons hturn hturns⟩

/-- A file that cannot be filled is reported, and nothing happens to it. -/
theorem retemplateStep_of_cannotFill (check : Bool) {f : Failure} (h : CannotFill host t ss p f) :
    host.retemplateStep ss check t p =
      { tree := t, notices := [.failing p], result := .error f } := by
  obtain ⟨cause, ht, rfl⟩ | ⟨text, e, ht, hfill, rfl⟩ := h
  · simp only [Host.retemplateStep, ht]
  · simp only [Host.retemplateStep, ht, hfill]

/-- A file that cannot be written is announced like one that can, and that is all. -/
theorem retemplateStep_of_cannotWrite {f : Failure} {t' : Tree}
    (h : CannotWrite host t ss p f t') :
    host.retemplateStep ss false t p =
      { tree := t', notices := [.writing .retemplate p], result := .error f } := by
  obtain ⟨old, new, r, l, ht, hfill, hne, -, rfl, hstore, -⟩ := h
  rw [retemplateStep_tells_first ht hfill hne]
  simp only [announce, Outcome.andThen, storing, hstore]
  rfl

/-! ## The log of a batch -/

theorem log_runBatch {ps : List Path} {done : List (Path × Status)}
    (h : (runBatch (host.retemplateStep ss check) t ps).result = .ok done) :
    (runBatch (host.retemplateStep ss check) t ps).log = done.map fun a => a.2.line a.1 := by
  rw [Outcome.log, ((settles_retemplateStep host ss).runBatch_eq_ok h).2, List.map_map]
  exact List.map_congr_left fun a _ => line_notice a.1 a.2

/-- The last turn of a run that stopped: the file cannot be filled and gets an error line, or it
cannot be written and has been announced already. -/
def LastTurn (host : Host) (ss : List Section) (check : Bool) (t : Tree) (p : Path) (f : Failure)
    (line : LogLine) (t' : Tree) : Prop :=
  (CannotFill host t ss p f ∧ t' = t ∧ line = errorLine p) ∨
    (check = false ∧ CannotWrite host t ss p f t' ∧ line = Status.written.line p)

/-- A batch that fails, fails at a file that cannot be filled or written, and its log ends with the
line of this file. -/
theorem log_runBatch_of_error {ps : List Path} {f : Failure}
    (h : (runBatch (host.retemplateStep ss check) t ps).result = .error f) :
    let o := runBatch (host.retemplateStep ss check) t ps
    ∃ done p rest t' line, ps = done.map (·.1) ++ p :: rest ∧ Turns host ss check t done t' ∧
      LastTurn host ss check t' p f line o.tree ∧
      o.log = (done.map fun a => a.2.line a.1) ++ [line] := by
  obtain ⟨seen, p, rest, done, rfl, hseen, hp⟩ := exists_of_runBatch_error h
  obtain ⟨hfiles, hturns⟩ := turns_of_runBatch hseen
  have hlog := log_runBatch hseen
  rw [runBatch_append_of_error hseen hp]
  obtain ⟨hwhy, -⟩ | ⟨rfl, hwhy⟩ := retemplateStep_eq_error hp
  · refine ⟨done, p, rest, _, errorLine p, by rw [hfiles], hturns, .inl ⟨hwhy, ?_, rfl⟩, ?_⟩
    · rw [retemplateStep_of_cannotFill check hwhy]
    · rw [← hlog, retemplateStep_of_cannotFill check hwhy]
      exact List.map_append ..
  · refine ⟨done, p, rest, _, Status.written.line p, by rw [hfiles], hturns,
      .inr ⟨rfl, hwhy, rfl⟩, ?_⟩
    rw [← hlog, retemplateStep_of_cannotWrite hwhy]
    exact List.map_append ..

/-! ## The log of a run -/

/-- The log of a run whose fragments could be read.  It begins with the sections, and that is all if
the files cannot be listed.  Then there is one line for each file that had its turn, and it tells
what the turn came to.  These are all files, and the report lists them by their lines; or they are
those before a file at which the run stops, whose line is the last: an error line if the file cannot
be read or filled, and otherwise the one that announced that it would be written.  For a file's line
is there before the file is written. -/
theorem retemplateAll_tells {c : Config} {targets : List Path}
    (hss : host.readSections t c.retemplate.sections = .ok ss) :
    let o := host.retemplateAll c targets check t
    let opening := openingLine (c.retemplate.sections.map (·.name))
    (∀ e, host.filesOf t targets c.fragments = .error e →
      o.log = [opening] ∧ o.result = .error { cause := .file e } ∧ o.tree = t) ∧
    (∀ files, host.filesOf t targets c.fragments = .ok files → ∃ done,
      (done.map (·.1) = files ∧ Turns host ss check t done o.tree ∧ o.result = .ok (.ofList done) ∧
          o.log = opening :: done.map (fun a => a.2.line a.1) ∧
          (∀ s, o.log.filter (·.status? = some s) =
            ((Report.ofList done).withStatus s).map fun p => s.line p) ∨
        ∃ p rest f t' line, files = done.map (·.1) ++ p :: rest ∧
          Turns host ss check t done t' ∧ LastTurn host ss check t' p f line o.tree ∧
          o.result = .error f ∧
          o.log = opening :: done.map (fun a => a.2.line a.1) ++ [line])) ∧
    ∀ u p old new, host.textAt u p = .ok old → fillSections old ss = .ok new → new ≠ old →
      host.retemplateStep ss false u p =
        (announce u (.writing .retemplate p)).andThen fun u _ => storing host u p new := by
  intro o opening
  have hopening : (Notice.sections (ss.map (·.name))).line = opening := by
    rw [(of_readSections hss).1]
    rfl
  refine ⟨fun e he => ?_, fun files hfiles => ?_,
    fun u p old new ht hf hne => retemplateStep_tells_first ht hf hne⟩
  · have ho : o =
        { tree := t
          notices := [.sections (ss.map (·.name))]
          result := .error { cause := .file e } } := by
      simp only [o, Host.retemplateAll, hss, he]
      rfl
    rw [ho]
    exact ⟨by rw [← hopening]; rfl, rfl, rfl⟩
  · obtain ⟨htree, hres⟩ : o.tree = _ ∧ o.result = _ := retemplateAll_eq check hss hfiles
    have hlog : o.log = opening :: (runBatch (host.retemplateStep ss check) t files).log := by
      simp only [o, Host.retemplateAll, hss, hfiles]
      rw [← hopening]
      rfl
    rw [htree, hres, hlog]
    cases hbatch : (runBatch (host.retemplateStep ss check) t files).result with
    | ok done =>
      obtain ⟨hdone, hturns⟩ := turns_of_runBatch hbatch
      rw [log_runBatch hbatch]
      exact ⟨done, .inl ⟨hdone, hturns, rfl, rfl, filter_lines _ done⟩⟩
    | error f =>
      obtain ⟨done, p, rest, t', line, hsplit, hturns, hlast, hlines⟩ :=
        log_runBatch_of_error hbatch
      rw [hlines]
      exact ⟨done, .inr ⟨p, rest, f, t', line, hsplit, hturns, hlast, rfl, rfl⟩⟩

/-- The first page has its section filled, the second one is written, the third one has no section,
and the last one has no turn.  If the second one is read-only, it is announced, and that is all. -/
theorem retemplateAll_tells_third :
    let page := "<!--A-->1<!--/A-->"
    let t := Tree.ofTexts
      [("f", "F"), ("a", "<!--A-->F<!--/A-->"), ("b", page), ("d", "none"), ("e", page)]
    let c := Config.ofSections [("A", "f")]
    let files := ["a", "b", "d", "e"].map String.toList
    let locked : WriteRefusal := { cause := .refused 13 "Permission denied" }
    let host : Host :=
      { unwritten := fun _ p _ => if p = "b".toList then some locked else none }
    let told := fun host : Host => ∃ ss done p rest f t' line,
      files = done.map (·.1) ++ p :: rest ∧ Turns host ss false t done t' ∧
        LastTurn host ss false t' p f line (host.retemplateAll c files false t).tree ∧
        (host.retemplateAll c files false t).result = .error f ∧
        (host.retemplateAll c files false t).log =
          openingLine ["A".toList] :: done.map (fun a => a.2.line a.1) ++ [line]
    (retemplateAll c files false t).log =
        [openingLine ["A".toList], Status.upToDate.line "a".toList,
          Status.written.line "b".toList, errorLine "d".toList] ∧
      told .willing ∧
      (host.retemplateAll c files false t).log =
        [openingLine ["A".toList], Status.upToDate.line "a".toList,
          Status.written.line "b".toList] ∧
      told host := by
  intro page t c files locked host told
  have hall : ∀ host : Host, host.readSections t c.retemplate.sections =
      .ok [⟨"A".toList, "F".toList, by decide⟩] → host.filesOf t files c.fragments = .ok files →
      (host.retemplateAll c files false t).result.isOk = false → told host := by
    intro host hss hfiles hfails
    obtain ⟨done, ⟨-, -, hok, -⟩ | ⟨p, rest, f, t', line, hsplit, hturns, hlast, hres, hlog⟩⟩ :=
      (retemplateAll_tells hss).2.1 files hfiles
    · rw [hok] at hfails
      cases hfails
    · exact ⟨_, done, p, rest, f, t', line, hsplit, hturns, hlast, hres, hlog⟩
  exact ⟨by decide +kernel, hall _ (by decide +kernel) (by decide +kernel) (by decide +kernel),
    by decide +kernel, hall _ (by decide +kernel) (by decide +kernel) (by decide +kernel)⟩

end PageSplice
