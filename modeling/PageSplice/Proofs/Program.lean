import PageSplice.Proofs.Starting

/-!
# What the program changes

A run of the program takes nothing away, and what it adds or fills is what its command is for; a
command line that is refused, or a configuration that cannot be had, leaves the tree as it is
(`run_footprint`).  Starting a project changes no file that was there, unless the path of the
configuration has a step up and leads nowhere before the run: then it may write over the file to
which this path leads once directories were made for it (`run_init_overwrites`).
-/

namespace PageSplice

open PageSplice.Tree

/-! ## The configuration for a command line -/

/-- Where a command line says that the configuration file is. -/
def CommandLine.configFile (line : CommandLine) : Path := Path.join line.rootPath line.config

/-- The settings in a configuration file, or the defaults where there is none. -/
def Config.loaded (t : Tree) (p : Path) : Except ConfigFault Config :=
  if t.leads p then Config.load t p else .ok {}

/-- Starting a project takes the defaults, whatever is in the configuration file. -/
theorem configFor_init (home : Path) {line : CommandLine} (hline : line.command = .init)
    (t : Tree) :
    configFor home line t = .ok (Config.anchor t home line.rootPath (Config.update t line {})) := by
  simp [configFor, CommandLine.startsProject, hline, Except.bind, bind]

/-- Any other command takes the settings of the file with its own ones put over them, and verifies
what comes out. -/
theorem configFor_of_ne_init (home : Path) {line : CommandLine} (hline : line.command ≠ .init)
    (t : Tree) :
    configFor home line t =
      match Config.loaded t line.configFile with
      | .error e => .error { cause := .config e }
      | .ok c =>
        match (c.override line.command).verify with
        | .error e => .error { cause := .config (.invalid e) }
        | .ok () => .ok (Config.anchor t home line.rootPath (c.update t line)) := by
  have hstarts : line.startsProject = false := by simpa [CommandLine.startsProject] using hline
  have hverify : ∀ c : Config, (Config.update t line c).verify = (c.override line.command).verify :=
    fun _ => rfl
  unfold CommandLine.configFile Config.loaded
  cases hleads : t.leads (Path.join line.rootPath line.config) with
  | false =>
    simp only [configFor, hleads, hstarts, hverify, Bool.false_eq_true, false_and, if_false,
      not_false_eq_true, if_true, bind, Except.bind]
    cases (Config.override {} line.command).verify <;> rfl
  | true =>
    cases hload : Config.load t (Path.join line.rootPath line.config) with
    | error e => simp [configFor, hleads, hload, hstarts, Except.mapError, bind, Except.bind]
    | ok c =>
      cases hv : (c.override line.command).verify <;>
        simp [configFor, hleads, hload, hstarts, hverify, hv, Except.mapError, bind, Except.bind]

/-! ## What a command changes -/

/-- The trees in which a command may leave a tree, given the configuration. -/
def Command.MayLeave (c : Config) (t t' : Tree) : Command → Prop
  | .init =>
      Written [c.configPath] t t' ∧ ∀ l b, t.get? l = some (.file b) →
        t'.get? l = some (.file b) ∨
          ['.', '.'] ∈ Path.names c.configPath ∧ ¬ t.leads c.configPath ∧
            t'.find c.configPath = .ok l
  | .rebuild _ => Written (c.rebuild.pages.map c.outputOf) t t'
  | .retemplate r =>
      t' = t ∨ ∃ files, t.filesOf r.targets c.fragments = .ok files ∧ Refilled files t t'

theorem Command.MayLeave.extension {command : Command} {c : Config} {t t' : Tree}
    (h : command.MayLeave c t t') : t'.Extends t := by
  cases command with
  | init => exact h.1.extension
  | rebuild r => exact Written.extension h
  | retemplate r =>
    obtain rfl | ⟨files, -, hrefilled⟩ := h
    · exact .refl t'
    · exact hrefilled.extension

theorem tree_initialized (o : Outcome Unit) (p : Path) :
    (o.andThen fun t _ => announce t (.initialized p)).tree = o.tree := by
  cases hr : o.result <;> simp [Outcome.andThen, hr, announce]

/-- A command that gets its configuration leaves a tree in which it may leave it. -/
theorem mayLeave_carryOut {home : Path} {line : CommandLine} {t : Tree} {c : Config}
    (h : configFor home line t = .ok c) :
    line.command.MayLeave c t (carryOut home line t).tree := by
  obtain ⟨root, config, command⟩ := line
  simp only [carryOut, h]
  cases command with
  | init =>
    simp only [tree_initialized]
    exact ⟨written_startProject c.configPath t, fun l b hb => get?_file_startProject hb⟩
  | rebuild r =>
    simp only [tree_finished]
    exact written_rebuildAll c r.check t
  | retemplate r =>
    simp only [tree_finished]
    obtain hsame | ⟨files, hfiles, -, hrefilled⟩ :=
      refilled_retemplateAll .willing c r.targets r.check t
    · exact .inl hsame
    · exact .inr ⟨files, hfiles, hrefilled.mono (List.filter_subset_self files)⟩

theorem tree_carryOut_of_error {home : Path} {line : CommandLine} {t : Tree} {f : Failure}
    (h : configFor home line t = .error f) : (carryOut home line t).tree = t := by
  simp only [carryOut, h]

/-- Nothing is taken away.  A refused command line and a configuration that cannot be had change
nothing, and this is so where a command that needs the configuration file finds one that cannot be
loaded, or settings that break a rule once its own are put over them.  Otherwise the command leaves
the tree as it may leave it. -/
theorem run_footprint (home : Path) (coloured : Bool) (args : List Text) (t : Tree) :
    let t' := (run home coloured args t).tree
    t'.Extends t ∧
      (∀ r, CommandLine.parse args = .error r → t' = t) ∧
      ∀ line, CommandLine.parse args = .ok line →
        (line.command ≠ .init →
          (∀ e, Config.loaded t line.configFile = .error e → t' = t) ∧
            ∀ c e, Config.loaded t line.configFile = .ok c →
              (c.override line.command).verify = .error e → t' = t) ∧
        (∀ f, configFor home line t = .error f → t' = t) ∧
        ∀ c, configFor home line t = .ok c → line.command.MayLeave c t t' := by
  intro t'
  cases hargs : CommandLine.parse args with
  | error r =>
    have ht' : t' = t := by
      simp only [t', run, hargs]
      cases r <;> rfl
    refine ⟨ht' ▸ .refl t, fun _ _ => ht', fun line hline => by cases hline⟩
  | ok line =>
    have ht' : t' = (carryOut home line t).tree := (run_of_parse home coloured t hargs).1
    have hfails : ∀ f, configFor home line t = .error f → t' = t :=
      fun f hf => ht'.trans (tree_carryOut_of_error hf)
    have hdone : ∀ c, configFor home line t = .ok c → line.command.MayLeave c t t' :=
      fun c hc => ht' ▸ mayLeave_carryOut hc
    refine ⟨?_, (fun r hr => by cases hr), fun line' hline' => ?_⟩
    · cases hc : configFor home line t with
      | error f => exact hfails f hc ▸ .refl t
      | ok c => exact (hdone c hc).extension
    · obtain rfl : line = line' := by simpa using hline'
      refine ⟨fun hinit => ?_, hfails, hdone⟩
      have hconfig := configFor_of_ne_init home hinit t
      refine ⟨fun e he => ?_, fun c e hc he => ?_⟩
      · rw [he] at hconfig
        exact hfails _ hconfig
      · simp only [hc, he] at hconfig
        exact hfails _ hconfig

/-- The file holds a section of each name once, but the command line gives one name twice. -/
theorem run_footprint_invalid :
    let t := Tree.ofTexts [("splice.toml", ""), ("f", "F"), ("p", "<!--A-->1<!--/A-->")]
    let args := ["retemplate", "-s", "A=f", "-s", "A=f", "p"].map String.toList
    let finish := run [] false args t
    finish.code = 1 ∧ finish.tree = t := by
  intro t args finish
  let twice : List SectionEntry := [⟨"A".toList, "f".toList⟩, ⟨"A".toList, "f".toList⟩]
  let line : CommandLine :=
    { command := .retemplate { targets := ["p".toList], sections := twice } }
  have hargs : CommandLine.parse args = .ok line := by decide +kernel
  have hloaded : Config.loaded t line.configFile = .ok {} := by decide +kernel
  have hverify : (Config.override {} line.command).verify = .error (.duplicateName "A".toList) := by
    decide +kernel
  have hinit : line.command ≠ .init := by simp [line]
  exact ⟨by decide +kernel,
    (((run_footprint [] false args t).2.2 line hargs).1 hinit).2 _ _ hloaded hverify⟩

/-- The path of the configuration leads nowhere until the directory before the step up is made; then
it leads to a file that was there all along. -/
theorem run_init_overwrites :
    let t := Tree.ofTexts [("x", "mine")]
    let finish := run [] false (["-C", "/new/../x", "init"].map String.toList) t
    t.read "x".toList = .ok (Text.encode "mine".toList) ∧ finish.code = 0 ∧
      finish.tree.read "x".toList ≠ t.read "x".toList := by
  decide +kernel

end PageSplice
