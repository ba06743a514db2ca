import PageSplice.CommandLine.Scan
import PageSplice.Run.Init
import PageSplice.Run.Rebuild
import PageSplice.Run.Retemplate

/-!
# The program

A command line is parsed, the configuration read, overridden, verified and anchored, and the command
carried out.  What a run prints follows from its notices and its failure.  Help and usage texts, with
which other command lines are answered, belong to the library that reads these and are left out: the
streams are empty then.
-/

namespace PageSplice

/-- The configuration for a command line, with the settings of the file if there is one.  Starting a
project neither reads the file nor checks it. -/
def configFor (home : Path) (line : CommandLine) (t : Tree) : Except Failure Config := do
  let p := Path.join line.rootPath line.config
  let c ←
    if t.leads p ∧ ¬ line.startsProject then
      (Config.load t p).mapError fun e => { cause := .config e : Failure }
    else .ok {}
  let c := c.update t line
  if ¬ line.startsProject then
    c.verify.mapError fun e => { cause := .config (.invalid e) : Failure }
  .ok (Config.anchor t home line.rootPath c)

/-- A check that finds stale files fails. -/
def refuseStale (t : Tree) (r : Report) : Outcome Unit :=
  { tree := t
    result :=
      if r.stale = [] then .ok () else .error { cause := .outOfDate r.stale.length } }

def announce (t : Tree) (n : Notice) : Outcome Unit :=
  { tree := t, notices := [n], result := .ok () }

def finishReport (job : Job) (t : Tree) (r : Report) : Outcome Unit :=
  (announce t (.done job r.written.length r.upToDate.length)).andThen fun t _ => refuseStale t r

def carryOut (home : Path) (line : CommandLine) (t : Tree) : Outcome Unit :=
  match configFor home line t with
  | .error f => { tree := t, result := .error f }
  | .ok c =>
    match line.command with
    | .init =>
      (startProject c.configPath t).andThen fun t _ => announce t (.initialized c.configPath)
    | .rebuild r => (rebuildAll c r.check t).andThen (finishReport .rebuild)
    | .retemplate r =>
      (retemplateAll c r.targets r.check t).andThen (finishReport .retemplate)

/-- The paths a command may look at or write. -/
def Config.reach (c : Config) : Command → List Path
  | .init => [c.configPath]
  | .rebuild _ =>
    c.rebuild.template :: c.rebuild.pages.flatMap fun p => [c.sourceOf p, c.outputOf p]
  | .retemplate r => c.fragments ++ r.targets

/-! ## Output -/

/-- What a run of the program leaves behind. -/
structure Finish where
  tree : Tree
  code : Nat
  output : Text
  errors : Text

/-- What is new in the tree or has a new content; a directory comes before what stands in it. -/
def Finish.changed (f : Finish) (start : Tree) : List (Location × Entry) :=
  f.tree.entries.filter fun (l, e) => start.get? l ≠ some e

/-- The lines that go to one of the two streams. -/
def printed (coloured toErrors : Bool) (notices : List Notice) : Text :=
  ((notices.map Notice.line).filter (·.isAlarm = toErrors)).flatMap (·.text coloured)

def versionText : Text := "splicer 0.1.0\n".toList

/-- Asking for help or the version succeeds; any other refusal is a misuse. -/
def refused (t : Tree) : Refusal → Finish
  | .helpAsked => ⟨t, 0, [], []⟩
  | .versionAsked => ⟨t, 0, versionText, []⟩
  | _ => ⟨t, 2, [], []⟩

/-- A setting that forces colours wins, and then one that forbids them; else a terminal shows them
unless they are switched off. -/
def wantsColour (force forbid allow : Option String) (terminal : Bool) : Bool :=
  force.any (· ≠ "0") || forbid.isNone && allow ≠ some "0" && terminal

def run (home : Path) (coloured : Bool) (args : List Text) (t : Tree) : Finish :=
  match CommandLine.parse args with
  | .error r => refused t r
  | .ok line =>
    let o := carryOut home line t
    let (code, failure) := match o.result with
      | .ok () => (0, [])
      | .error f => (1, f.text)
    { tree := o.tree
      code
      output := printed coloured false o.notices
      errors := printed coloured true o.notices ++ failure }

end PageSplice
