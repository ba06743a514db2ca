import PageSplice.Notice
import PageSplice.Run.Failure

/-!
# Going through files

A batch takes files in order, each on the tree that the one before it left, and stops at the first
that fails.  Main statement: a batch over two lists is the first one and then, if it did not fail,
the second one (`runBatch_append`).
-/

namespace PageSplice

/-- What happened to a file. -/
inductive Status where
  | upToDate
  /-- It would change, but the run only checks. -/
  | stale
  | written
deriving DecidableEq, Repr

/-- The files of a run by what happened to them. -/
structure Report where
  written : List Path := []
  upToDate : List Path := []
  stale : List Path := []
deriving DecidableEq, Repr

def Report.ofList (done : List (Path × Status)) : Report where
  written := (done.filter (·.2 = .written)).map (·.1)
  upToDate := (done.filter (·.2 = .upToDate)).map (·.1)
  stale := (done.filter (·.2 = .stale)).map (·.1)

/-- What a step or a run leaves: the tree, what it reported, and its result or failure. -/
structure Outcome (α : Type) where
  tree : Tree
  notices : List Notice := []
  result : Except Failure α

namespace Outcome

variable {α β : Type}

/-- Goes on after a success, on the tree that is left. -/
def andThen (o : Outcome α) (next : Tree → α → Outcome β) : Outcome β :=
  match o.result with
  | .error f => { tree := o.tree, notices := o.notices, result := .error f }
  | .ok a =>
    let o' := next o.tree a
    { o' with notices := o.notices ++ o'.notices }

def map (g : α → β) (o : Outcome α) : Outcome β :=
  { tree := o.tree, notices := o.notices, result := o.result.map g }

end Outcome

/-- What one file's turn does to a tree. -/
abbrev FileStep := Tree → Path → Outcome (Path × Status)

def runBatch (step : FileStep) (t : Tree) : List Path → Outcome (List (Path × Status))
  | [] => { tree := t, result := .ok [] }
  | p :: ps =>
    (step t p).andThen fun t done => (runBatch step t ps).map (done :: ·)

/-- A way to store a text in a file. -/
abbrev Store := Tree → Path → Text → Tree × Except FileFault Unit

/-- Brings a file to a new content, unless it has that content or the run only checks. -/
def settleFile (store : Store) (job : Job) (check : Bool) (t : Tree) (p : Path)
    (current : Option ByteArray) (generated : Text) : Outcome (Path × Status) :=
  if holdsAlready current generated.encode then
    { tree := t, notices := [.upToDate job p], result := .ok (p, .upToDate) }
  else if check then { tree := t, notices := [.outOfDate p], result := .ok (p, .stale) }
  else
    match store t p generated with
    | (t', .ok ()) => { tree := t', notices := [.writing job p], result := .ok (p, .written) }
    | (t', .error e) =>
      { tree := t', notices := [.writing job p], result := .error { cause := .file e } }

theorem runBatch_append (step : FileStep) (t : Tree) (ps qs : List Path) :
    runBatch step t (ps ++ qs) =
      (runBatch step t ps).andThen fun t' done =>
        (runBatch step t' qs).map (done ++ ·) := by
  induction ps generalizing t with
  | nil =>
    simp only [List.nil_append, runBatch, Outcome.andThen, Outcome.map]
    match runBatch step t qs with
    | ⟨_, _, .error _⟩ => rfl
    | ⟨_, _, .ok _⟩ => rfl
  | cons p ps ih =>
    simp only [List.cons_append, runBatch, ih]
    unfold Outcome.andThen Outcome.map
    cases hr : (step t p).result with
    | error f => rfl
    | ok a =>
      simp only
      cases hr' : (runBatch step (step t p).tree ps).result with
      | error f => simp [Except.map]
      | ok done =>
        simp only [Except.map, List.append_assoc]
        cases (runBatch step (runBatch step (step t p).tree ps).tree qs).result <;> rfl

end PageSplice
