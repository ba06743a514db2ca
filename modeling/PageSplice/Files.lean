import PageSplice.Host
import PageSplice.Tree.Walk

/-!
# Texts in files

Reading and writing pages, and expanding targets into files.  A target that is a directory stands
for the HTML files below it, without those that are excluded; any other target stands for itself.
Files count as the same when their real paths are equal.  All this is done on a host; what is said
of a tree alone is said of it on the host that refuses nothing.
-/

namespace PageSplice

/-- The target whose walk failed, and where and why it did. -/
structure WalkFault extends ListRefusal where
  target : Path
deriving DecidableEq, Repr

/-- The path that is blamed for it. -/
def WalkFault.path (w : WalkFault) : Path := w.place.getD w.target

inductive FileFault where
  | reading (p : Path) (cause : FileError)
  | writing (p : Path) (cause : FileError)
  /-- A directory at or below a target cannot be listed. -/
  | walking (w : WalkFault)
deriving DecidableEq, Repr

def FileFault.message : FileFault → String
  | reading p _ => s!"IO error when reading `{String.ofList p}`"
  | writing p _ => s!"IO error when writing `{String.ofList p}`"
  | walking w => s!"cannot walk `{String.ofList w.path}`"

/-- What lies behind a fault, from the outside in. -/
def FileFault.causes : FileFault → List String
  | reading _ e => [e.message]
  | writing _ e => [e.message]
  | walking w =>
    match w.place with
    | some p => [s!"IO error for operation on {String.ofList p}: {w.cause.message}", w.cause.message]
    | none => [w.cause.message, w.cause.message]

/-- Whether a file, which may be missing, already holds what would be written. -/
def holdsAlready (current : Option ByteArray) (generated : ByteArray) : Bool :=
  current = some generated

namespace Tree

def textAt (t : Tree) (p : Path) : Except FileFault Text :=
  match t.read p with
  | .error e => .error (.reading p e)
  | .ok b =>
    match Text.decode? b with
    | some text => .ok text
    | none => .error (.reading p .notText)

/-- The content of a file that may be missing. -/
def contentAt (t : Tree) (p : Path) : Except FileFault (Option ByteArray) :=
  match t.read p with
  | .ok b => .ok (some b)
  | .error .notFound => .ok none
  | .error e => .error (.reading p e)

/-- Writes a file and makes the directories missing on the way.  They stay if the file itself cannot
be written. -/
def storeText (t : Tree) (p : Path) (text : Text) : Tree × Except FileFault Unit :=
  match t.makeParents p with
  | (t', .error (q, e)) => (t', .error (.writing q e))
  | (t', .ok ()) =>
    match t'.write p text.encode with
    | .ok t'' => (t'', .ok ())
    | .error e => (t', .error (.writing p e))

/-- Writes only the first bytes of a file, if any. -/
def writePart (t : Tree) (p : Path) (b : ByteArray) : Option Nat → Tree
  | none => t
  | some n => (t.write p (b.extract 0 n)).toOption.getD t

end Tree

namespace Host

variable (h : Host) (t : Tree)

def textAt (p : Path) : Except FileFault Text :=
  match h.unreadable p with
  | some e => .error (.reading p e)
  | none => t.textAt p

/-- Writes a file like `Tree.storeText`, as far as the system does. -/
def storeText (p : Path) (text : Text) : Tree × Except FileFault Unit :=
  match h.unwritten t p text.encode with
  | none => t.storeText p text
  | some r =>
    match t.makeParents p with
    | (t', .error (q, e)) => (t', .error (.writing q e))
    | (t', .ok ()) => (t'.writePart p text.encode r.taken, .error (.writing p r.cause))

/-! ## Targets -/

/-- Whether two paths mean the same file, as far as their real paths tell. -/
def sameFile (p q : Path) : Bool :=
  Path.components (h.realOrSame t p) == Path.components (h.realOrSame t q)

/-- The HTML files among some entries below a path, as paths.  The walk fails at a directory that
cannot be listed. -/
def htmlAmong (p : Path) : List (Location × Entry) → Except ListRefusal (List Path)
  | [] => .ok []
  | (ns, e) :: rest =>
    match e with
    | .dir =>
      match h.listRefusal (Tree.under p ns) with
      | some r => .error r
      | none => htmlAmong p rest
    | .file _ =>
      if Path.namesHtml (ns.getLastD []) then (htmlAmong p rest).map (Tree.under p ns :: ·)
      else htmlAmong p rest
    | .link _ => htmlAmong p rest

/-- The HTML files below a directory to which a path leads.  The first one to be listed is the
directory itself. -/
def htmlFiles (p : Path) (d : Location) : Except ListRefusal (List Path) :=
  h.htmlAmong p (([], .dir) :: t.below d)

/-- The files for which a target stands. -/
def filesOfTarget (exclude : List Path) (target : Path) : Except FileFault (List Path) :=
  match h.directory? t target with
  | none => .ok [target]
  | some d =>
    match h.htmlFiles t target d with
    | .error r => .error (.walking { r with target })
    | .ok files => .ok (files.filter fun p => !exclude.any (h.sameFile t p))

def filesOf (targets exclude : List Path) : Except FileFault (List Path) :=
  (targets.mapM (h.filesOfTarget t exclude)).map List.flatten

end Host

abbrev Tree.filesOf (t : Tree) (targets exclude : List Path) : Except FileFault (List Path) :=
  Host.willing.filesOf t targets exclude

end PageSplice
