import PageSplice.Tree.Access

/-!
# What the system refuses

A tree tells what stands where.  What a program is allowed to do there is another matter: the system
may refuse to look behind a directory, to read or list what stands there, or to write to it, and it
may run out of space in the middle of a file.  No run changes a permission, so all but writing
depends on the path alone.
-/

namespace PageSplice

/-- A directory that cannot be listed.  The system names the place where this came up, unless it was
between two entries. -/
structure ListRefusal where
  place : Option Path
  cause : FileError
deriving DecidableEq, Repr

/-- A file that cannot be written.  Either it was not even opened, or it was emptied and took so many
bytes before the error. -/
structure WriteRefusal where
  cause : FileError
  taken : Option Nat := none
deriving DecidableEq, Repr

/-- What the file holds then that held other bytes before. -/
def WriteRefusal.left (r : WriteRefusal) (old new : ByteArray) : ByteArray :=
  match r.taken with
  | none => old
  | some n => new.extract 0 n

/-- A system, by what it refuses to do with a path though the tree may allow it. -/
structure Host where
  /-- To tell what stands there. -/
  unseen : Path → Option FileError := fun _ => none
  /-- To tell the real path. -/
  unresolved : Path → Option FileError := fun _ => none
  unreadable : Path → Option FileError := fun _ => none
  unlisted : Path → Option ListRefusal := fun _ => none
  unwritten : Tree → Path → ByteArray → Option WriteRefusal := fun _ _ _ => none

instance decidableExistsOk {ε α : Type} (x : Except ε α) : Decidable (∃ a, x = .ok a) :=
  match x with
  | .ok a => .isTrue ⟨a, rfl⟩
  | .error _ => .isFalse (by simp)

namespace Host

/-- The system that refuses nothing. -/
def willing : Host := {}

variable (h : Host) (t : Tree)

/-- The directory to which a path leads, if it can be told. -/
def directory? (p : Path) : Option Location :=
  match h.unseen p with
  | some _ => none
  | none => t.directory? p

def isDir (p : Path) : Bool := (h.directory? t p).isSome

/-- Whether a path leads to a file that can be read. -/
def CanRead (p : Path) : Prop := h.unreadable p = none ∧ ∃ b, t.read p = .ok b

/-- Whether the real path of a path can be told. -/
def Resolves (p : Path) : Prop := h.unresolved p = none ∧ ∃ q, t.realPath p = .ok q

instance (p : Path) : Decidable (h.CanRead t p) := by unfold CanRead; infer_instance

instance (p : Path) : Decidable (h.Resolves t p) := by unfold Resolves; infer_instance

/-- The real path, or the path as it is where it has none or this cannot be told. -/
def realOrSame (p : Path) : Path :=
  match h.unresolved p with
  | some _ => p
  | none => t.realOrSame p

/-- Why a directory cannot be listed by a path: it is too long, or the system refuses. -/
def listRefusal (p : Path) : Option ListRefusal :=
  if pathLimit ≤ Text.byteLength p then some { place := p, cause := .nameTooLong }
  else h.unlisted p

end Host

end PageSplice
