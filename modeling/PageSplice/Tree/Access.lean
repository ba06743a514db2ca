import PageSplice.Tree.Lookup

/-!
# Reading and changing a tree by path

Reading, writing and making directories, each given a path.  Writing creates the file if its name is
free and otherwise gives the old file new content; making a directory needs a free name.  Main
statement: writing changes one location, and all else stays (`write_cases`).
-/

namespace PageSplice.Tree

/-- Where the file or directory stands to which a path leads. -/
def find (t : Tree) (p : Path) : Except FileError Location :=
  match t.lookup .reach p with
  | .ok (.found l) => .ok l
  | .ok (.free ..) => .error .notFound
  | .error e => .error e

/-- Whether a path leads to something. -/
def leads (t : Tree) (p : Path) : Bool := (t.find p).isOk

/-- The directory to which a path leads.  It need not stand any more. -/
def directory? (t : Tree) (p : Path) : Option Location :=
  match t.find p with
  | .error _ => none
  | .ok l =>
    match t.get? l with
    | some (.file _) => none
    | _ => some l

def isDir (t : Tree) (p : Path) : Bool := (t.directory? p).isSome

def read (t : Tree) (p : Path) : Except FileError ByteArray :=
  match t.find p with
  | .error e => .error e
  | .ok l =>
    match t.get? l with
    | some (.file b) => .ok b
    | _ => .error .isDirectory

def write (t : Tree) (p : Path) (b : ByteArray) : Except FileError Tree :=
  match t.lookup .create p with
  | .error e => .error e
  | .ok (.free d n) => .ok (t.put d n (.file b))
  | .ok (.found l) =>
    match t.get? l with
    | some (.file _) => .ok (t.put (above l) (l.getLastD []) (.file b))
    | _ => .error .isDirectory

/-! ## New names -/

/-- The directory in which a path's last name stands, and that name.  No link of that name is
followed.  A path that ends in a dot or two names what exists. -/
def spot (t : Tree) (p : Path) : Except FileError (Location × Text) :=
  if '\x00' ∈ p then .error .nulInPath
  else if p = [] then .error .notFound
  else if pathLimit ≤ Text.byteLength p then .error .nameTooLong
  else
    let ss := (Path.steps p).filter (· ≠ [])
    match ss.getLast? with
    | none => .error .alreadyExists
    | some n =>
      match t.follow .reach maxLinks (origin t.here p) (ss.dropLast ++ [[]]) with
      | .error e => .error e
      | .ok (.free ..) => .error .notFound
      | .ok (.found d) =>
        if n = ['.'] ∨ n = ['.', '.'] then .error .alreadyExists
        else if t.get? d ≠ some .dir then .error .notFound
        else if maxNameLength < Text.byteLength n then .error .nameTooLong
        else .ok (d, n)

/-- A tree with a new entry where none was. -/
def make (t : Tree) (p : Path) (e : Entry) : Except FileError Tree :=
  match t.spot p with
  | .error e => .error e
  | .ok (d, n) => if t.get? (d ++ [n]) = none then .ok (t.put d n e) else .error .alreadyExists

def makeDir (t : Tree) (p : Path) : Except FileError Tree := t.make p .dir

/-- Makes the first of some paths into a directory, and if one on the way to it is missing, the
next ones before it.  The empty path counts as the working directory.  Directories made before an
error stay. -/
def makeFirst (t : Tree) : List Path → Tree × Except FileError Unit
  | [] => (t, .ok ())
  | p :: ps =>
    if p = [] then (t, .ok ())
    else match t.makeDir p with
      | .ok t' => (t', .ok ())
      | .error .notFound =>
        match makeFirst t ps with
        | (t', .error e) => (t', .error e)
        | (t', .ok ()) =>
          match t'.makeDir p with
          | .ok t'' => (t'', .ok ())
          | .error e => if t'.isDir p then (t', .ok ()) else (t', .error e)
      | .error e => if t.isDir p then (t, .ok ()) else (t, .error e)

/-- A directory with all that is missing on the way to it. -/
def makeDirs (t : Tree) (p : Path) : Tree × Except FileError Unit := t.makeFirst (Path.ancestors p)

/-- The tree with the directories made in which a path's last name is to stand.  An error comes with
the directory that was to be made. -/
def makeParents (t : Tree) (p : Path) : Tree × Except (Path × FileError) Unit :=
  match Path.parent? p with
  | none => (t, .ok ())
  | some q =>
    match t.makeDirs q with
    | (t', .ok ()) => (t', .ok ())
    | (t', .error e) => (t', .error (q, e))

/-! ## Real paths -/

/-- The absolute path without links and dots to which a path leads.  A relative path has none once
the working directory was removed. -/
def realPath (t : Tree) (p : Path) : Except FileError Path :=
  if ¬ Path.isAbsolute p ∧ ¬ t.hereStands then .error .notFound
  else match t.lookup .canonicalize p with
    | .ok (.found l) => .ok (Location.path l)
    | .ok (.free ..) => .error .notFound
    | .error e => .error e

/-- The real path, or the path as it is where it leads nowhere. -/
def realOrSame (t : Tree) (p : Path) : Path :=
  match t.realPath p with
  | .ok q => q
  | .error _ => p

/-- The real path, or where the path leads nowhere the path behind the working directory, if this
still stands. -/
def realOrAbsolute (t : Tree) (p : Path) : Path :=
  match t.realPath p with
  | .ok q => q
  | .error _ => if t.hereStands then Path.join (Location.path t.here) p else p

/-! ## What was written is there -/

theorem accepts_free {t : Tree} {p : Path} {d : Location} {n : Text} {b : ByteArray}
    (h : t.lookup .create p = .ok (.free d n)) : t.Accepts d n (.file b) := by
  obtain ⟨hd, hnone, hn⟩ := get?_of_lookup_free h
  exact ⟨hd, hn, trivial, fun h => by rw [hnone] at h; cases h⟩

theorem accepts_file {t : Tree} {l : Location} {b c : ByteArray} (h : t.get? l = some (.file b)) :
    t.Accepts (above l) (l.getLastD []) (.file c) ∧ above l ++ [l.getLastD []] = l := by
  have hl : l ≠ [] := by rintro rfl; cases h
  obtain ⟨d, n, rfl, hn, hd⟩ := exists_of_get? hl h
  simp only [above, List.dropLast_concat, List.getLastD_concat, and_true]
  exact ⟨hd, hn, trivial, fun h' => by rw [h] at h'; cases h'⟩

/-- Writing changes one location, at which no directory or link stood. -/
theorem write_cases {t t' : Tree} {p : Path} {b : ByteArray} (h : t.write p b = .ok t') :
    ∃ l, (t.lookup .create p = .ok (.found l) ∧ (∃ c, t.get? l = some (.file c)) ∨
        ∃ d n, l = d ++ [n] ∧ t.lookup .create p = .ok (.free d n) ∧ t.get? l = none) ∧
      t'.here = t.here ∧ ∀ k, t'.get? k = if k = l then some (.file b) else t.get? k := by
  unfold write at h
  split at h
  · cases h
  · next d n hl =>
    cases h
    exact ⟨d ++ [n], .inr ⟨d, n, rfl, hl, (get?_of_lookup_free hl).2.1⟩, here_put .., fun k =>
      get?_put (accepts_free hl) k⟩
  · next l hl =>
    split at h
    · next c hc =>
      cases h
      obtain ⟨ha, heq⟩ := accepts_file (c := b) hc
      exact ⟨l, .inl ⟨hl, c, hc⟩, here_put .., fun k => by rw [get?_put ha, heq]⟩
    · cases h

end PageSplice.Tree
