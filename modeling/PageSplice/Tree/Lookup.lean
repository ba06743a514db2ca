import PageSplice.Tree.Basic

/-!
# Looking up a path

A look-up starts at the root or in the working directory and takes the steps of the path one after
the other.  A link on the way is replaced by its target, at most `maxLinks` times.  The look-up
ends at a file or a directory, or at a name that is free in an existing directory, or in an error.
A directory that was removed holds no names, but the way up from it is open.
Main statements: what is found stands there (`get?_of_lookup_found`), and a free name is free
(`get?_of_lookup_free`).
-/

namespace PageSplice

inductive FileError where
  | notFound
  | alreadyExists
  | notDirectory
  | isDirectory
  | nameTooLong
  | tooManyLinks
  | notText
  | nulInPath
  /-- The system refuses, for a reason of which the tree tells nothing. -/
  | refused (code : Nat) (reason : String)
deriving DecidableEq, Repr

def FileError.message : FileError → String
  | notFound => "No such file or directory (os error 2)"
  | alreadyExists => "File exists (os error 17)"
  | notDirectory => "Not a directory (os error 20)"
  | isDirectory => "Is a directory (os error 21)"
  | nameTooLong => "File name too long (os error 36)"
  | tooManyLinks => "Too many levels of symbolic links (os error 40)"
  | notText => "stream did not contain valid UTF-8"
  | nulInPath => "file name contained an unexpected NUL byte"
  | refused code reason => s!"{reason} (os error {code})"

def maxLinks : Nat := 40

/-- What a look-up is for. -/
inductive Purpose where
  /-- To reach what exists. -/
  | reach
  /-- To write a file, which may be missing; a path that ends in a slash names no file. -/
  | create
  /-- To learn the real path.  The limit on lengths holds for the real path of every step, with a
  slash behind it where the steps that follow ask for a directory. -/
  | canonicalize
deriving DecidableEq

/-- Where the steps of a path lead before a link has to be followed. -/
inductive Progress where
  | found (l : Location)
  | free (d : Location) (n : Text)
  | atLink (d : Location) (target : Path) (rest : List Text)
  | failed (e : FileError)

/-- Where a look-up ends. -/
inductive Place where
  | found (l : Location)
  | free (d : Location) (n : Text)
deriving DecidableEq, Repr

namespace Tree

/-- The location above; the root is above itself. -/
def above (d : Location) : Location := d.dropLast

/-- Whether steps ask that a directory stands where they start: with a final slash or dot, or with a
step up. -/
def asksForDirectory (ss : List Text) : Bool :=
  match ss.dropWhile Path.isFiller with
  | [] => ss ≠ []
  | s :: _ => s = ['.', '.']

/-- Takes steps from a directory until they are done or meet a link. -/
def advance (t : Tree) (why : Purpose) : Location → List Text → Progress
  | d, [] => .found d
  | d, s :: rest =>
    if Path.isFiller s then advance t why d rest
    else if s = ['.', '.'] then advance t why (above d) rest
    else if why = .create ∧ rest = [[]] then .failed .isDirectory
    else if t.get? d ≠ some .dir then .failed .notFound
    else if maxNameLength < Text.byteLength s then .failed .nameTooLong
    else if why = .canonicalize ∧ pathLimit ≤ Text.byteLength (Location.path (d ++ [s])) then
      .failed .nameTooLong
    else match t.get? (d ++ [s]) with
      | none => if rest = [] then .free d s else .failed .notFound
      | some (.file _) => if rest = [] then .found (d ++ [s]) else .failed .notDirectory
      | some .dir =>
        if why = .canonicalize ∧ asksForDirectory rest ∧
            pathLimit ≤ Text.byteLength (Location.path (d ++ [s])) + 1 then .failed .nameTooLong
        else advance t why (d ++ [s]) rest
      | some (.link target) => .atLink d target rest

/-- The directory where a path starts. -/
def origin (here : Location) (p : Path) : Location := if Path.isAbsolute p then [] else here

/-- Takes steps from a directory and follows up to a number of links. -/
def follow (t : Tree) (why : Purpose) : Nat → Location → List Text → Except FileError Place
  | 0, d, ss =>
    match t.advance why d ss with
    | .found l => .ok (.found l)
    | .free d n => .ok (.free d n)
    | .failed e => .error e
    | .atLink .. => .error .tooManyLinks
  | k + 1, d, ss =>
    match t.advance why d ss with
    | .found l => .ok (.found l)
    | .free d n => .ok (.free d n)
    | .failed e => .error e
    | .atLink d target rest => follow t why k (origin d target) (Path.steps target ++ rest)

def lookup (t : Tree) (why : Purpose) (p : Path) : Except FileError Place :=
  if '\x00' ∈ p then .error .nulInPath
  else if p = [] then .error .notFound
  else if why ≠ .canonicalize ∧ pathLimit ≤ Text.byteLength p then .error .nameTooLong
  else t.follow why maxLinks (origin t.here p) (Path.steps p)

/-! ## What a look-up finds -/

theorem IsOpen.above {t : Tree} {d : Location} (h : t.IsOpen d) : t.IsOpen (above d) := by
  obtain ⟨a, k, rfl, ha⟩ := h
  cases k with
  | zero =>
    exact isOpen_of_get? (get?_ancestor (List.dropLast_prefix _) (by simpa using ha))
  | succ k => exact ⟨a, k, by simp [Tree.above, List.replicate_succ'], ha⟩

theorem IsOpen.origin {t : Tree} {d : Location} (h : t.IsOpen d) (p : Path) :
    t.IsOpen (origin d p) := by
  unfold Tree.origin; split
  · exact isOpen_of_get? t.get?_nil
  · exact h

/-- What is true in a tree where steps have led: a file stands there or a directory is open, a name
from among the steps is free in a directory, or a link stands in one. -/
def Reached (t : Tree) (ss : List Text) : Progress → Prop
  | .found l => t.IsOpen l ∨ ∃ b, t.get? l = some (.file b)
  | .free d n => t.get? d = some .dir ∧ t.get? (d ++ [n]) = none ∧ n ∈ ss ∧
      Path.isFiller n = false ∧ n ≠ ['.', '.'] ∧ Text.byteLength n ≤ maxNameLength
  | .atLink d target rest =>
      t.get? d = some .dir ∧ (∃ n, t.get? (d ++ [n]) = some (.link target)) ∧ ∀ s ∈ rest, s ∈ ss
  | .failed _ => True

theorem Reached.cons {t : Tree} {s : Text} {ss : List Text} {g : Progress} (h : t.Reached ss g) :
    t.Reached (s :: ss) g := by
  cases g with
  | found => exact h
  | free => exact ⟨h.1, h.2.1, List.mem_cons_of_mem _ h.2.2.1, h.2.2.2⟩
  | atLink => exact ⟨h.1, h.2.1, fun x hx => List.mem_cons_of_mem _ (h.2.2 x hx)⟩
  | failed => trivial

theorem reached_advance {t : Tree} {why : Purpose} {d : Location} {ss : List Text}
    (hd : t.IsOpen d) : t.Reached ss (t.advance why d ss) := by
  induction ss generalizing d with
  | nil => exact .inl hd
  | cons s rest ih =>
    unfold advance
    split
    · exact (ih hd).cons
    · next hfill =>
      split
      · exact (ih hd.above).cons
      · next hup =>
        split
        · trivial
        · split
          · trivial
          · next hdir =>
            have hd := Decidable.of_not_not hdir
            split
            · trivial
            · next hlen =>
              split
              · trivial
              · split
                · next hnone =>
                  split
                  · exact ⟨hd, hnone, List.mem_cons_self .., by simpa using hfill, hup,
                      Nat.le_of_not_lt hlen⟩
                  · trivial
                · next b hb =>
                  split
                  · exact .inr ⟨b, hb⟩
                  · trivial
                · next hdir =>
                  split
                  · trivial
                  · exact (ih (isOpen_of_get? hdir)).cons
                · next target hl => exact ⟨hd, ⟨s, hl⟩, fun x hx => List.mem_cons_of_mem _ hx⟩

/-- The steps of an acceptable path: no name in them holds a slash or a NUL. -/
def AreSteps (ss : List Text) : Prop := ∀ s ∈ ss, '/' ∉ s ∧ '\x00' ∉ s

theorem areSteps_steps {p : Path} (h : '\x00' ∉ p) : AreSteps (Path.steps p) := fun _ hs =>
  have hs := Path.mem_segments_of_mem_steps hs
  ⟨Path.not_mem_of_mem_segments hs, fun h0 => h (Path.mem_of_mem_segments hs h0)⟩

/-- What is true in a tree where a look-up ends. -/
def Ends (t : Tree) : Except FileError Place → Prop
  | .ok (.found l) => t.IsOpen l ∨ ∃ b, t.get? l = some (.file b)
  | .ok (.free d n) => t.get? d = some .dir ∧ t.get? (d ++ [n]) = none ∧ IsFileName n
  | .error _ => True

theorem Reached.ends_free {t : Tree} {ss : List Text} {d : Location} {n : Text}
    (h : t.Reached ss (.free d n)) (hss : AreSteps ss) : t.Ends (.ok (.free d n)) := by
  obtain ⟨hd, hnone, hmem, hfill, hup, hlen⟩ := h
  have hf : n ≠ [] ∧ n ≠ ['.'] := by simpa [Path.isFiller] using hfill
  exact ⟨hd, hnone, hf.1, hf.2, hup, (hss n hmem).1, (hss n hmem).2, hlen⟩

theorem ends_follow {t : Tree} {why : Purpose} {k : Nat} {d : Location} {ss : List Text}
    (hd : t.IsOpen d) (hss : AreSteps ss) : t.Ends (t.follow why k d ss) := by
  induction k generalizing d ss with
  | zero =>
    have h : t.Reached ss (t.advance why d ss) := reached_advance hd
    unfold follow
    split
    · next hg => rw [hg] at h; exact h
    · next hg => exact (hg ▸ h).ends_free hss
    · trivial
    · trivial
  | succ k ih =>
    have h : t.Reached ss (t.advance why d ss) := reached_advance hd
    unfold follow
    split
    · next hg => rw [hg] at h; exact h
    · next hg => exact (hg ▸ h).ends_free hss
    · trivial
    · next d' target rest hg =>
      rw [hg] at h
      obtain ⟨hd', ⟨n, hn⟩, hrest⟩ := h
      refine ih ((isOpen_of_get? hd').origin _) fun s hs => ?_
      rcases List.mem_append.1 hs with hs | hs
      · exact areSteps_steps (isProper_of_get? hn).2.1 s hs
      · exact hss s (hrest s hs)

theorem ends_lookup (t : Tree) (why : Purpose) (p : Path) : t.Ends (t.lookup why p) := by
  unfold lookup
  split
  · trivial
  · next hnul =>
    split
    · trivial
    · split
      · trivial
      · exact ends_follow (t.isOpen_here.origin p) (areSteps_steps hnul)

theorem get?_of_lookup_found {t : Tree} {why : Purpose} {p : Path} {l : Location}
    (h : t.lookup why p = .ok (.found l)) :
    t.IsOpen l ∨ ∃ b, t.get? l = some (.file b) :=
  show t.Ends (.ok (.found l)) from h ▸ t.ends_lookup why p

theorem get?_of_lookup_free {t : Tree} {why : Purpose} {p : Path} {d : Location} {n : Text}
    (h : t.lookup why p = .ok (.free d n)) :
    t.get? d = some .dir ∧ t.get? (d ++ [n]) = none ∧ IsFileName n :=
  show t.Ends (.ok (.free d n)) from h ▸ t.ends_lookup why p

end Tree

end PageSplice
