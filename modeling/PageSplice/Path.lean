import PageSplice.Text

/-!
# Paths

A path is a text and is never simplified.  A system takes any bytes for a path; only paths that are
UTF-8 are described here, and all names, links and directories of a tree are such texts.  `join` puts
one path behind another, `parent?` cuts the last name off, `components` is what two spellings of a
path have in common, and `steps` is how a look-up walks it.  Main statement: a parent is shorter than
the path (`length_of_parent?`), so the `ancestors` of a path are finitely many.
-/

namespace PageSplice

abbrev Path := Text

namespace Path

/-- The texts between the slashes. -/
def segments (p : Path) : List Text := p.splitOn '/'

theorem segments_ne_nil (p : Path) : segments p ≠ [] := List.splitOn_ne_nil '/' p

theorem intercalate_segments (p : Path) : ['/'].intercalate (segments p) = p :=
  List.intercalate_splitOn '/'

theorem not_mem_of_mem_segments {p s : Text} (h : s ∈ segments p) : '/' ∉ s := by
  unfold segments at h
  induction p generalizing s with
  | nil => simp_all
  | cons c p ih =>
    rw [List.splitOn_cons_eq_if_modifyHead] at h
    split at h
    · rcases List.mem_cons.1 h with rfl | h
      · simp
      · exact ih h
    · next hc =>
      match hs : List.splitOn '/' p with
      | [] => exact absurd hs (List.splitOn_ne_nil _ _)
      | x :: xs =>
        rw [hs] at h ih
        rcases List.mem_cons.1 h with rfl | h
        · have hx := ih (List.mem_cons_self ..)
          rw [List.mem_cons, not_or]
          exact ⟨fun hc' => hc (by simp [← hc']), hx⟩
        · exact ih (List.mem_cons_of_mem _ h)

theorem mem_of_mem_segments {p s : Text} (h : s ∈ segments p) {c : Char} (hc : c ∈ s) :
    c ∈ p := by
  unfold segments at h
  induction p generalizing s with
  | nil => simp_all
  | cons d p ih =>
    rw [List.splitOn_cons_eq_if_modifyHead] at h
    split at h
    · rcases List.mem_cons.1 h with rfl | h
      · simp at hc
      · exact List.mem_cons_of_mem _ (ih h hc)
    · match hs : List.splitOn '/' p with
      | [] => exact absurd hs (List.splitOn_ne_nil _ _)
      | x :: xs =>
        rw [hs] at h ih
        rcases List.mem_cons.1 h with rfl | h
        · rcases List.mem_cons.1 hc with rfl | hc
          · simp
          · exact List.mem_cons_of_mem _ (ih (List.mem_cons_self ..) hc)
        · exact List.mem_cons_of_mem _ (ih (List.mem_cons_of_mem _ h) hc)

def isAbsolute (p : Path) : Bool := p.head? == some '/'

/-- An absolute path stands for itself.  Joining the empty path leaves a trailing slash. -/
def join (base p : Path) : Path :=
  if isAbsolute p then p
  else if base = [] ∨ base.getLast? = some '/' then base ++ p
  else base ++ '/' :: p

/-- A segment that names nothing: it comes from a doubled or final slash, or is a dot. -/
def isFiller (s : Text) : Bool := s == [] || s == ['.']

def dropFinalFillers (ss : List Text) : List Text := (ss.reverse.dropWhile isFiller).reverse

def ofSegments : List Text → Path
  | [[]] => ['/']
  | ss => ['/'].intercalate ss

/-- The path without its last name, in the spelling it has; the root and the empty path have no
parent. -/
def parent? (p : Path) : Option Path :=
  match segments p with
  | [] => none
  | first :: rest =>
    match dropFinalFillers rest with
    | [] => if first = [] then none else some []
    | names => some (ofSegments (first :: dropFinalFillers names.dropLast))

/-- Two paths with the same components are equal, whatever slashes and inner dots they hold. -/
def components (p : Path) : List Text :=
  match segments p with
  | [] => []
  | first :: rest =>
    (if first = [] then (if rest = [] then [] else [['/']]) else [first]) ++
      rest.filter (!isFiller ·)

/-- What a look-up does one after the other.  A final slash leaves a last, empty step. -/
def steps (p : Path) : List Text :=
  (segments p).dropLast.filter (· ≠ []) ++ (segments p).getLast?.toList

theorem mem_segments_of_mem_steps {p s : Text} (h : s ∈ steps p) : s ∈ segments p := by
  rcases List.mem_append.1 h with h | h
  · exact List.dropLast_subset _ (List.mem_filter.1 h).1
  · exact List.mem_of_getLast? (by simpa using h)

/-- A leading `~`, alone or before a slash, stands for the home directory. -/
def expandHome (home : Path) : Path → Path
  | '~' :: rest => if rest = [] ∨ isAbsolute rest then home ++ rest else '~' :: rest
  | p => p

/-- What follows the last dot of a file name, unless nothing stands before that dot. -/
def extension? (name : Text) : Option Text :=
  if '.' ∈ name ∧ (name.reverse.dropWhile (· ≠ '.')).length ≠ 1 then
    some (name.reverse.takeWhile (· ≠ '.')).reverse
  else none

def namesHtml (name : Text) : Bool :=
  match extension? name with
  | some e => Text.lower e == "html".toList || Text.lower e == "htm".toList
  | none => false

/-! ## Ancestors -/

theorem length_intercalate (sep : Char) (ss : List Text) :
    ([sep].intercalate ss).length = ss.flatten.length + (ss.length - 1) := by
  match ss with
  | [] => rfl
  | [s] => simp
  | s :: s' :: ss =>
    have ih := length_intercalate sep (s' :: ss)
    simp only [List.intercalate_cons_cons, List.length_append, List.length_cons, List.length_nil,
      List.flatten_cons] at ih ⊢
    omega

theorem dropFinalFillers_isPrefix (ss : List Text) : dropFinalFillers ss <+: ss := by
  have h := List.dropWhile_suffix (l := ss.reverse) isFiller
  rw [← List.reverse_prefix] at h
  simpa [dropFinalFillers] using h

theorem length_of_parent? {p q : Path} (h : parent? p = some q) : q.length < p.length := by
  have hp := intercalate_segments p
  unfold parent? at h
  match hs : segments p with
  | [] => rw [hs] at h; simp at h
  | first :: rest =>
    rw [hs] at h hp
    have hlen : p.length = first.length + rest.flatten.length + rest.length := by
      rw [← hp, length_intercalate]; simp
    match hn : dropFinalFillers rest with
    | [] =>
      simp only [hn] at h
      split at h
      · cases h
      · next hf =>
        cases h
        have := List.length_pos_iff.2 hf
        simp only [List.length_nil]
        omega
    | n :: ns =>
      simp only [hn] at h
      cases h
      obtain ⟨m, hm⟩ := dropFinalFillers_isPrefix rest
      obtain ⟨k, hk⟩ := dropFinalFillers_isPrefix (n :: ns).dropLast
      have hsplit : (n :: ns).dropLast ++ [(n :: ns).getLast (by simp)] = n :: ns :=
        List.dropLast_concat_getLast _
      generalize hkeep : dropFinalFillers (n :: ns).dropLast = keep at *
      generalize hlast : (n :: ns).getLast (by simp) = last at *
      have hlastName : isFiller last = false := by
        have hrev : (rest.reverse.dropWhile isFiller) = (n :: ns).reverse := by
          rw [← hn]; simp [dropFinalFillers]
        have hhead := List.head?_dropWhile_not isFiller rest.reverse
        rw [hrev, List.head?_reverse, List.getLast?_eq_some_getLast (by simp), hlast] at hhead
        simpa using hhead
      have hpos : 0 < last.length := by
        apply List.length_pos_iff.2
        rintro rfl
        simp [isFiller] at hlastName
      have hrest : rest = keep ++ k ++ [last] ++ m := by
        rw [← hm, hn, ← hsplit, ← hk]
      have hq : (ofSegments (first :: keep)).length ≤
          first.length + keep.flatten.length + keep.length + 1 := by
        unfold ofSegments
        split
        · simp
        · rw [length_intercalate]; simp
      have hroot : (ofSegments (first :: keep)).length <
          first.length + keep.flatten.length + keep.length + 1 ∨
          (first = [] ∧ keep = []) := by
        unfold ofSegments
        split
        · next h => right; simpa using h
        · left; rw [length_intercalate]; simp
      rw [hlen, hrest]
      simp only [List.flatten_append, List.length_append, List.flatten_cons, List.flatten_nil,
        List.length_cons, List.length_nil]
      omega

/-- The path and what remains as one name after the other is cut off, longest first. -/
def ancestors (p : Path) : List Path :=
  match h : parent? p with
  | none => [p]
  | some q =>
    have := length_of_parent? h
    p :: ancestors q
termination_by p.length

example : parent? "./a//b/.".toList = some "./a".toList := by decide
example : parent? "/a".toList = some "/".toList := by decide
example : parent? "//".toList = none := by decide
example : parent? "a/..".toList = some "a".toList := by decide
example : steps "/a//./b/".toList = ["a".toList, ".".toList, "b".toList, []] := by decide
example : extension? ".html".toList = none ∧ extension? "a.b.HTM".toList = some "HTM".toList := by
  decide

end Path

end PageSplice
