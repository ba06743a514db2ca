import PageSplice.Proofs.Batch
import PageSplice.Proofs.ByteOrder
import PageSplice.Proofs.Retemplating
import PageSplice.Proofs.Tree.Plain

/-!
# Files of targets

A directory stands for the HTML files below it that are reached without passing a link, but for the
excluded ones, in the order of the bytes of their names (`Listing`); any other target stands for
itself.  Main statement: targets stand for these files, one target after the other, unless some
directory at or below a target cannot be listed, and then they stand for nothing
(`Host.filesOf_lists`).
-/

namespace PageSplice

open Text

namespace Path

/-- A name with `.html` or `.htm` behind something, in either letter case. -/
def HasHtmlExtension (name : Text) : Prop :=
  ∃ stem extension, stem ≠ [] ∧ '.' ∉ extension ∧ name = stem ++ '.' :: extension ∧
    (lower extension = "html".toList ∨ lower extension = "htm".toList)

/-- Where the text is cut that has its last dot behind a stem. -/
theorem reverse_at_last_dot (stem : Text) {e : Text} (he : '.' ∉ e) :
    (stem ++ '.' :: e).reverse.takeWhile (· ≠ '.') = e.reverse ∧
      (stem ++ '.' :: e).reverse.dropWhile (· ≠ '.') = '.' :: stem.reverse := by
  have hreverse : (stem ++ '.' :: e).reverse = e.reverse ++ '.' :: stem.reverse := by simp
  have hall : ∀ c ∈ e.reverse, decide (c ≠ '.') = true := by
    intro c hc
    refine decide_eq_true ?_
    rintro rfl
    exact he (List.mem_reverse.1 hc)
  rw [hreverse, List.takeWhile_append_of_pos hall, List.dropWhile_append_of_pos hall]
  simp

theorem extension?_eq_some_iff {name e : Text} :
    extension? name = some e ↔ ∃ stem, stem ≠ [] ∧ '.' ∉ e ∧ name = stem ++ '.' :: e := by
  rw [extension?]
  constructor
  · intro h
    split at h
    · next hdot =>
      -- the last dot is the first one from behind
      obtain ⟨a, b, hname, ha⟩ := List.eq_append_cons_of_mem (List.mem_reverse.2 hdot.1)
      have hname : name = b.reverse ++ '.' :: a.reverse := by
        rw [← List.reverse_reverse name, hname]
        simp
      obtain ⟨htake, hdrop⟩ := reverse_at_last_dot b.reverse (mt List.mem_reverse.1 ha)
      rw [hname, htake] at h
      rw [hname, hdrop] at hdot
      cases h
      refine ⟨b.reverse, ?_, by simpa using ha, by simpa using hname⟩
      intro hnil
      simp [hnil] at hdot
    · cases h
  · rintro ⟨stem, hstem, he, rfl⟩
    obtain ⟨htake, hdrop⟩ := reverse_at_last_dot stem he
    rw [htake, hdrop, if_pos ⟨by simp, by simpa using hstem⟩, List.reverse_reverse]

theorem namesHtml_iff {name : Text} : namesHtml name = true ↔ HasHtmlExtension name := by
  rw [namesHtml]
  constructor
  · intro h
    cases he : extension? name with
    | none => rw [he] at h; cases h
    | some e =>
      rw [he] at h
      obtain ⟨stem, hstem, hdot, hname⟩ := extension?_eq_some_iff.1 he
      exact ⟨stem, e, hstem, hdot, hname, by simpa using h⟩
  · rintro ⟨stem, e, hstem, hdot, hname, hlower⟩
    rw [extension?_eq_some_iff.2 ⟨stem, hstem, hdot, hname⟩]
    simpa using hlower

/-- The components of a path as bytes; paths are compared by these. -/
def byteComponents (p : Path) : List (List UInt8) := (components p).map bytes

end Path

namespace Tree

variable {t : Tree} {target p : Path} {d ns : Location}

/-- A path leads to a directory, through links or not. -/
def LeadsToDir (t : Tree) (p : Path) (d : Location) : Prop := t.find p = .ok d ∧ t.IsOpen d

theorem directory?_eq_some_iff : t.directory? p = some d ↔ t.LeadsToDir p d := by
  constructor
  · intro h
    rw [directory?] at h
    cases hf : t.find p with
    | error e => rw [hf] at h; cases h
    | ok l =>
      rw [hf] at h
      obtain hopen | ⟨b, hb⟩ := get?_of_lookup_found (lookup_of_find hf)
      · simp only at h
        split at h
        · cases h
        · cases h
          exact ⟨hf, hopen⟩
      · simp only [hb, reduceCtorEq] at h
  · rintro ⟨hf, hopen⟩
    exact directory?_of_find hf hopen

theorem byteComponents_under (hp : p ≠ []) (hns : ∀ n ∈ ns, IsFileName n) :
    Path.byteComponents (under p ns) = Path.byteComponents p ++ ns.map bytes := by
  induction ns generalizing p with
  | nil => simp [under]
  | cons n ns ih =>
    have hn := hns n (List.mem_cons_self ..)
    rw [under, List.foldl_cons]
    have ih := ih (Path.join_ne_nil hp n) fun m hm => hns m (List.mem_cons_of_mem _ hm)
    rw [under] at ih
    rw [ih, Path.byteComponents, Path.components_join hp hn.2.2.2.1 hn.not_isFiller, Path.byteComponents]
    simp

/-! ## Walking one directory -/

/-- Directories stand on the way from a directory down to a file. -/
def IsFileBelow (t : Tree) (d ns : Location) : Prop :=
  ns ≠ [] ∧ (∃ b, t.get? (d ++ ns) = some (.file b)) ∧
    ∀ m, m <+: ns → m ≠ ns → t.get? (d ++ m) = some .dir

theorem isFileBelow_iff :
    t.IsFileBelow d ns ↔ ns ≠ [] ∧ ∃ b, t.get? (d ++ ns) = some (.file b) := by
  refine ⟨fun h => ⟨h.1, h.2.1⟩, fun ⟨hne, b, hb⟩ => ⟨hne, ⟨b, hb⟩, fun m hm hmne => ?_⟩⟩
  exact get?_above hb ((List.prefix_append_right_inj d).2 hm) (by simpa using hmne)

/-- The directory itself, or one below it. -/
def IsDirBelow (t : Tree) (d ns : Location) : Prop := ns = [] ∨ t.get? (d ++ ns) = some .dir

theorem mem_cons_below_iff : (ns, Entry.dir) ∈ ([], .dir) :: t.below d ↔ t.IsDirBelow d ns := by
  rw [List.mem_cons, mem_below, IsDirBelow]
  by_cases hns : ns = [] <;> simp [hns]

/-- What a walk lists. -/
def isListed (x : Location × Entry) : Bool :=
  match x.2 with
  | .file _ => Path.namesHtml (x.1.getLastD [])
  | _ => false

theorem mem_filter_isListed {x : Location × Entry} :
    x ∈ (t.below d).filter isListed ↔ ∃ b n, x.2 = .file b ∧ x.1 ≠ [] ∧
      t.get? (d ++ x.1) = some (.file b) ∧ x.1.getLast? = some n ∧ Path.HasHtmlExtension n := by
  obtain ⟨ns, e⟩ := x
  rw [List.mem_filter, mem_below]
  constructor
  · rintro ⟨⟨hne, hg⟩, hlisted⟩
    cases e with
    | dir | link => cases hlisted
    | file b =>
      have hlast := List.getLast?_eq_some_getLast hne
      have hhtml : Path.namesHtml (ns.getLastD []) = true := hlisted
      rw [List.getLastD_eq_getLast?, hlast] at hhtml
      exact ⟨b, _, rfl, hne, hg, hlast, Path.namesHtml_iff.1 hhtml⟩
  · rintro ⟨b, n, rfl, hne, hg, hlast, hhtml⟩
    refine ⟨⟨hne, hg⟩, ?_⟩
    show Path.namesHtml (ns.getLastD []) = true
    rw [List.getLastD_eq_getLast?, hlast]
    exact Path.namesHtml_iff.2 hhtml

end Tree

namespace Host

open PageSplice.Tree

variable {host : Host} {t : Tree} {target p : Path} {d : Location}

/-- A path leads to a directory, as far as the system tells. -/
def LeadsToDir (host : Host) (t : Tree) (p : Path) (d : Location) : Prop :=
  host.unseen p = none ∧ t.LeadsToDir p d

theorem directory?_eq_some_iff : host.directory? t p = some d ↔ host.LeadsToDir t p d := by
  rw [directory?, LeadsToDir]
  cases host.unseen p with
  | some e => simp
  | none => simp [Tree.directory?_eq_some_iff]

/-- A walk lists the HTML files, or fails at a directory that cannot be listed. -/
theorem htmlAmong_cases (host : Host) (p : Path) (xs : List (Location × Entry)) :
    ((∀ ns, (ns, Entry.dir) ∈ xs → host.listRefusal (under p ns) = none) ∧
      host.htmlAmong p xs = .ok ((xs.filter isListed).map (under p ·.1))) ∨
    ∃ ns r, (ns, Entry.dir) ∈ xs ∧ host.listRefusal (under p ns) = some r ∧
      host.htmlAmong p xs = .error r := by
  induction xs with
  | nil => exact .inl ⟨by simp, rfl⟩
  | cons x xs ih =>
    obtain ⟨ns, e⟩ := x
    cases e with
    | dir =>
      cases hr : host.listRefusal (under p ns) with
      | some r => exact .inr ⟨ns, r, List.mem_cons_self .., hr, by simp only [htmlAmong, hr]⟩
      | none =>
        rcases ih with ⟨hall, hok⟩ | ⟨ms, r, hms, hms', herror⟩
        · refine .inl ⟨fun ms hms => ?_, by simpa [htmlAmong, hr, isListed] using hok⟩
          rcases List.mem_cons.1 hms with heq | hms
          · cases heq
            exact hr
          · exact hall ms hms
        · exact .inr ⟨ms, r, List.mem_cons_of_mem _ hms, hms', by simp only [htmlAmong, hr, herror]⟩
    | file b =>
      rcases ih with ⟨hall, hok⟩ | ⟨ms, r, hms, hms', herror⟩
      · refine .inl ⟨by simpa using hall, ?_⟩
        by_cases hhtml : Path.namesHtml (ns.getLastD [])
        · rw [htmlAmong, if_pos hhtml, hok, List.filter_cons_of_pos (by exact hhtml)]
          rfl
        · rw [htmlAmong, if_neg hhtml, hok, List.filter_cons_of_neg (by exact hhtml)]
      · refine .inr ⟨ms, r, List.mem_cons_of_mem _ hms, hms', ?_⟩
        rw [htmlAmong, herror]
        split <;> rfl
    | link q =>
      rcases ih with ⟨hall, hok⟩ | ⟨ms, r, hms, hms', herror⟩
      · exact .inl ⟨by simpa using hall, by simpa [htmlAmong, isListed] using hok⟩
      · exact .inr ⟨ms, r, List.mem_cons_of_mem _ hms, hms', herror⟩

/-- The files for which a directory is to stand. -/
structure Listing (host : Host) (t : Tree) (exclude : List Path) (target : Path) (d : Location)
    (files : List Path) : Prop where
  mem_iff : ∀ p, p ∈ files ↔ ∃ ns n, p = under target ns ∧ t.IsFileBelow d ns ∧
    ns.getLast? = some n ∧ Path.HasHtmlExtension n ∧
    ∀ q ∈ exclude,
      Path.components (host.realOrSame t p) ≠ Path.components (host.realOrSame t q)
  once : files.Nodup
  increasing : files.Pairwise fun p q => Path.byteComponents p < Path.byteComponents q

theorem any_sameFile_eq_false_iff {exclude : List Path} :
    (!exclude.any (host.sameFile t p)) = true ↔ ∀ q ∈ exclude,
      Path.components (host.realOrSame t p) ≠ Path.components (host.realOrSame t q) := by
  simp [sameFile]

theorem listing_of_below (host : Host) (exclude : List Path) (htarget : target ≠ []) :
    host.Listing t exclude target d ((((t.below d).filter isListed).map (under target ·.1)).filter
      fun p => !exclude.any (host.sameFile t p)) := by
  have hincreasing : (((t.below d).filter isListed).map (under target ·.1)).Pairwise
      fun p q => Path.byteComponents p < Path.byteComponents q := by
    rw [List.pairwise_map]
    refine ((t.below_sorted d).filter _).imp_of_mem fun {x y} hx hy hlt => ?_
    have hnames : ∀ {z : Location × Entry}, z ∈ (t.below d).filter isListed →
        ∀ n ∈ z.1, IsFileName n := by
      intro z hz n hn
      obtain ⟨b, -, -, -, hg, -⟩ := mem_filter_isListed.1 hz
      exact isFileName_of_mem hg (List.mem_append_right _ hn)
    rw [byteComponents_under htarget (hnames hx), byteComponents_under htarget (hnames hy)]
    exact List.append_left_lt (List.map_lt (fun _ _ => bytes_lt) hlt)
  refine ⟨fun p => ?_, ?_, hincreasing.filter _⟩
  · rw [List.mem_filter, any_sameFile_eq_false_iff, List.mem_map]
    constructor
    · rintro ⟨⟨x, hx, rfl⟩, hother⟩
      obtain ⟨b, n, -, hne, hg, hlast, hhtml⟩ := mem_filter_isListed.1 hx
      exact ⟨x.1, n, rfl, isFileBelow_iff.2 ⟨hne, b, hg⟩, hlast, hhtml, hother⟩
    · rintro ⟨ns, n, rfl, hbelow, hlast, hhtml, hother⟩
      obtain ⟨hne, b, hg⟩ := isFileBelow_iff.1 hbelow
      exact ⟨⟨(ns, .file b), mem_filter_isListed.2 ⟨b, n, rfl, hne, hg, hlast, hhtml⟩, rfl⟩, hother⟩
  · exact (hincreasing.filter _).imp fun {p q} hlt (heq : p = q) => List.lt_irrefl _ (heq ▸ hlt)

/-! ## Walking all targets -/

/-- The files for which a target stands. -/
def StandsFor (host : Host) (t : Tree) (exclude : List Path) (target : Path) (files : List Path) :
    Prop :=
  ((∀ d, ¬ host.LeadsToDir t target d) ∧ files = [target]) ∨
    ∃ d, host.LeadsToDir t target d ∧ host.Listing t exclude target d files

/-- The walk of a target fails: the directory to which it leads, or one below it, cannot be
listed. -/
def WalkFails (host : Host) (t : Tree) (target : Path) (w : WalkFault) : Prop :=
  w.target = target ∧ ∃ d ns, host.LeadsToDir t target d ∧ t.IsDirBelow d ns ∧
    host.listRefusal (under target ns) = some w.toListRefusal

theorem filesOfTarget_cases (host : Host) (t : Tree) (exclude : List Path) (target : Path) :
    ((∀ w, ¬ host.WalkFails t target w) ∧ ∃ files,
      host.filesOfTarget t exclude target = .ok files ∧ host.StandsFor t exclude target files) ∨
    ∃ w, host.WalkFails t target w ∧
      host.filesOfTarget t exclude target = .error (.walking w) := by
  cases hd : host.directory? t target with
  | none =>
    have hno : ∀ d, ¬ host.LeadsToDir t target d := by
      intro d h
      rw [directory?_eq_some_iff.2 h] at hd
      cases hd
    refine .inl ⟨fun w ⟨_, d, ns, h, _⟩ => hno d h, [target], ?_, .inl ⟨hno, rfl⟩⟩
    rw [filesOfTarget, hd]
  | some d =>
    have hleads := directory?_eq_some_iff.1 hd
    have hne : target ≠ [] := (find_eq_ok_iff.1 hleads.2.1).1.2.1
    rcases host.htmlAmong_cases target (([], .dir) :: t.below d) with
      ⟨hall, hok⟩ | ⟨ns, r, hns, hr, herror⟩
    · refine .inl ⟨?_, _, ?_, .inr ⟨d, hleads, host.listing_of_below exclude hne⟩⟩
      · rintro w ⟨-, d', ns, hleads', hdir, hr⟩
        obtain rfl : d = d' := by simpa [hleads.2.1] using hleads'.2.1
        rw [hall ns (mem_cons_below_iff.2 hdir)] at hr
        cases hr
      · rw [filesOfTarget, hd]
        simp only [htmlFiles, hok]
        rfl
    · refine .inr ⟨{ r with target }, ⟨rfl, d, ns, hleads, mem_cons_below_iff.1 hns, hr⟩, ?_⟩
      rw [filesOfTarget, hd]
      simp only [htmlFiles, herror]

theorem standsFor_of_mapM {targets exclude : List Path} {parts : List (List Path)}
    (h : targets.mapM (host.filesOfTarget t exclude) = .ok parts) :
    (∀ target ∈ targets, ∀ w, ¬ host.WalkFails t target w) ∧
      List.Forall₂ (host.StandsFor t exclude) targets parts := by
  refine (List.forall₂_and_left _ _).1 ((mapM_eq_ok_iff.1 h).imp fun target files hfiles => ?_)
  rcases host.filesOfTarget_cases t exclude target with ⟨hnone, files', hok, hstands⟩ | ⟨_, _, herror⟩
  · obtain rfl : files = files' := by simpa [hfiles] using hok
    exact ⟨hnone, hstands⟩
  · rw [hfiles] at herror
    cases herror

theorem not_walkFails_of_filesOf {targets exclude files : List Path}
    (h : host.filesOf t targets exclude = .ok files) :
    ∀ target ∈ targets, ∀ w, ¬ host.WalkFails t target w := by
  rw [filesOf] at h
  rcases mapM_cases (host.filesOfTarget t exclude) targets with
    ⟨parts, hparts⟩ | ⟨_, _, e, _, herror⟩
  · exact (standsFor_of_mapM hparts).1
  · rw [herror] at h
    cases h

/-- Targets stand for their files, one target after the other, or the walk of one of them fails and
nothing is listed. -/
theorem filesOf_lists (host : Host) (t : Tree) (targets exclude : List Path) :
    ((∀ target ∈ targets, ∀ w, ¬ host.WalkFails t target w) → ∃ parts,
      host.filesOf t targets exclude = .ok parts.flatten ∧
      List.Forall₂ (host.StandsFor t exclude) targets parts) ∧
    ((∃ target ∈ targets, ∃ w, host.WalkFails t target w) →
      ∃ target ∈ targets, ∃ w, host.WalkFails t target w ∧
        host.filesOf t targets exclude = .error (.walking w)) := by
  rw [filesOf]
  rcases mapM_cases (host.filesOfTarget t exclude) targets with
    ⟨parts, hparts⟩ | ⟨target, htarget, e, he, herror⟩
  · obtain ⟨hnone, hstands⟩ := standsFor_of_mapM hparts
    rw [hparts]
    refine ⟨fun _ => ⟨parts, rfl, hstands⟩, ?_⟩
    rintro ⟨target, htarget, w, hfails⟩
    exact absurd hfails (hnone target htarget w)
  · rcases host.filesOfTarget_cases t exclude target with ⟨_, _, hok, _⟩ | ⟨w, hfails, herr⟩
    · rw [he] at hok
      cases hok
    · rw [he] at herr
      cases herr
      rw [herror]
      refine ⟨fun hnone => absurd hfails (hnone target htarget w), fun _ => ?_⟩
      exact ⟨target, htarget, w, hfails, rfl⟩

/-- A directory that is reached through a link, with a file in it that is excluded by another path;
links, hidden files and other texts among its entries are not listed.  If a directory below it may
not be read, nothing is listed, and neither is it if the path of one is too long. -/
theorem filesOf_lists_html_files :
    (let t := (((((((((Tree.empty.addText ["a"] "z.html" "").addText ["a", "z"] "y.htm" "").addText
        ["a"] ".html" "").addText ["a"] "..html" "").addText ["a"] "n.HtMl" "").addText
        ["a"] "t.txt" "").addText ["a"] "x.html" "").put ["a".toList] "k.html".toList
        (.link "z.html".toList)).put [] "l".toList (.link "a".toList))
      let targets := ["l".toList, "a/x.html".toList, "none".toList]
      let exclude := ["a/./x.html".toList]
      let files := ["l/..html".toList, "l/n.HtMl".toList, "l/z/y.htm".toList, "l/z.html".toList,
        "a/x.html".toList, "none".toList]
      let closed : ListRefusal :=
        { place := "l/z".toList, cause := .refused 13 "Permission denied" }
      let host : Host := { unlisted := fun p => if p = "l/z".toList then some closed else none }
      t.filesOf targets exclude = .ok files ∧
      (∃ parts, t.filesOf targets exclude = .ok parts.flatten ∧
        List.Forall₂ (willing.StandsFor t exclude) targets parts) ∧
      host.WalkFails t "l".toList { closed with target := "l".toList } ∧
      ∃ target ∈ targets, ∃ w, host.WalkFails t target w ∧
        host.filesOf t targets exclude = .error (.walking w)) ∧
    (let long := List.replicate 16 (List.replicate 255 'd')
      let t := Tree.empty.putDirs [] long
      ∃ target ∈ [".".toList], ∃ w, willing.WalkFails t target w ∧
        t.filesOf [".".toList] [] = .error (.walking w)) := by
  refine ⟨?_, ?_⟩
  · intro t targets exclude files closed host
    have hfiles : t.filesOf targets exclude = .ok files := by decide +kernel
    have hfails : host.WalkFails t "l".toList { closed with target := "l".toList } := by
      refine ⟨rfl, ["a".toList], ["z".toList], ⟨rfl, by decide +kernel, ?_⟩, .inr ?_, ?_⟩
      · exact isOpen_of_get? (by decide +kernel)
      · decide +kernel
      · decide +kernel
    exact ⟨hfiles, (willing.filesOf_lists t targets exclude).1 (not_walkFails_of_filesOf hfiles),
      hfails, (host.filesOf_lists t targets exclude).2 ⟨_, List.mem_cons_self .., _, hfails⟩⟩
  · intro long t
    have hfails : willing.WalkFails t ".".toList
        { place := under ".".toList long, cause := .nameTooLong, target := ".".toList } := by
      refine ⟨rfl, [], long, ⟨rfl, by decide +kernel, isOpen_of_get? (get?_nil t)⟩, .inr ?_, ?_⟩
      · decide +kernel
      · exact if_pos (by decide +kernel)
    exact (willing.filesOf_lists t [".".toList] []).2 ⟨_, List.mem_singleton_self _, _, hfails⟩

end Host

end PageSplice
