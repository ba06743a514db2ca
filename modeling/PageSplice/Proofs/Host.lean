import PageSplice.Proofs.Tree.Plain
import PageSplice.Proofs.Tree.Shape
import PageSplice.Proofs.Tree.Steps

/-!
# Files on a host

What a host lets a program read is what the tree holds (`Host.textAt_eq_ok_iff`).  Storing a text in
a file that is there changes this file alone, even if the host does not go through with it: then the
file holds what it held or the beginning of the text (`Host.storeText_of_file`).
-/

namespace PageSplice

open PageSplice.Tree

variable {t t' t'' : Tree} {ps : List Path} {p : Path}

namespace Tree

/-- A text that cannot be had cannot be read. -/
theorem exists_of_textAt_error {e : FileFault} (h : t.textAt p = .error e) :
    ∃ cause, e = .reading p cause := by
  unfold textAt at h
  split at h
  · next cause _ =>
    cases h
    exact ⟨cause, rfl⟩
  · split at h
    · cases h
    · cases h
      exact ⟨.notText, rfl⟩

end Tree

namespace Host

variable {host : Host} {text : Text}

/-! ## Reading -/

theorem textAt_eq_ok_iff :
    host.textAt t p = .ok text ↔ host.unreadable p = none ∧ t.read p = .ok text.encode := by
  unfold textAt
  cases host.unreadable p with
  | some e => simp
  | none => simp [Tree.textAt_eq_ok_iff]

theorem canRead_of_textAt (h : host.textAt t p = .ok text) : host.CanRead t p :=
  have ⟨hallowed, hread⟩ := textAt_eq_ok_iff.1 h
  ⟨hallowed, _, hread⟩

/-- Whether a file can be read does not depend on what it holds. -/
theorem canRead_congr (h : SameShape t t') (hread : host.CanRead t' p) : host.CanRead t p := by
  obtain ⟨hallowed, b, hb⟩ := hread
  obtain ⟨l, hl, hfile⟩ := read_eq_ok_iff.1 hb
  rw [h.find] at hl
  refine ⟨hallowed, ?_⟩
  obtain hsame | ⟨c, -, hc, -⟩ := (h.alike l).cases
  · exact ⟨b, read_eq_ok_iff.2 ⟨l, hl, hsame ▸ hfile⟩⟩
  · exact ⟨c, read_eq_ok_iff.2 ⟨l, hl, hc⟩⟩

theorem textAt_congr (h : t'.read p = t.read p) : host.textAt t' p = host.textAt t p := by
  rw [textAt, textAt, Tree.textAt_congr h]

theorem exists_of_textAt_error {e : FileFault} (h : host.textAt t p = .error e) :
    ∃ cause, e = .reading p cause := by
  unfold textAt at h
  split at h
  · cases h
    exact ⟨_, rfl⟩
  · exact Tree.exists_of_textAt_error h

/-! ## Writing -/

theorem storeText_eq_ok_iff :
    host.storeText t p text = (t', .ok ()) ↔
      host.unwritten t p text.encode = none ∧ t.storeText p text = (t', .ok ()) := by
  unfold storeText
  cases host.unwritten t p text.encode with
  | none => simp
  | some r =>
    cases t.makeParents p with
    | mk t₁ made => cases made <;> simp

/-- A text is stored in a file that is there, or the host refuses and the file holds what is left. -/
theorem storeText_of_file {l : Location} {b : ByteArray} (host : Host) (hl : t.find p = .ok l)
    (hb : t.get? l = some (.file b)) (text : Text) :
    (∃ t', host.storeText t p text = (t', .ok ()) ∧ Overwritten l text.encode t t') ∨
    ∃ r t', host.unwritten t p text.encode = some r ∧
      host.storeText t p text = (t', .error (.writing p r.cause)) ∧
      Overwritten l (r.left b text.encode) t t' := by
  cases hr : host.unwritten t p text.encode with
  | none =>
    obtain ⟨t', hstored, ht'⟩ := Tree.storeText_of_file hl hb text
    exact .inl ⟨t', storeText_eq_ok_iff.2 ⟨hr, hstored⟩, ht'⟩
  | some r =>
    refine .inr ⟨r, t.writePart p text.encode r.taken, rfl, ?_, ?_⟩
    · simp only [storeText, hr, makeParents_of_find hl]
    · unfold WriteRefusal.left writePart
      cases r.taken with
      | none => exact ⟨rfl, fun k => by split <;> simp_all⟩
      | some n =>
        obtain ⟨t', hwrite, ht'⟩ := write_of_file hl hb (text.encode.extract 0 n)
        simp only [hwrite]
        exact ht'

end Host

/-! ## Refilling -/

/-- A tree of the same shape, in which files changed only where some paths lead. -/
structure Refilled (ps : List Path) (t t' : Tree) : Prop where
  shape : SameShape t t'
  frame : ∀ l, (∀ p ∈ ps, t.find p ≠ .ok l) → t'.get? l = t.get? l

namespace Refilled

theorem refl (ps : List Path) (t : Tree) : Refilled ps t t := ⟨.refl t, fun _ _ => rfl⟩

theorem mono {qs : List Path} (h : Refilled ps t t') (hsub : ps ⊆ qs) : Refilled qs t t' :=
  ⟨h.shape, fun l hl => h.frame l fun p hp => hl p (hsub hp)⟩

theorem extension (h : Refilled ps t t') : t'.Extends t :=
  ⟨h.shape.here, fun l => .inr (h.shape.alike l)⟩

theorem trans (h : Refilled ps t t') (h' : Refilled ps t' t'') : Refilled ps t t'' := by
  refine ⟨h.shape.trans h'.shape, fun l hl => ?_⟩
  rw [h'.frame l fun p hp => by rw [h.shape.find]; exact hl p hp, h.frame l hl]

theorem read (h : Refilled ps t t') (hps : ∀ q ∈ ps, ¬ t.Coincide q p) :
    t'.read p = t.read p :=
  h.shape.read_congr fun l hl => h.frame l fun q hq hql => hps q hq ⟨l, hql, hl⟩

end Refilled

namespace Tree.Overwritten

variable {l : Location} {b c : ByteArray}

theorem sameShape (h : Overwritten l c t t') (hb : t.get? l = some (.file b)) : SameShape t t' := by
  refine ⟨h.here, fun k => ?_⟩
  by_cases hk : k = l
  · subst hk
    exact .of_files hb (by rw [h.get?, if_pos rfl])
  · exact .of_eq (by rw [h.get?, if_neg hk])

theorem refilled (h : Overwritten l c t t') (hb : t.get? l = some (.file b))
    (hl : t.find p = .ok l) (hp : p ∈ ps) : Refilled ps t t' := by
  refine ⟨h.sameShape hb, fun k hk => ?_⟩
  rw [h.get?, if_neg]
  rintro rfl
  exact hk p hp hl

/-- The path reads as the new content. -/
theorem read_eq (h : Overwritten l c t t') (hb : t.get? l = some (.file b))
    (hl : t.find p = .ok l) : t'.read p = .ok c :=
  read_eq_ok_iff.2 ⟨l, by rw [(h.sameShape hb).find, hl], by rw [h.get?, if_pos rfl]⟩

end Tree.Overwritten

end PageSplice
