import Mathlib.Data.List.Forall2
import PageSplice.Run.Batch

/-!
# Batches

A batch succeeds if each of its steps does, and what every step preserves holds in the end
(`runBatch_induction`, and `runBatch_invariant` if the batch may fail).  A batch whose steps leave
the tree as it is gives each file the status it would have alone (`runBatch_of_still`).  A batch
that fails has a first step that fails, and nothing comes after it (`exists_of_runBatch_error`).
-/

namespace PageSplice

instance decidableEqExcept {ε α : Type} [DecidableEq ε] [DecidableEq α] :
    DecidableEq (Except ε α)
  | .ok a, .ok b => decidable_of_iff (a = b) (by simp)
  | .error e, .error f => decidable_of_iff (e = f) (by simp)
  | .ok _, .error _ | .error _, .ok _ => .isFalse (by simp)

instance decidableForallOk {ε α : Type} (x : Except ε α) (P : α → Prop) [DecidablePred P] :
    Decidable (∀ a, x = .ok a → P a) :=
  match x with
  | .ok a => decidable_of_iff (P a) ⟨fun h _ ha => Except.ok.inj ha ▸ h, fun h => h a rfl⟩
  | .error _ => .isTrue fun _ h => by cases h

theorem mapM_eq_ok_iff {ε α β : Type} {f : α → Except ε β} {xs : List α} {ys : List β} :
    xs.mapM f = .ok ys ↔ List.Forall₂ (fun x y => f x = .ok y) xs ys := by
  induction xs generalizing ys with
  | nil => simp [pure, Except.pure, eq_comm]
  | cons x xs ih =>
    rw [List.mapM_cons, List.forall₂_cons_left_iff]
    cases hx : f x with
    | error e => simp [bind, Except.bind]
    | ok y =>
      simp only [← ih]
      cases xs.mapM f with
      | error e => simp [bind, Except.bind]
      | ok ys' => simp [bind, Except.bind, pure, Except.pure, eq_comm]

/-- Where a list cannot be mapped, the error is that of one of its members. -/
theorem mapM_cases {ε α β : Type} (f : α → Except ε β) (xs : List α) :
    (∃ ys, xs.mapM f = .ok ys) ∨ ∃ x ∈ xs, ∃ e, f x = .error e ∧ xs.mapM f = .error e := by
  induction xs with
  | nil => exact .inl ⟨[], rfl⟩
  | cons x xs ih =>
    rw [List.mapM_cons]
    cases hx : f x with
    | error e => exact .inr ⟨x, List.mem_cons_self .., e, hx, rfl⟩
    | ok y =>
      rcases ih with ⟨ys, hys⟩ | ⟨x', hx', e, he, hxs⟩
      · exact .inl ⟨y :: ys, by rw [hys]; rfl⟩
      · exact .inr ⟨x', List.mem_cons_of_mem _ hx', e, he, by rw [hxs]; rfl⟩

theorem exists_of_mem_mapM {ε α β : Type} {f : α → Except ε β} {xs : List α} {ys : List β}
    (h : xs.mapM f = .ok ys) {y : β} (hy : y ∈ ys) : ∃ x ∈ xs, f x = .ok y := by
  obtain ⟨i, rfl⟩ := List.mem_iff_get.1 hy
  have hall := mapM_eq_ok_iff.1 h
  have hi : i.1 < xs.length := by
    rw [hall.length_eq]
    exact i.2
  exact ⟨xs.get ⟨i, hi⟩, List.get_mem .., hall.get hi i.2⟩

/-! ## Outcomes -/

section Outcome

variable {α β : Type} {g : α → β} {o : Outcome α}

theorem Outcome.result_map_eq_ok_iff {b : β} :
    (o.map g).result = .ok b ↔ ∃ a, o.result = .ok a ∧ g a = b := by
  unfold Outcome.map
  cases o.result <;> simp [Except.map]

theorem Outcome.result_map_eq_error_iff {f : Failure} :
    (o.map g).result = .error f ↔ o.result = .error f := by
  unfold Outcome.map
  cases o.result <;> simp [Except.map]

end Outcome

/-! ## Batches that succeed -/

variable {step : FileStep} {t : Tree}

theorem runBatch_cons_eq_ok_iff {p : Path} {ps : List Path} {done : List (Path × Status)} :
    (runBatch step t (p :: ps)).result = .ok done ↔
      ∃ a rest, (step t p).result = .ok a ∧ (runBatch step (step t p).tree ps).result = .ok rest ∧
        done = a :: rest := by
  rw [runBatch, Outcome.andThen]
  cases (step t p).result with
  | error f => simp
  | ok a =>
    simp only [Outcome.map]
    cases (runBatch step (step t p).tree ps).result with
    | error f => simp [Except.map]
    | ok rest => simp [Except.map, eq_comm]

theorem tree_runBatch_cons {p : Path} {ps : List Path} {a : Path × Status}
    (h : (step t p).result = .ok a) :
    (runBatch step t (p :: ps)).tree = (runBatch step (step t p).tree ps).tree := by
  simp only [runBatch, Outcome.andThen, h, Outcome.map]

/-- What holds at the start and is kept by each step that succeeds, holds after the batch. -/
theorem runBatch_induction {I : List Path → List (Path × Status) → Tree → Prop} {ps : List Path}
    {done : List (Path × Status)} (hstart : I [] [] t)
    (hstep : ∀ seen p rest done t a, ps = seen ++ p :: rest → I seen done t →
      (step t p).result = .ok a → I (seen ++ [p]) (done ++ [a]) (step t p).tree)
    (h : (runBatch step t ps).result = .ok done) : I ps done (runBatch step t ps).tree := by
  have key : ∀ {rest seen before t done}, ps = seen ++ rest → I seen before t →
      (runBatch step t rest).result = .ok done →
      I ps (before ++ done) (runBatch step t rest).tree := by
    intro rest
    induction rest with
    | nil =>
      intro seen before t done hps hI h
      cases h
      rw [hps, runBatch]
      simpa using hI
    | cons p rest ih =>
      intro seen before t done hps hI h
      obtain ⟨a, after, ha, hrest, rfl⟩ := runBatch_cons_eq_ok_iff.1 h
      rw [tree_runBatch_cons ha, ← List.singleton_append, ← List.append_assoc]
      exact ih (by simpa using hps) (hstep seen p rest before t a hps hI ha) hrest
  simpa using key (List.nil_append ps).symm hstart h

theorem runBatch_of_still {ps : List Path} {f : Path → Path × Status}
    (h : ∀ p ∈ ps, (step t p).tree = t ∧ (step t p).result = .ok (f p)) :
    (runBatch step t ps).tree = t ∧ (runBatch step t ps).result = .ok (ps.map f) := by
  induction ps with
  | nil => exact ⟨rfl, rfl⟩
  | cons p ps ih =>
    obtain ⟨htree, hres⟩ := h p (List.mem_cons_self ..)
    obtain ⟨ihtree, ihres⟩ := ih fun q hq => h q (List.mem_cons_of_mem _ hq)
    refine ⟨by rw [tree_runBatch_cons hres, htree, ihtree], ?_⟩
    exact runBatch_cons_eq_ok_iff.2 ⟨_, _, hres, by rw [htree]; exact ihres, rfl⟩

/-! ## Batches that may fail -/

/-- What each step keeps, whether it succeeds or not, is kept by the batch. -/
theorem runBatch_invariant {I : Tree → Prop} {ps : List Path} (hstart : I t)
    (hstep : ∀ p ∈ ps, ∀ t, I t → I (step t p).tree) : I (runBatch step t ps).tree := by
  induction ps generalizing t with
  | nil => exact hstart
  | cons p ps ih =>
    have hfirst := hstep p (List.mem_cons_self ..) t hstart
    cases hr : (step t p).result with
    | error f => simpa only [runBatch, Outcome.andThen, hr] using hfirst
    | ok a =>
      rw [tree_runBatch_cons hr]
      exact ih hfirst fun q hq => hstep q (List.mem_cons_of_mem _ hq)

/-- Files behind one that fails are left out. -/
theorem runBatch_append_of_error {ps qs : List Path} {p : Path} {done : List (Path × Status)}
    {f : Failure} (hps : (runBatch step t ps).result = .ok done)
    (hp : (step (runBatch step t ps).tree p).result = .error f) :
    runBatch step t (ps ++ p :: qs) =
      { tree := (step (runBatch step t ps).tree p).tree
        notices := (runBatch step t ps).notices ++ (step (runBatch step t ps).tree p).notices
        result := .error f } := by
  rw [runBatch_append]
  simp only [Outcome.andThen, Outcome.map, runBatch, hps, hp, Except.map]

theorem exists_of_runBatch_error {ps : List Path} {f : Failure}
    (h : (runBatch step t ps).result = .error f) :
    ∃ seen p rest done, ps = seen ++ p :: rest ∧ (runBatch step t seen).result = .ok done ∧
      (step (runBatch step t seen).tree p).result = .error f := by
  induction ps generalizing t with
  | nil => cases h
  | cons p ps ih =>
    cases hr : (step t p).result with
    | error f' =>
      have hf : f' = f := by simpa [runBatch, Outcome.andThen, hr] using h
      exact ⟨[], p, ps, [], rfl, rfl, hf ▸ hr⟩
    | ok a =>
      have hrest : (runBatch step (step t p).tree ps).result = .error f := by
        simp only [runBatch, Outcome.andThen, hr] at h
        exact Outcome.result_map_eq_error_iff.1 h
      obtain ⟨seen, q, rest, done, rfl, hseen, hq⟩ := ih hrest
      refine ⟨p :: seen, q, rest, a :: done, rfl, ?_, ?_⟩
      · exact runBatch_cons_eq_ok_iff.2 ⟨a, done, hr, hseen, rfl⟩
      · rwa [tree_runBatch_cons hr]

/-! ## Reports -/

theorem Report.ofList_map (ps : List Path) (f : Path → Status) :
    Report.ofList (ps.map fun p => (p, f p)) =
      { written := ps.filter (f · = .written)
        upToDate := ps.filter (f · = .upToDate)
        stale := ps.filter (f · = .stale) } := by
  simp [Report.ofList, List.filter_map, Function.comp_def]

theorem Report.ofList_upToDate (ps : List Path) :
    Report.ofList (ps.map fun p => (p, .upToDate)) = { upToDate := ps } := by
  simp [Report.ofList_map]

/-- The report of a run that writes what changed. -/
theorem Report.ofList_written (ps : List Path) (P : Path → Prop) [DecidablePred P] :
    Report.ofList (ps.map fun p => (p, if P p then .upToDate else .written)) =
      { written := ps.filter (¬ P ·), upToDate := ps.filter (P ·) } := by
  have hstatus : ∀ p, ((if P p then Status.upToDate else .written) = .written ↔ ¬ P p) ∧
      ((if P p then Status.upToDate else .written) = .upToDate ↔ P p) ∧
      (if P p then Status.upToDate else .written) ≠ .stale := by
    intro p
    by_cases hp : P p <;> simp [hp]
  simp [Report.ofList_map, hstatus]

/-- The report of a run that only checks. -/
theorem Report.ofList_stale (ps : List Path) (P : Path → Prop) [DecidablePred P] :
    Report.ofList (ps.map fun p => (p, if P p then .upToDate else .stale)) =
      { upToDate := ps.filter (P ·), stale := ps.filter (¬ P ·) } := by
  have hstatus : ∀ p, ((if P p then Status.upToDate else .stale) = .stale ↔ ¬ P p) ∧
      ((if P p then Status.upToDate else .stale) = .upToDate ↔ P p) ∧
      (if P p then Status.upToDate else .stale) ≠ .written := by
    intro p
    by_cases hp : P p <;> simp [hp]
  simp [Report.ofList_map, hstatus]

/-! ## Settling a file -/

variable {store : Store} {p : Path} {current : Option ByteArray} {text : Text}

/-- A file is left alone if it holds the text, or if the run only checks. -/
theorem settleFile_of_still (store : Store) (job : Job) (check : Bool) (p : Path)
    (h : current = some text.encode ∨ check = true) :
    (settleFile store job check t p current text).tree = t ∧
      (settleFile store job check t p current text).result =
        .ok (p, if current = some text.encode then .upToDate else .stale) := by
  unfold settleFile holdsAlready
  by_cases hcur : current = some text.encode
  · simp [hcur]
  · simp [hcur, h.resolve_left hcur]

/-- Otherwise the text is stored. -/
theorem store_of_settleFile {job : Job} {a : Path × Status} (hcur : current ≠ some text.encode)
    (h : (settleFile store job false t p current text).result = .ok a) :
    a = (p, .written) ∧
      store t p text = ((settleFile store job false t p current text).tree, .ok ()) := by
  unfold settleFile holdsAlready at h ⊢
  simp only [hcur, decide_false, Bool.false_eq_true, if_false] at h ⊢
  cases hs : store t p text with
  | mk t' r => cases r <;> simp_all

/-- A file cannot be settled only if it is to change and the text cannot be stored. -/
theorem store_of_settleFile_error {job : Job} {check : Bool} {f : Failure}
    (h : (settleFile store job check t p current text).result = .error f) :
    current ≠ some text.encode ∧ check = false ∧
      (settleFile store job check t p current text).notices = [.writing job p] ∧
      ∃ e, f = { cause := .file e } ∧
        store t p text = ((settleFile store job check t p current text).tree, .error e) := by
  unfold settleFile at h ⊢
  split at h
  · cases h
  · next hold =>
    split at h
    · cases h
    · next hcheck =>
      rw [if_neg hold, if_neg hcheck]
      refine ⟨by simpa [holdsAlready] using hold, by simpa using hcheck, ?_⟩
      cases hs : store t p text with
      | mk t' r =>
        rw [hs] at h
        cases r with
        | ok u => cases h
        | error e =>
          cases h
          exact ⟨rfl, e, rfl, rfl⟩

end PageSplice
