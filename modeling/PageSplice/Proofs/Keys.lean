import PageSplice.Toml.Document

/-!
# Keys of a document

No table of a document has a key twice, whether it was opened by a header or written in braces, and
whatever dotted keys added to it (`wellFormed_of_document?`).
-/

namespace PageSplice.Toml

/-- A value in which no table has a key twice. -/
inductive Value.WellFormed : Value → Prop where
  | string {text : Text} : WellFormed (.string text)
  | integer {i : Int} : WellFormed (.integer i)
  | float {x : Binary64} : WellFormed (.float x)
  | boolean {b : Bool} : WellFormed (.boolean b)
  | datetime : WellFormed .datetime
  | array {items : List Value} : (∀ v ∈ items, WellFormed v) → WellFormed (.array items)
  | tables {items : List Value} : (∀ v ∈ items, WellFormed v) → WellFormed (.tables items)
  | table {kind : TableKind} {fields : List (Text × Value)} :
      (fields.map (·.1)).Nodup → (∀ f ∈ fields, WellFormed f.2) → WellFormed (.table kind fields)

namespace Fields

structure WellFormed (fs : Fields) : Prop where
  nodup : (fs.map (·.1)).Nodup
  values : ∀ f ∈ fs, f.2.WellFormed

variable {fs fs' : Fields} {k : Text} {v : Value}

theorem wellFormed_nil : WellFormed [] := ⟨.nil, by simp⟩

theorem WellFormed.table (h : WellFormed fs) (kind : TableKind) :
    (Value.table kind fs).WellFormed := .table h.nodup h.values

theorem wellFormed_of_table {kind : TableKind} (h : (Value.table kind fs).WellFormed) :
    WellFormed fs := by
  cases h with
  | table hnodup hvalues => exact ⟨hnodup, hvalues⟩

theorem items_of_tables {items : List Value} (h : (Value.tables items).WellFormed) :
    ∀ v ∈ items, v.WellFormed := by
  cases h with
  | tables hitems => exact hitems

theorem mem_of_get? (h : get? k fs = some v) : (k, v) ∈ fs := by
  obtain ⟨before, behind, rfl, -⟩ := List.lookup_eq_some_iff.1 h
  simp

theorem WellFormed.get? (h : WellFormed fs) (hk : Fields.get? k fs = some v) : v.WellFormed :=
  h.values _ (mem_of_get? hk)

theorem not_mem_of_get?_eq_none (h : get? k fs = none) : k ∉ fs.map (·.1) := by
  intro hmem
  obtain ⟨f, hf, rfl⟩ := List.mem_map.1 hmem
  have := List.lookup_eq_none_iff.1 h f hf
  simp at this

/-! ## Changing a table -/

theorem WellFormed.add (h : WellFormed fs) (hk : Fields.get? k fs = none) (hv : v.WellFormed) :
    WellFormed (add k v fs) := by
  refine ⟨?_, List.forall_mem_append.2 ⟨h.values, List.forall_mem_singleton.2 hv⟩⟩
  rw [Fields.add, List.map_append, List.map_singleton]
  refine List.nodup_append.2 ⟨h.nodup, by simp, fun a ha b hb => ?_⟩
  rw [List.mem_singleton.1 hb]
  rintro rfl
  exact not_mem_of_get?_eq_none hk ha

theorem WellFormed.set (h : WellFormed fs) (k : Text) (hv : v.WellFormed) :
    WellFormed (set k v fs) := by
  have hkeys : (Fields.set k v fs).map (·.1) = fs.map (·.1) := by
    rw [Fields.set, List.map_map]
    refine List.map_congr_left fun f _ => ?_
    by_cases hf : f.1 = k <;> simp [hf]
  refine ⟨hkeys ▸ h.nodup, fun f hf => ?_⟩
  obtain ⟨f', hf', rfl⟩ := List.mem_map.1 hf
  by_cases hk : f'.1 = k
  · rw [if_pos hk]
    exact hv
  · rw [if_neg hk]
    exact h.values f' hf'

theorem WellFormed.erase (h : WellFormed fs) (k : Text) : WellFormed (erase k fs) :=
  ⟨h.nodup.sublist (List.filter_sublist.map _), fun f hf => h.values f (List.mem_filter.1 hf).1⟩

/-- A change that keeps keys apart does so at the end of any key path. -/
theorem WellFormed.modifyAt {α : Type} {P : α → Prop} {made : TableKind}
    {change : Bool → Fields → Option (Fields × α)}
    (hchange : ∀ b fs fs' a, WellFormed fs → change b fs = some (fs', a) → WellFormed fs' ∧ P a)
    {path : List Text} {isDotted : Bool} {a : α} (h : WellFormed fs)
    (hm : modifyAt made change path isDotted fs = some (fs', a)) : WellFormed fs' ∧ P a := by
  induction path generalizing isDotted fs fs' with
  | nil => exact hchange _ _ _ _ h hm
  | cons k ks ih =>
    rw [Fields.modifyAt] at hm
    split at hm
    · next hnone =>
      obtain ⟨⟨sub, a'⟩, hsub, hrest⟩ := Option.bind_eq_some_iff.1 hm
      cases hrest
      obtain ⟨hwf, ha⟩ := ih wellFormed_nil hsub
      exact ⟨h.add hnone (hwf.table made), ha⟩
    · next kind sub hget =>
      split at hm
      · cases hm
      · obtain ⟨⟨sub', a'⟩, hsub, hrest⟩ := Option.bind_eq_some_iff.1 hm
        cases hrest
        obtain ⟨hwf, ha⟩ := ih (wellFormed_of_table (h.get? hget)) hsub
        exact ⟨h.set k (hwf.table kind), ha⟩
    · next items hget =>
      split at hm
      · next kind sub hlast =>
        obtain ⟨⟨sub', a'⟩, hsub, hrest⟩ := Option.bind_eq_some_iff.1 hm
        cases hrest
        have hitems := items_of_tables (h.get? hget)
        obtain ⟨hwf, ha⟩ := ih (wellFormed_of_table (hitems _ (List.mem_of_getLast? hlast))) hsub
        refine ⟨h.set k (.tables (List.forall_mem_append.2 ⟨fun v hv => ?_, ?_⟩)), ha⟩
        · exact hitems v (List.dropLast_subset _ hv)
        · exact List.forall_mem_singleton.2 (hwf.table kind)
      · cases hm
    · cases hm

theorem WellFormed.insert {path : List Text} {key : Text} (h : WellFormed fs) (hv : v.WellFormed)
    (hi : insert path key v fs = some fs') : WellFormed fs' := by
  obtain ⟨⟨fs₁, u⟩, hm, rfl⟩ := Option.map_eq_some_iff.1 hi
  refine (h.modifyAt (P := fun _ => True) (fun b gs gs' u hgs hc => ?_) hm).1
  split at hc
  · cases hc
  · next hfree =>
    cases hc
    exact ⟨hgs.add (by simpa using (not_or.1 hfree).2) hv, trivial⟩

end Fields

/-! ## Headers -/

namespace Draft

structure WellFormed (d : Draft) : Prop where
  root : d.root.WellFormed
  fields : d.fields.WellFormed

variable {d d' : Draft} {fs : Fields} {path : List Text} {key : Text}

theorem WellFormed.close (h : d.WellFormed) (hc : d.close = some fs) : fs.WellFormed := by
  rw [Draft.close] at hc
  split at hc
  · cases hc
    exact h.fields
  · obtain ⟨⟨fs₁, u⟩, hm, rfl⟩ := Option.map_eq_some_iff.1 hc
    have htable := h.fields.table .headed
    refine (h.root.modifyAt (P := fun _ => True) (fun b gs gs' u hgs hchange => ?_) hm).1
    refine ⟨?_, trivial⟩
    split at hchange
    · split at hchange
      · next hnone =>
        cases hchange
        exact hgs.add hnone (.tables (by simpa using htable))
      · next items hget =>
        cases hchange
        refine hgs.set _ (.tables (List.forall_mem_append.2 ⟨?_, ?_⟩))
        · exact Fields.items_of_tables (hgs.get? hget)
        · exact List.forall_mem_singleton.2 htable
      · cases hchange
    · split at hchange
      · cases hchange
      · next hnone =>
        cases hchange
        exact hgs.add (by simpa using hnone) htable

theorem WellFormed.openTable (h : d.WellFormed) (ho : d.openTable path key = some d') :
    d'.WellFormed := by
  obtain ⟨root, hroot, ho⟩ := Option.bind_eq_some_iff.1 ho
  obtain ⟨⟨root', sub⟩, hm, ho⟩ := Option.bind_eq_some_iff.1 ho
  cases ho
  suffices hparts : root'.WellFormed ∧ Fields.WellFormed sub from ⟨hparts.1, hparts.2⟩
  refine (h.close hroot).modifyAt (fun b gs gs' sub hgs hchange => ?_) hm
  split at hchange
  · cases hchange
    exact ⟨hgs, Fields.wellFormed_nil⟩
  · next hget =>
    cases hchange
    exact ⟨hgs.erase _, Fields.wellFormed_of_table (hgs.get? hget)⟩
  · cases hchange

theorem WellFormed.openTables (h : d.WellFormed) (ho : d.openTables path key = some d') :
    d'.WellFormed := by
  obtain ⟨root, hroot, ho⟩ := Option.bind_eq_some_iff.1 ho
  obtain ⟨⟨root', u⟩, hm, ho⟩ := Option.bind_eq_some_iff.1 ho
  cases ho
  suffices hparts : root'.WellFormed ∧ True from ⟨hparts.1, Fields.wellFormed_nil⟩
  refine (h.close hroot).modifyAt (P := fun _ => True) (fun b gs gs' u hgs hchange => ?_) hm
  refine ⟨?_, trivial⟩
  split at hchange
  · next hnone =>
    cases hchange
    exact hgs.add hnone (.tables (by simp))
  · cases hchange
    exact hgs
  · cases hchange

theorem WellFormed.insert {v : Value} (h : d.WellFormed) (hv : v.WellFormed)
    (hi : d.insert path key v = some d') : d'.WellFormed := by
  obtain ⟨fields, hfields, hi⟩ := Option.bind_eq_some_iff.1 hi
  cases hi
  exact ⟨h.root, h.fields.insert hv hfields⟩

end Draft

/-! ## Values -/

/-- What a reader reads satisfies a predicate. -/
def Reads {α : Type} (P : α → Prop) (reader : Reader α) : Prop :=
  ∀ t a rest, reader t = some (a, rest) → P a

theorem wellFormed_of_integerOf {negative : Bool} {n : Nat} {v : Value}
    (h : integerOf negative n = some v) : v.WellFormed := by
  unfold integerOf at h
  split at h <;> split at h <;> cases h <;> exact .integer

theorem wellFormed_of_floatOf {negative : Bool} {whole frac : Text} {e : Int} {v : Value}
    (h : floatOf negative whole frac e = some v) : v.WellFormed := by
  unfold floatOf at h
  split at h <;> cases h
  exact .float

theorem reads_basedInteger (base : Nat) (isDigit : Char → Bool) :
    Reads Value.WellFormed (basedInteger base isDigit) := by
  intro t v rest h
  obtain ⟨⟨ds, r⟩, -, h⟩ := Option.bind_eq_some_iff.1 h
  obtain ⟨v', hv, h⟩ := Option.bind_eq_some_iff.1 h
  cases h
  exact wellFormed_of_integerOf hv

theorem reads_decimalNumber : Reads Value.WellFormed decimalNumber := by
  have hfloat : ∀ {negative whole frac e} {r : Text} {v rest},
      (floatOf negative whole frac e).map (·, r) = some (v, rest) → v.WellFormed := by
    intro negative whole frac e r v rest h
    obtain ⟨v', hv, h⟩ := Option.map_eq_some_iff.1 h
    cases h
    exact wellFormed_of_floatOf hv
  intro t v rest h
  obtain ⟨⟨whole, r⟩, -, h⟩ := Option.bind_eq_some_iff.1 h
  simp only at h
  split at h
  · split at h <;> exact hfloat h
  · split at h
    · exact hfloat h
    · obtain ⟨v', hv, h⟩ := Option.map_eq_some_iff.1 h
      cases h
      exact wellFormed_of_integerOf hv

theorem reads_specialNumber : Reads Value.WellFormed specialNumber := by
  intro t v rest h
  simp only [specialNumber] at h
  split at h
  · cases h
    exact .float
  · obtain ⟨r, -, h⟩ := Option.map_eq_some_iff.1 h
    cases h
    exact .float

theorem reads_numberValue : Reads Value.WellFormed numberValue := by
  intro t v rest h
  unfold numberValue at h
  split at h
  · exact reads_basedInteger _ _ _ _ _ h
  · exact reads_basedInteger _ _ _ _ _ h
  · exact reads_basedInteger _ _ _ _ _ h
  · split at h
    · next x hx =>
      cases h
      exact reads_specialNumber _ _ _ hx
    · exact reads_decimalNumber _ _ _ h

theorem reads_scalar : Reads Value.WellFormed scalar := by
  intro t v rest h
  unfold scalar at h
  split at h
  · cases h
  · split at h
    · obtain ⟨x, -, h⟩ := Option.map_eq_some_iff.1 h
      cases h
      exact .string
    · split at h
      · obtain ⟨x, -, h⟩ := Option.map_eq_some_iff.1 h
        cases h
        exact .boolean
      · split at h
        · obtain ⟨x, -, h⟩ := Option.map_eq_some_iff.1 h
          cases h
          exact .boolean
        · split at h
          · cases h
            exact .datetime
          · exact reads_numberValue _ _ _ h

theorem reads_arrayTail {item : Reader Value} (hitem : Reads Value.WellFormed item) (fuel : Nat) :
    Reads (fun vs => ∀ v ∈ vs, v.WellFormed) (arrayTail item fuel) := by
  induction fuel with
  | zero =>
    intro t vs rest h
    cases h
  | succ fuel ih =>
    intro t vs rest h
    rw [arrayTail] at h
    split at h
    · cases h
      simp
    · obtain ⟨⟨v, r⟩, hv, h⟩ := Option.bind_eq_some_iff.1 h
      have hv := hitem _ _ _ hv
      simp only at h
      split at h
      · obtain ⟨⟨vs', r'⟩, hvs, h⟩ := Option.map_eq_some_iff.1 h
        cases h
        simpa using ⟨hv, ih _ _ _ hvs⟩
      · cases h
        simpa using hv
      · cases h

theorem reads_inlineFields {item : Reader Value} (hitem : Reads Value.WellFormed item) (fuel : Nat)
    {fs : Fields} (hfs : fs.WellFormed) : Reads Fields.WellFormed (inlineFields item fuel fs) := by
  induction fuel generalizing fs with
  | zero =>
    intro t fs' rest h
    cases h
  | succ fuel ih =>
    intro t fs' rest h
    rw [inlineFields] at h
    obtain ⟨⟨⟨path, key⟩, r₁⟩, -, h⟩ := Option.bind_eq_some_iff.1 h
    obtain ⟨r₂, -, h⟩ := Option.bind_eq_some_iff.1 h
    obtain ⟨⟨v, r₃⟩, hv, h⟩ := Option.bind_eq_some_iff.1 h
    obtain ⟨fs₁, hinsert, h⟩ := Option.bind_eq_some_iff.1 h
    have hwf := hfs.insert (hitem _ _ _ hv) hinsert
    split at h
    · exact ih hwf _ _ _ h
    · cases h
      exact hwf
    · cases h

theorem reads_value (depth : Nat) : Reads Value.WellFormed (value depth) := by
  induction depth with
  | zero =>
    intro t v rest h
    unfold value at h
    split at h
    · cases h
    · cases h
    · exact reads_scalar _ _ _ h
  | succ depth ih =>
    intro t v rest h
    unfold value at h
    split at h
    · obtain ⟨⟨vs, r⟩, hvs, h⟩ := Option.map_eq_some_iff.1 h
      cases h
      exact .array (reads_arrayTail ih _ _ _ _ hvs)
    · simp only at h
      split at h
      · cases h
        exact Fields.wellFormed_nil.table .inline
      · obtain ⟨⟨fs, r⟩, hfs, h⟩ := Option.map_eq_some_iff.1 h
        cases h
        exact (reads_inlineFields ih _ Fields.wellFormed_nil _ _ _ hfs).table .inline
    · exact reads_scalar _ _ _ h

/-! ## Lines -/

theorem wellFormed_of_header {d d' : Draft} {t rest : Text} (h : d.WellFormed)
    (hh : header d t = some (d', rest)) : d'.WellFormed := by
  unfold header at hh
  split at hh
  all_goals
    obtain ⟨⟨⟨path, key⟩, r₁⟩, -, hh⟩ := Option.bind_eq_some_iff.1 hh
    obtain ⟨r₂, -, hh⟩ := Option.bind_eq_some_iff.1 hh
    obtain ⟨r₃, -, hh⟩ := Option.bind_eq_some_iff.1 hh
    obtain ⟨d₁, hopen, hh⟩ := Option.bind_eq_some_iff.1 hh
    cases hh
  · exact h.openTables hopen
  · exact h.openTable hopen

theorem wellFormed_of_keyLine {d d' : Draft} {t rest : Text} (h : d.WellFormed)
    (hk : keyLine d t = some (d', rest)) : d'.WellFormed := by
  obtain ⟨⟨⟨path, key⟩, r₁⟩, -, hk⟩ := Option.bind_eq_some_iff.1 hk
  obtain ⟨r₂, -, hk⟩ := Option.bind_eq_some_iff.1 hk
  obtain ⟨⟨v, r₃⟩, hv, hk⟩ := Option.bind_eq_some_iff.1 hk
  obtain ⟨r₄, -, hk⟩ := Option.bind_eq_some_iff.1 hk
  obtain ⟨d₁, hinsert, hk⟩ := Option.bind_eq_some_iff.1 hk
  cases hk
  exact h.insert (reads_value _ _ _ _ hv) hinsert

theorem wellFormed_of_lines {fuel : Nat} {d d' : Draft} {t : Text} (h : d.WellFormed)
    (hl : lines fuel d t = some d') : d'.WellFormed := by
  induction fuel generalizing d t with
  | zero => cases hl
  | succ fuel ih =>
    rw [lines] at hl
    split at hl
    · cases hl
      exact h
    · obtain ⟨⟨d₁, r⟩, hd, hl⟩ := Option.bind_eq_some_iff.1 hl
      exact ih (wellFormed_of_header h hd) hl
    · split at hl
      · obtain ⟨r, -, hl⟩ := Option.bind_eq_some_iff.1 hl
        exact ih h hl
      · obtain ⟨⟨d₁, r⟩, hd, hl⟩ := Option.bind_eq_some_iff.1 hl
        exact ih (wellFormed_of_keyLine h hd) hl

/-- No table of a document has a key twice. -/
theorem wellFormed_of_document? {t : Text} {fs : Fields} (h : document? t = some fs) :
    fs.WellFormed := by
  obtain ⟨d, hd, hclose⟩ := Option.bind_eq_some_iff.1 h
  have hempty : Draft.WellFormed {} := ⟨Fields.wellFormed_nil, Fields.wellFormed_nil⟩
  exact (wellFormed_of_lines hempty hd).close hclose

end PageSplice.Toml
