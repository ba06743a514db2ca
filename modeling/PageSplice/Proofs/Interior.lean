import PageSplice.Proofs.Region

/-!
# The interior of a section

What filling a section gives is decided by its first start marker and its first end marker alone
(`fillSection_by_markers`): one of them is missing, or they are out of order, or the text between
them is replaced; the places where the page is cut then lie between two characters (`CutsAt`).
Filling again replaces what was filled in, unless that held an end marker: then all of it from this
marker on stays behind, and the page grows at every run (`fillSection_after`).
-/

namespace PageSplice

open Text

/-! ## Cutting the bytes of a page -/

/-- The bytes of a page up to a position and those from it on are two texts. -/
structure CutsAt (page : Text) (k : Nat) (left right : Text) : Prop where
  in_range : k ≤ (encode page).size
  left_eq : decode? ((encode page).extract 0 k) = some left
  right_eq : decode? ((encode page).extract k (encode page).size) = some right

theorem cutsAt_append (s t : Text) : CutsAt (s ++ t) (byteLength s) s t := by
  have hsize : (encode s).size = byteLength s := size_encode s
  refine ⟨by simp, ?_, ?_⟩
  · rw [encode_append, ByteArray.extract_append_eq_left hsize.symm, decode?_encode]
  · rw [encode_append, ByteArray.size_append, hsize,
      ByteArray.extract_append_eq_right hsize.symm (by rw [hsize]), decode?_encode]

/-- Of two places in a text, the one that comes first in characters comes first in bytes. -/
theorem byteLength_lt_byteLength_iff {s t x y : Text} (h : s ++ x = t ++ y) :
    byteLength s < byteLength t ↔ s.length < t.length := by
  rcases List.append_eq_append_iff.1 h with ⟨z, rfl, -⟩ | ⟨z, rfl, -⟩
  · cases z with
    | nil => simp
    | cons c z =>
      have := c.utf8Size_pos
      simp only [byteLength_append, byteLength_cons, List.length_append, List.length_cons]
      omega
  · simp only [byteLength_append, List.length_append]
    omega

/-! ## The markers decide -/

/-- The first start marker of a section in a page and its first end marker, in any order. -/
structure FirstMarkers (page name : Text) (start stop : Occurrence) : Prop where
  start_earliest : IsEarliest (IsComment name) page start
  stop_earliest : IsEarliest (IsComment ('/' :: name)) page stop

theorem firstMarkers_iff {page name : Text} {start stop : Occurrence} (hn : IsSectionName name) :
    FirstMarkers page name start stop ↔ firstOccurrence? (startMarker name) page = some start ∧
      firstOccurrence? (endMarker name) page = some stop := by
  rw [startMarker, endMarker,
    firstOccurrence?_eq_some_iff (commentOf_recognises (isLabel_of_isSectionName hn)),
    firstOccurrence?_eq_some_iff (commentOf_recognises (isLabel_slash name))]
  exact ⟨fun ⟨hstart, hstop⟩ => ⟨hstart, hstop⟩, fun ⟨hstart, hstop⟩ => ⟨hstart, hstop⟩⟩

theorem writtenMarker_ne_slash (name : Text) : writtenMarker name ≠ writtenMarker ('/' :: name) := by
  intro h
  have hlen : ("<!-- ".toList ++ name ++ " -->".toList).length =
      ("<!-- ".toList ++ '/' :: name ++ " -->".toList).length := congrArg List.length h
  simp only [List.length_append, List.length_cons] at hlen
  omega

section
variable {page name text : Text}

theorem fillSection_eq_noStart_iff :
    fillSection page name text = .error (.noDelimiter (writtenMarker name)) ↔
      firstOccurrence? (startMarker name) page = none := by
  have hne := (writtenMarker_ne_slash name).symm
  unfold fillSection
  split
  · next hstart => simp [hstart]
  · next start hstart =>
    split
    · simp [hstart, hne]
    · split <;> simp [hstart]

theorem fillSection_eq_noStop_iff :
    fillSection page name text = .error (.noDelimiter (writtenMarker ('/' :: name))) ↔
      firstOccurrence? (startMarker name) page ≠ none ∧
        firstOccurrence? (endMarker name) page = none := by
  have hne := writtenMarker_ne_slash name
  unfold fillSection
  split
  · next hstart => simp [hstart, hne]
  · next start hstart =>
    split
    · next hstop => simp [hstart, hstop]
    · next stop hstop => split <;> simp [hstop]

theorem fillSection_eq_endBeforeStart_iff :
    fillSection page name text = .error (.endBeforeStart name) ↔
      ∃ start stop, (firstOccurrence? (startMarker name) page = some start ∧
        firstOccurrence? (endMarker name) page = some stop) ∧ stop.start < start.stop := by
  unfold fillSection
  split
  · next hstart => simp [hstart]
  · next start hstart =>
    split
    · next hstop => simp [hstop]
    · next stop hstop =>
      constructor
      · intro h
        split at h
        · next hlt => exact ⟨start, stop, ⟨hstart, hstop⟩, hlt⟩
        · cases h
      · rintro ⟨start', stop', ⟨hstart', hstop'⟩, hlt⟩
        obtain rfl := Option.some.inj (hstart.symm.trans hstart')
        obtain rfl := Option.some.inj (hstop.symm.trans hstop')
        rw [if_pos hlt]

theorem fillSection_eq_ok_iff_exists {filled : Text} :
    fillSection page name text = .ok filled ↔
      ∃ start stop, (firstOccurrence? (startMarker name) page = some start ∧
        firstOccurrence? (endMarker name) page = some stop) ∧ start.stop ≤ stop.start ∧
          filled = start.through ++ text ++ stop.onward := by
  rw [fillSection_eq_ok_iff]
  constructor
  · rintro ⟨r, rfl⟩
    exact ⟨r.start, r.stop, ⟨r.start_first, r.stop_first⟩, r.ordered, rfl⟩
  · rintro ⟨start, stop, ⟨hstart, hstop⟩, hle, rfl⟩
    exact ⟨⟨start, stop, hstart, hstop, hle⟩, rfl⟩

/-- A section is left unfilled for one of three reasons. -/
theorem fault_of_fillSection {fault : PageFault} (h : fillSection page name text = .error fault) :
    fault = .noDelimiter (writtenMarker name) ∨ fault = .noDelimiter (writtenMarker ('/' :: name)) ∨
      fault = .endBeforeStart name := by
  unfold fillSection at h
  split at h
  · exact .inl (Except.error.inj h).symm
  · split at h
    · exact .inr (.inl (Except.error.inj h).symm)
    · split at h
      · exact .inr (.inr (Except.error.inj h).symm)
      · cases h

end

namespace FirstMarkers

variable {page name : Text} {start stop : Occurrence}

theorem through_append_after (h : FirstMarkers page name start stop) :
    start.through ++ start.after = page :=
  h.start_earliest.text_eq

theorem before_append_onward (h : FirstMarkers page name start stop) :
    stop.before ++ stop.onward = page := by
  rw [← h.stop_earliest.text_eq, Occurrence.text, List.append_assoc]
  rfl

/-- The places where a page is cut to fill a section. -/
theorem cuts (h : FirstMarkers page name start stop) :
    CutsAt page (byteLength start.through) start.through start.after ∧
      CutsAt page (byteLength stop.before) stop.before stop.onward ∧
      (byteLength stop.before < byteLength start.through ↔ stop.start < start.stop) := by
  have hstart := h.through_append_after
  have hstop := h.before_append_onward
  refine ⟨?_, ?_, ?_⟩
  · have hcut := cutsAt_append start.through start.after
    rwa [hstart] at hcut
  · have hcut := cutsAt_append stop.before stop.onward
    rwa [hstop] at hcut
  · rw [byteLength_lt_byteLength_iff (hstop.trans hstart.symm), Occurrence.through,
      List.length_append]
    rfl

end FirstMarkers

/-- Filling a section fails for want of a start marker, else for want of an end marker, else because
the first end marker begins before the first start marker ends; else it puts the text between the
two.  Both cuts are places between characters, and the parts add up to the length of the result. -/
theorem fillSection_by_markers {page name text : Text} (hn : IsSectionName name) :
    let noStart := PageFault.noDelimiter ("<!-- ".toList ++ name ++ " -->".toList)
    let noStop := PageFault.noDelimiter ("<!-- /".toList ++ name ++ " -->".toList)
    let result := fillSection page name text
    (result = .error noStart ↔ ¬ Holds name page) ∧
    (result = .error noStop ↔ Holds name page ∧ ¬ Holds ('/' :: name) page) ∧
    (result = .error (.endBeforeStart name) ↔
      ∃ start stop, FirstMarkers page name start stop ∧ stop.start < start.stop) ∧
    (∀ filled, result = .ok filled ↔
      ∃ start stop, FirstMarkers page name start stop ∧ start.stop ≤ stop.start ∧
        filled = start.through ++ text ++ stop.onward) ∧
    (noStart ≠ noStop ∧ ∀ fault, result = .error fault →
      fault = noStart ∨ fault = noStop ∨ fault = .endBeforeStart name) ∧
    ∀ start stop, FirstMarkers page name start stop →
      CutsAt page (byteLength start.through) start.through start.after ∧
      CutsAt page (byteLength stop.before) stop.before stop.onward ∧
      (byteLength stop.before < byteLength start.through ↔ stop.start < start.stop) ∧
      byteLength (start.through ++ text ++ stop.onward) =
        byteLength start.through + byteLength text +
          ((encode page).size - byteLength stop.before) := by
  intro noStart noStop result
  have hl := isLabel_of_isSectionName hn
  have hl' := isLabel_slash name
  refine ⟨?_, ?_, ?_, fun filled => ?_, ⟨?_, fun fault => fault_of_fillSection⟩, ?_⟩
  · rw [← firstOccurrence?_eq_none_iff_not_holds hl]
    exact fillSection_eq_noStart_iff
  · rw [← firstOccurrence?_eq_none_iff_not_holds hl', ← Classical.not_not (a := Holds name page),
      ← firstOccurrence?_eq_none_iff_not_holds hl]
    exact fillSection_eq_noStop_iff
  · simp only [firstMarkers_iff hn]
    exact fillSection_eq_endBeforeStart_iff
  · simp only [firstMarkers_iff hn]
    exact fillSection_eq_ok_iff_exists
  · intro h
    exact writtenMarker_ne_slash name (PageFault.noDelimiter.inj h)
  · intro start stop h
    obtain ⟨hleft, hright, hlt⟩ := h.cuts
    refine ⟨hleft, hright, hlt, ?_⟩
    have hsize : (encode page).size = byteLength stop.before + byteLength stop.onward := by
      rw [← h.before_append_onward, size_encode, byteLength_append]
    rw [byteLength_append, byteLength_append]
    omega

/-- A name may hold comment delimiters: here the end marker begins inside the start marker. -/
theorem fillSection_by_markers_overlap :
    let name := "A--><!--/A".toList
    let page := "é<!--A--><!--/A--><!--/A-->".toList
    IsSectionName name ∧ fillSection page name "new".toList = .error (.endBeforeStart name) ∧
      ∃ start stop, FirstMarkers page name start stop ∧ stop.start < start.stop := by
  intro name page
  have hn : IsSectionName name := by decide
  have hcrossed : fillSection page name "new".toList = .error (.endBeforeStart name) := by rfl
  exact ⟨hn, hcrossed, (fillSection_by_markers hn).2.2.1.1 hcrossed⟩

/-! ## Filling again -/

namespace Region

variable {page name f : Text} (r : Region page name)

/-- The page in which the section holds a text and behind it a rest `n` times over. -/
def piled (f rest : Text) (n : Nat) : Text := r.filled (f ++ (List.replicate n rest).flatten)

theorem piled_zero (f rest : Text) : r.piled f rest 0 = r.filled f := by simp [piled]

theorem length_piled_lt {rest : Text} (hrest : rest ≠ []) (n : Nat) :
    (r.piled f rest n).length < (r.piled f rest (n + 1)).length := by
  have hpos := List.length_pos_iff.2 hrest
  simp only [piled, filled, List.length_append, List.replicate_succ, List.flatten_cons]
  omega

variable {o : Occurrence} (hn : IsSectionName name) (hp : IsPlain name)
  (ho : firstOccurrence? (endMarker name) f = some o)
include hn hp ho

/-- One more run leaves one more rest. -/
theorem fillSection_piled (g : Text) (n : Nat) :
    fillSection (r.piled f o.onward n) name g = .ok (r.piled (g ++ o.onward) o.onward n) := by
  have hfirst := firstOccurrence?_followedBy (isLabel_slash name) (not_mem_slash hp.2) ho
    (List.replicate n o.onward).flatten
  rw [piled, r.fillSection_filled hn hp.2 (seam_of_opened (isPlain_slash hp) r.head?_tail),
    endMarker, hfirst]
  simp [piled, Occurrence.followedBy, Occurrence.onward]

theorem fillSections_piled (k n : Nat) :
    fillSections (r.piled f o.onward k) (List.replicate n ⟨name, f, hn⟩) =
      .ok (r.piled f o.onward (k + n)) := by
  induction n generalizing k with
  | zero => rfl
  | succ n ih =>
    have hstep : r.piled (f ++ o.onward) o.onward k = r.piled f o.onward (k + 1) := by
      simp [piled, List.replicate_succ]
    rw [List.replicate_succ, fillSections_cons, r.fillSection_piled hn hp ho, hstep]
    exact (ih (k + 1)).trans (by rw [Nat.add_right_comm, Nat.add_assoc])

end Region

/-- What a section was filled with leaves no trace when it is filled again, unless it holds an end
marker: then everything from the first one on stays behind what is filled in, and each run makes the
page longer.  Start markers in it make no difference. -/
theorem fillSection_after {page page' name f : Text} (hn : IsSectionName name) (hp : IsPlain name)
    (h : fillSection page name f = .ok page') :
    ∃ r : Region page name, page' = r.head ++ f ++ r.tail ∧
      (∀ g, fillSection page name g = .ok (r.head ++ g ++ r.tail)) ∧
      (¬ Holds ('/' :: name) f → fillSection page' name f = .ok page' ∧
        ∀ g, fillSection page' name g = .ok (r.head ++ g ++ r.tail)) ∧
      ∀ o, IsEarliest (IsComment ('/' :: name)) f o →
        (∀ g, fillSection page' name g = .ok (r.head ++ g ++ f.drop o.start ++ r.tail)) ∧
        ∀ n, fillSections page' (List.replicate n ⟨name, f, hn⟩) = .ok (r.piled f o.onward n) ∧
          (r.piled f o.onward n).length < (r.piled f o.onward (n + 1)).length := by
  obtain ⟨r, rfl⟩ := fillSection_eq_ok_iff.1 h
  have hpage : ∀ g, fillSection page name g = .ok (r.filled g) :=
    fun g => fillSection_eq_ok_iff.2 ⟨r, rfl⟩
  refine ⟨r, rfl, hpage, ?_, ?_⟩
  · intro hno
    have hagain := r.fillSection_filled_of_not_begins hn hp.2
      fun hb => hno ((begins_iff_holds (isPlain_slash hp)).1 hb)
    exact ⟨hagain f, hagain⟩
  · intro o ho
    have hfirst := (firstOccurrence?_eq_some_iff (commentOf_recognises (isLabel_slash name))).2 ho
    refine ⟨fun g => ?_, fun n => ⟨?_, ?_⟩⟩
    · have hdrop : f.drop o.start = o.onward := by
        rw [← ho.text_eq, Occurrence.text, Occurrence.start, List.append_assoc, List.drop_left]
        rfl
      have hstep := r.fillSection_piled hn hp hfirst g 0
      rw [r.piled_zero, r.piled_zero] at hstep
      rw [hstep, hdrop]
      simp only [Region.filled, List.append_assoc]
    · have hruns := r.fillSections_piled hn hp hfirst 0 n
      rwa [r.piled_zero, Nat.zero_add] at hruns
    · have hrest : o.onward ≠ [] := List.append_ne_nil_of_left_ne_nil ho.belongs.ne_nil _
      exact r.length_piled_lt hrest n

/-- A fragment with the section's own markers: its start marker is harmless, and what it holds from its
end marker on piles up. -/
theorem fillSection_after_end_marker :
    let name := "A".toList
    let page := "<p><!--A-->old<!-- /A --></p>".toList
    let f := "x<!--A-->y<!--/A-->z".toList
    let page' := "<p><!--A-->x<!--A-->y<!--/A-->z<!-- /A --></p>".toList
    let rest := "<!--/A-->z".toList
    ∃ hn : IsSectionName name, IsPlain name ∧ fillSection page name f = .ok page' ∧
      ∃ r : Region page name, page' = r.head ++ f ++ r.tail ∧
        fillSection page' name "new".toList = .ok (r.head ++ "new".toList ++ rest ++ r.tail) ∧
        ∀ n, fillSections page' (List.replicate n ⟨name, f, hn⟩) = .ok (r.piled f rest n) ∧
          (r.piled f rest n).length < (r.piled f rest (n + 1)).length := by
  intro name page f page' rest
  have hn : IsSectionName name := by decide
  have hp : IsPlain name := by decide
  have hfill : fillSection page name f = .ok page' := by rfl
  have ho : IsEarliest (IsComment ('/' :: name)) f
      ⟨"x<!--A-->y".toList, "<!--/A-->".toList, "z".toList⟩ :=
    isEarliest_of_firstOccurrence? (commentOf_recognises (isLabel_slash name)) (by rfl)
  obtain ⟨r, hr, -, -, hagain⟩ := fillSection_after hn hp hfill
  obtain ⟨hnew, hruns⟩ := hagain _ ho
  exact ⟨hn, hp, hfill, r, hr, hnew _, hruns⟩

end PageSplice
