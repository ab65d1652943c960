/-
What is found in a text and what becomes of it. The candidates of the enabled patterns are sorted and
merged; the selected spans are the connected components of overlap among the candidates, each named
after a most specific candidate in it, and redaction replaces exactly these spans. The result does
not depend on the order in which the patterns were tried.
-/
import DataPlane.Secrets.Scanner

namespace DataPlane.Secrets

/-! ## Selected spans -/

theorem span_absorb (current candidate : MatchCandidate) :
    (current.absorb candidate).span = current.span.join candidate.span := by
  simp only [MatchCandidate.absorb, MatchCandidate.span, Span.join, Span.mk.injEq, true_and]
  split
  · rename_i h; exact (max_eq_right h.le).symm
  · rename_i h; exact (max_eq_left (not_lt.mp h)).symm

theorem spans_selectFrom : ∀ (candidates : List MatchCandidate) (current : MatchCandidate),
    (selectFrom current candidates).map (·.span) = Span.mergeFrom current.span (candidates.map (·.span))
  | [], _ => rfl
  | candidate :: candidates, current => by
    unfold selectFrom
    rw [List.map_cons, Span.mergeFrom, ← span_absorb, ← spans_selectFrom, ← spans_selectFrom]
    show _ = if current.stop ≤ candidate.start then _ else _
    split <;> rfl

/-- The merging loop merges spans. -/
theorem spans_select (candidates : List MatchCandidate) :
    (select candidates).map (·.span) = Span.merge (candidates.map (·.span)) := by
  cases candidates with
  | nil => rfl
  | cons candidate candidates => exact spans_selectFrom candidates candidate

instance : Std.TransCmp MatchCandidate.cmp :=
  inferInstanceAs (Std.TransCmp (compareLex (compareOn MatchCandidate.start)
    (compareLex (compareOn fun c : MatchCandidate => c.name.specificity)
      (compareLex (fun l r : MatchCandidate => compareOn (fun c : MatchCandidate => c.stop - c.start) r l)
        (compareOn fun c : MatchCandidate => c.name.text)))))

theorem pairwise_sortCandidates (candidates : List MatchCandidate) :
    (sortCandidates candidates).Pairwise fun l r => (l.cmp r).isLE = true := by
  have : Std.Total fun l r : MatchCandidate => (l.cmp r).isLE = true := by
    refine ⟨fun l r => ?_⟩
    cases h : (l.cmp r).isLE with
    | true => exact .inl rfl
    | false =>
      refine .inr (Std.OrientedCmp.isLE_of_isGE ?_)
      rcases hc : l.cmp r with _ | _ | _ <;> simp [hc] at h ⊢
  have : IsTrans MatchCandidate fun l r => (l.cmp r).isLE = true := ⟨fun _ _ _ => Std.TransCmp.isLE_trans⟩
  exact List.pairwise_insertionSort _ candidates

theorem sorted_sortCandidates (candidates : List MatchCandidate) :
    Span.Sorted ((sortCandidates candidates).map (·.span)) := by
  unfold Span.Sorted
  rw [List.pairwise_map]
  refine (pairwise_sortCandidates candidates).imp ?_
  intro l r h
  rcases Ordering.isLE_then_iff_or.mp h with hlt | ⟨heq, -⟩
  · exact (Nat.compare_eq_lt.mp hlt).le
  · exact (Nat.compare_eq_eq.mp heq).le

theorem mem_sortCandidates {candidates : List MatchCandidate} {candidate : MatchCandidate} :
    candidate ∈ sortCandidates candidates ↔ candidate ∈ candidates := List.mem_insertionSort _

/-! ## The name of a selected span -/

theorem absorb_name (current candidate : MatchCandidate) :
    ((current.absorb candidate).name = current.name ∧ (current.absorb candidate).text = current.text) ∨
      ((current.absorb candidate).name = candidate.name ∧ (current.absorb candidate).text = candidate.text) := by
  unfold MatchCandidate.absorb
  dsimp only
  split
  · exact .inr ⟨rfl, rfl⟩
  · exact .inl ⟨rfl, rfl⟩

theorem absorb_specificity (current candidate : MatchCandidate) :
    (current.absorb candidate).name.specificity ≤ current.name.specificity ∧
      (current.absorb candidate).name.specificity ≤ candidate.name.specificity := by
  unfold MatchCandidate.absorb
  dsimp only
  split
  · rename_i htakes
    simp only [Bool.or_eq_true, decide_eq_true_eq, Bool.and_eq_true, beq_iff_eq] at htakes
    omega
  · rename_i htakes
    simp only [Bool.or_eq_true, decide_eq_true_eq, Bool.and_eq_true, beq_iff_eq, not_or] at htakes
    omega

theorem sorted_absorb {current candidate : MatchCandidate} {candidates : List MatchCandidate}
    (h : Span.Sorted ((current :: candidate :: candidates).map (·.span))) :
    Span.Sorted ((current.absorb candidate :: candidates).map (·.span)) := by
  rw [List.map_cons, span_absorb]
  exact Span.sorted_join h

theorem nonempty_absorb {current candidate : MatchCandidate} (h : current.start < current.stop) :
    (current.absorb candidate).start < (current.absorb candidate).stop := by
  have hspan := congrArg Span.stop (span_absorb current candidate)
  have hle : current.stop ≤ (current.absorb candidate).stop := (le_max_left _ _).trans hspan.ge
  exact h.trans_le hle

/-- A selected candidate has the name and the text of a candidate in its span. -/
theorem selectFrom_name : ∀ {candidates : List MatchCandidate} {current : MatchCandidate},
    Span.Sorted ((current :: candidates).map (·.span)) → ∀ s ∈ selectFrom current candidates,
      ∃ c ∈ current :: candidates, c.span.Inside s.span ∧ c.name = s.name ∧ c.text = s.text
  | [], current, _, s, hs => ⟨s, hs, .refl _, rfl, rfl⟩
  | candidate :: candidates, current, hsorted, s, hs => by
    unfold selectFrom at hs
    split at hs
    · rcases List.mem_cons.mp hs with rfl | hs
      · exact ⟨s, List.mem_cons_self .., .refl _, rfl, rfl⟩
      · obtain ⟨c, hc, h⟩ := selectFrom_name (List.pairwise_cons.mp hsorted).2 s hs
        exact ⟨c, List.mem_cons_of_mem _ hc, h⟩
    · obtain ⟨c, hc, hin, hname, htext⟩ := selectFrom_name (sorted_absorb hsorted) s hs
      rcases List.mem_cons.mp hc with rfl | hc
      · -- the merged candidate has the name of one of the two
        have hstart : current.span.start ≤ candidate.span.start :=
          (List.pairwise_cons.mp hsorted).1 _ (List.mem_cons_self ..)
        rw [span_absorb] at hin
        rcases absorb_name current candidate with ⟨hn, ht⟩ | ⟨hn, ht⟩
        · exact ⟨current, List.mem_cons_self .., (Span.inside_join_left ..).trans hin, hn ▸ hname, ht ▸ htext⟩
        · exact ⟨candidate, List.mem_cons_of_mem _ (List.mem_cons_self ..),
            (Span.inside_join_right hstart).trans hin, hn ▸ hname, ht ▸ htext⟩
      · exact ⟨c, List.mem_cons_of_mem _ (List.mem_cons_of_mem _ hc), hin, hname, htext⟩

/-- No candidate in a selected span is more specific than its name. -/
theorem selectFrom_specificity : ∀ {candidates : List MatchCandidate} {current : MatchCandidate},
    Span.Sorted ((current :: candidates).map (·.span)) → (∀ c ∈ current :: candidates, c.start < c.stop) →
      ∀ s ∈ selectFrom current candidates, ∀ d ∈ current :: candidates, d.span.Inside s.span →
        s.name.specificity ≤ d.name.specificity
  | [], current, _, _, s, hs, d, hd, _ => by
    rw [List.mem_singleton.mp hs, List.mem_singleton.mp hd]
  | candidate :: candidates, current, hsorted, hne, s, hs, d, hd, hin => by
    have hafter : ∀ e ∈ candidate :: candidates, candidate.start ≤ e.start := by
      intro e he
      rcases List.mem_cons.mp he with rfl | he
      · exact le_rfl
      · exact (List.pairwise_cons.mp (List.pairwise_cons.mp hsorted).2).1 _ (List.mem_map_of_mem he)
    have hempty : d.start < d.stop := hne d hd
    unfold selectFrom at hs
    split at hs
    next hgap =>
      rcases List.mem_cons.mp hs with rfl | hlater
      · rcases List.mem_cons.mp hd with rfl | hd
        · exact le_rfl
        · -- a later candidate starts where this span has ended
          have hstart := hafter d hd
          have hstop : d.stop ≤ s.stop := hin.2
          omega
      · rcases List.mem_cons.mp hd with rfl | hd
        · have hs' : s.span ∈ Span.mergeFrom candidate.span (candidates.map (·.span)) := by
            rw [← spans_selectFrom]
            exact List.mem_map_of_mem hlater
          have hstart : candidate.start ≤ s.start := Span.start_le_of_mem_mergeFrom (List.pairwise_cons.mp hsorted).2 hs'
          have hle : s.start ≤ d.start := hin.1
          omega
        · exact selectFrom_specificity (List.pairwise_cons.mp hsorted).2 (List.forall_mem_cons.mp hne).2 s hlater d hd hin
    next hgap =>
      have hjoin := sorted_absorb hsorted
      obtain ⟨hcurrent, hrest⟩ := List.forall_mem_cons.mp hne
      have hnonempty : ∀ c ∈ current.absorb candidate :: candidates, c.start < c.stop :=
        List.forall_mem_cons.mpr ⟨nonempty_absorb hcurrent, (List.forall_mem_cons.mp hrest).2⟩
      have ih := selectFrom_specificity hjoin hnonempty s hs
      have hs' : s.span ∈ Span.merge ((current.absorb candidate :: candidates).map (·.span)) := by
        rw [← spans_select]
        exact List.mem_map_of_mem hs
      -- a part of the merged candidate in this span brings the whole of it in
      have hpart : d.span.Inside (current.absorb candidate).span →
          s.name.specificity ≤ (current.absorb candidate).name.specificity := fun hd' =>
        ih _ (List.mem_cons_self ..) (Span.inside_of_part hjoin hs' (List.mem_cons_self ..) hempty hd' hin)
      obtain ⟨hleft, hright⟩ := absorb_specificity current candidate
      rcases List.mem_cons.mp hd with rfl | hd
      · exact (hpart (by rw [span_absorb]; exact Span.inside_join_left ..)).trans hleft
      rcases List.mem_cons.mp hd with rfl | hd
      · have hstart : current.span.start ≤ d.span.start := (List.pairwise_cons.mp hsorted).1 _ (List.mem_cons_self ..)
        exact (hpart (by rw [span_absorb]; exact Span.inside_join_right hstart)).trans hright
      · exact ih d (List.mem_cons_of_mem _ hd) hin

/-- A selected candidate is named after a most specific one in its span. -/
theorem select_name {candidates : List MatchCandidate} (hsorted : Span.Sorted (candidates.map (·.span)))
    (hne : ∀ c ∈ candidates, c.start < c.stop) : ∀ s ∈ select candidates,
      ∃ c ∈ candidates, c.span.Inside s.span ∧ c.name = s.name ∧ c.text = s.text ∧
        ∀ d ∈ candidates, d.span.Inside s.span → c.name.specificity ≤ d.name.specificity := by
  cases candidates with
  | nil => intro s hs; cases hs
  | cons current candidates =>
    intro s hs
    obtain ⟨c, hc, hin, hname, htext⟩ := selectFrom_name hsorted s hs
    refine ⟨c, hc, hin, hname, htext, fun d hd hd' => ?_⟩
    rw [hname]
    exact selectFrom_specificity hsorted hne s hs d hd hd'

/-! ## Redaction -/

/-- Redaction from a cursor replaces the selected spans in what follows it. -/
theorem replaced_redactFrom (redactionText : List Char) {text : List Char} : ∀ {chosen : List MatchCandidate}
    {before after : List Char}, text = before ++ after → (chosen.map (·.span)).Pairwise Span.Apart →
      (∀ s ∈ chosen, Utf8.byteLength before ≤ s.start ∧ s.start < s.stop ∧ Utf8.Boundary text s.start ∧
        Utf8.Boundary text s.stop) →
      Utf8.Replaced redactionText (Utf8.byteLength before) (chosen.map (·.span)) after
        (redactFrom redactionText text (Utf8.byteLength before) chosen)
  | [], before, after, htext, _, _ => by
    rw [redactFrom, htext, Utf8.dropBytes_append]
    exact .rest _ _
  | s :: chosen, before, after, htext, hapart, hplaced => by
    obtain ⟨⟨hle, hlt, hstart, hstop⟩, hrest⟩ := List.forall_mem_cons.mp hplaced
    subst htext
    obtain ⟨gap, after, rfl, hgap⟩ := hstart.between hle
    rw [← List.append_assoc] at hstop
    obtain ⟨piece, after, rfl, hpiece⟩ := hstop.between (by omega)
    have hne : piece ≠ [] := by
      rintro rfl
      rw [List.append_nil] at hpiece
      omega
    obtain ⟨hfirst, hapart⟩ := List.pairwise_cons.mp hapart
    have hsplit : before ++ (gap ++ (piece ++ after)) = (before ++ gap ++ piece) ++ after := by simp
    have hplaced' : ∀ t ∈ chosen, Utf8.byteLength (before ++ gap ++ piece) ≤ t.start ∧ t.start < t.stop ∧
        Utf8.Boundary (before ++ (gap ++ (piece ++ after))) t.start ∧
        Utf8.Boundary (before ++ (gap ++ (piece ++ after))) t.stop := by
      intro t ht
      obtain ⟨-, hlt', hb, hb'⟩ := hrest t ht
      have hnext : s.stop ≤ t.start := hfirst _ (List.mem_map_of_mem ht)
      exact ⟨by omega, hlt', hb, hb'⟩
    have htail := replaced_redactFrom redactionText hsplit hapart hplaced'
    have hspan : s.span = ⟨Utf8.byteLength before + Utf8.byteLength gap,
        Utf8.byteLength before + Utf8.byteLength gap + Utf8.byteLength piece⟩ := by
      rw [MatchCandidate.span, ← hgap, ← hpiece, Utf8.byteLength_append, Utf8.byteLength_append, Utf8.byteLength_append]
    have hout : redactFrom redactionText (before ++ (gap ++ (piece ++ after))) (Utf8.byteLength before) (s :: chosen) =
        gap ++ (redactionText ++ redactFrom redactionText (before ++ (gap ++ (piece ++ after)))
          (Utf8.byteLength (before ++ gap ++ piece)) chosen) := by
      rw [redactFrom, ← hgap, ← hpiece, Utf8.slice_append]
    rw [List.map_cons, hspan, hout]
    refine .piece gap piece hne ?_
    rw [← Utf8.byteLength_append, ← Utf8.byteLength_append]
    exact htail

/-! ## Exactness -/

/-- A non-empty span between characters of the text. -/
structure Placed (text : List Char) (s : Span Nat) : Prop where
  nonempty : s.start < s.stop
  start : Utf8.Boundary text s.start
  stop : Utf8.Boundary text s.stop

/-- The part of a match that becomes a candidate: the capture group of a capture pattern, else all. -/
def PatternName.matched (name : PatternName) (found : Regex.Found) : Option (Span Nat) :=
  if name.isCapture then found.group else some found.whole

/-- The enabled patterns match non-empty pieces of the text. -/
def WellPlaced (patterns : Patterns) (config : SecretsDetectionConfig) (text : List Char) : Prop :=
  ∀ name, config.isEnabled name = true → ∀ found ∈ patterns.findIter name text, ∀ s ∈ name.matched found, Placed text s

theorem mem_collectCandidates {patterns : Patterns} {config : SecretsDetectionConfig} {text : List Char}
    {candidate : MatchCandidate} : candidate ∈ collectCandidates patterns config text ↔
      ∃ name, config.isEnabled name = true ∧ candidate ∈ patternCandidates patterns text name := by
  unfold collectCandidates
  rw [List.mem_flatMap]
  constructor
  · rintro ⟨name, -, h⟩
    split at h
    · exact ⟨name, ‹_›, h⟩
    · cases h
  · rintro ⟨name, henabled, h⟩
    refine ⟨name, patterns.complete.mem_iff.mpr (by cases name <;> decide), ?_⟩
    rw [if_pos henabled]
    exact h

/-- The candidates of a pattern are its matches, those of a capture pattern only where nothing of the kind follows the
group. -/
theorem mem_patternCandidates {patterns : Patterns} {text : List Char} {name : PatternName}
    {candidate : MatchCandidate} : candidate ∈ patternCandidates patterns text name ↔
      ∃ found ∈ patterns.findIter name text, ∃ s, name.matched found = some s ∧
        (name.isCapture = true → isBase64BoundaryChar (Utf8.dropBytes s.stop text).head? = false) ∧
        candidate = .of name text s := by
  unfold patternCandidates PatternName.matched
  dsimp only
  by_cases hcapture : name.isCapture = true
  · simp only [if_pos hcapture, List.mem_filterMap]
    constructor
    · rintro ⟨found, hfound, h⟩
      split at h
      · cases h
      · rename_i s hs
        split at h
        · cases h
        · rename_i hnext
          exact ⟨found, hfound, s, hs, fun _ => Bool.eq_false_of_not_eq_true hnext, (Option.some.inj h).symm⟩
    · rintro ⟨found, hfound, s, hs, hnext, rfl⟩
      refine ⟨found, hfound, ?_⟩
      rw [hs]
      dsimp only
      rw [hnext hcapture]
      rfl
  · simp only [if_neg hcapture, List.mem_map]
    constructor
    · rintro ⟨found, hfound, rfl⟩
      exact ⟨found, hfound, found.whole, rfl, fun h => absurd h hcapture, rfl⟩
    · rintro ⟨found, hfound, s, hs, -, rfl⟩
      cases hs
      exact ⟨found, hfound, rfl⟩

theorem placed_collectCandidates {patterns : Patterns} {config : SecretsDetectionConfig} {text : List Char}
    (h : WellPlaced patterns config text) : ∀ c ∈ collectCandidates patterns config text, Placed text c.span := by
  intro c hc
  obtain ⟨name, henabled, hc⟩ := mem_collectCandidates.mp hc
  obtain ⟨found, hfound, s, hs, -, rfl⟩ := mem_patternCandidates.mp hc
  exact h name henabled found hfound s hs

/-- Every candidate lies in a selected span. -/
theorem inside_selected {patterns : Patterns} {config : SecretsDetectionConfig} {text : List Char} {c : MatchCandidate}
    (hc : c ∈ collectCandidates patterns config text) : ∃ s ∈ selected patterns config text, c.span.Inside s.span := by
  have hc' : c.span ∈ (sortCandidates (collectCandidates patterns config text)).map (·.span) :=
    List.mem_map_of_mem (mem_sortCandidates.mpr hc)
  obtain ⟨s, hs, hin⟩ := Span.covered_merge (sorted_sortCandidates _) _ hc'
  rw [← spans_select] at hs
  obtain ⟨t, ht, rfl⟩ := List.mem_map.mp hs
  exact ⟨t, ht, hin⟩

/-- The points of the selected spans are those of the candidates. -/
theorem contains_selected (patterns : Patterns) (config : SecretsDetectionConfig) (text : List Char) (x : Nat) :
    (∃ s ∈ selected patterns config text, s.span.Contains x) ↔
      ∃ c ∈ collectCandidates patterns config text, c.span.Contains x := by
  have hpoints := Span.contains_merge (sorted_sortCandidates (collectCandidates patterns config text)) x
  rw [← spans_select] at hpoints
  simpa [selected, mem_sortCandidates] using hpoints

section Exact

variable {patterns : Patterns} {config : SecretsDetectionConfig} {text : List Char}

theorem spans_selected : (selected patterns config text).map (·.span) =
    Span.merge ((sortCandidates (collectCandidates patterns config text)).map (·.span)) := spans_select _

theorem mem_spans_sortCandidates {candidates : List MatchCandidate} {s : Span Nat} :
    s ∈ (sortCandidates candidates).map (·.span) ↔ s ∈ candidates.map (·.span) := by
  simp [mem_sortCandidates]

theorem apart_selected : ((selected patterns config text).map (·.span)).Pairwise Span.Apart := by
  rw [spans_selected]
  exact Span.apart_merge (sorted_sortCandidates _)

theorem placed_sortCandidates (h : WellPlaced patterns config text) :
    ∀ s ∈ (sortCandidates (collectCandidates patterns config text)).map (·.span), Placed text s := by
  intro s hs
  obtain ⟨c, hc, rfl⟩ := List.mem_map.mp (mem_spans_sortCandidates.mp hs)
  exact placed_collectCandidates h c hc

theorem placed_selected (h : WellPlaced patterns config text) :
    ∀ s ∈ selected patterns config text, Placed text s.span := by
  have hgiven := placed_sortCandidates h
  intro s hs
  have hs' := List.mem_map_of_mem (f := MatchCandidate.span) hs
  rw [spans_selected] at hs'
  obtain ⟨hstart, hstop⟩ := Span.ends_merge (fun s hs => ⟨(hgiven s hs).start, (hgiven s hs).stop⟩) _ hs'
  exact ⟨Span.nonempty_merge (fun s hs => (hgiven s hs).nonempty) _ hs', hstart, hstop⟩

/-- The selected spans are the components of overlap of the candidates. -/
theorem linked_iff_selected (h : WellPlaced patterns config text) {c d : MatchCandidate}
    (hc : c ∈ collectCandidates patterns config text) (hd : d ∈ collectCandidates patterns config text) :
    Span.Linked ((collectCandidates patterns config text).map (·.span)) c.span d.span ↔
      ∃ s ∈ selected patterns config text, c.span.Inside s.span ∧ d.span.Inside s.span := by
  rw [← Span.linked_congr fun s => mem_spans_sortCandidates,
    Span.linked_iff_merge (sorted_sortCandidates _) (fun s hs => (placed_sortCandidates h s hs).nonempty)
      (mem_spans_sortCandidates.mpr (List.mem_map_of_mem hc)) (mem_spans_sortCandidates.mpr (List.mem_map_of_mem hd)),
    ← spans_selected]
  simp

theorem detectAndRedact_text (patterns : Patterns) (config : SecretsDetectionConfig) (text : String) :
    (detectAndRedact patterns config text).2 =
      if config.redact && !(selected patterns config text.toList).isEmpty then
        String.ofList (redactFrom config.redactionText.toList text.toList 0 (selected patterns config text.toList))
      else text := rfl

theorem replaced_detectAndRedact {text : String} (h : WellPlaced patterns config text.toList)
    (hredact : config.redact = true) :
    Utf8.Replaced config.redactionText.toList 0 ((selected patterns config text.toList).map (·.span)) text.toList
      (detectAndRedact patterns config text).2.toList := by
  have hplaced := placed_selected h
  have hreplaced : Utf8.Replaced config.redactionText.toList 0 ((selected patterns config text.toList).map (·.span))
      text.toList (redactFrom config.redactionText.toList text.toList 0 (selected patterns config text.toList)) :=
    replaced_redactFrom _ (List.nil_append text.toList).symm apart_selected fun s hs =>
      ⟨Nat.zero_le _, (hplaced s hs).nonempty, (hplaced s hs).start, (hplaced s hs).stop⟩
  rw [detectAndRedact_text, hredact, Bool.true_and]
  cases hempty : (selected patterns config text.toList).isEmpty with
  | true =>
    rw [List.isEmpty_iff.mp hempty]
    exact .rest 0 _
  | false => simpa using hreplaced

theorem detectAndRedact_unchanged {text : String}
    (h : config.redact = false ∨ collectCandidates patterns config text.toList = []) :
    (detectAndRedact patterns config text).2 = text := by
  rw [detectAndRedact_text]
  rcases h with hoff | hnone
  · rw [hoff]; rfl
  · have hnil : selected patterns config text.toList = [] := by rw [selected, hnone]; rfl
    rw [hnil, List.isEmpty_nil, Bool.not_true, Bool.and_false]; rfl

/-- A finding has the type of a most specific candidate in its span. -/
theorem most_specific_selected (h : WellPlaced patterns config text) {s : MatchCandidate}
    (hs : s ∈ selected patterns config text) :
    ∃ c ∈ collectCandidates patterns config text, c.span.Inside s.span ∧ c.name = s.name ∧
      ∀ d ∈ collectCandidates patterns config text, d.span.Inside s.span →
        c.name.specificity ≤ d.name.specificity := by
  obtain ⟨c, hc, hin, hname, -, hmost⟩ := select_name (sorted_sortCandidates _)
    (fun c hc => (placed_sortCandidates h _ (List.mem_map_of_mem hc)).nonempty) s hs
  exact ⟨c, mem_sortCandidates.mp hc, hin, hname, fun d hd => hmost d (mem_sortCandidates.mpr hd)⟩

end Exact

/-- Detection and redaction are exact. The candidates are the matches of the enabled patterns, those of
a capture pattern only where nothing of the kind follows the group. The selected spans lie apart in
order, between characters of the text; their points are those of the candidates; two candidates are
in one of them exactly when a chain of overlaps connects them. With `redact` on each is replaced once and the rest of the text
kept, otherwise, or with nothing found, the text is returned as it was. There is one finding per
selected span, of the type of a most specific candidate in it. -/
theorem detectAndRedact_exact (patterns : Patterns) (config : SecretsDetectionConfig) (text : String)
    (hplaced : WellPlaced patterns config text.toList) :
    let candidates := collectCandidates patterns config text.toList
    let chosen := selected patterns config text.toList
    let result := detectAndRedact patterns config text
    (∀ c, c ∈ candidates ↔ ∃ name, config.isEnabled name = true ∧ ∃ found ∈ patterns.findIter name text.toList, ∃ s,
      name.matched found = some s ∧
      (name.isCapture = true → isBase64BoundaryChar (Utf8.dropBytes s.stop text.toList).head? = false) ∧
      c = .of name text.toList s) ∧
    (chosen.Pairwise fun s t => s.start < t.start ∧ s.stop ≤ t.start) ∧
    (∀ s ∈ chosen, Placed text.toList s.span) ∧
    (∀ x, (∃ s ∈ chosen, s.span.Contains x) ↔ ∃ c ∈ candidates, c.span.Contains x) ∧
    (∀ c ∈ candidates, ∀ d ∈ candidates, Span.Linked (candidates.map (·.span)) c.span d.span ↔
      ∃ s ∈ chosen, c.span.Inside s.span ∧ d.span.Inside s.span) ∧
    (config.redact = true → Utf8.Replaced config.redactionText.toList 0 (chosen.map (·.span)) text.toList
      result.2.toList) ∧
    (config.redact = false ∨ candidates = [] → result.2 = text) ∧
    List.Forall₂ (fun finding s => ∃ c ∈ candidates, c.span.Inside s.span ∧ c.name = finding.piiType ∧
      ∀ d ∈ candidates, d.span.Inside s.span → c.name.specificity ≤ d.name.specificity) result.1 chosen := by
  intro candidates chosen result
  refine ⟨?_, ?_, placed_selected hplaced, contains_selected patterns config text.toList,
    fun c hc d hd => linked_iff_selected hplaced hc hd, replaced_detectAndRedact hplaced, detectAndRedact_unchanged, ?_⟩
  · intro c
    rw [mem_collectCandidates]
    simp only [mem_patternCandidates]
  · refine (List.pairwise_map.mp apart_selected).imp_of_mem ?_
    intro s t hs _ hst
    have hlt : s.start < s.stop := (placed_selected hplaced s hs).nonempty
    have hle : s.stop ≤ t.start := hst
    exact ⟨by omega, hle⟩
  · show List.Forall₂ _ (chosen.map (·.finding)) chosen
    rw [List.forall₂_map_left_iff, List.forall₂_same]
    exact fun s hs => most_specific_selected hplaced hs

/-! ## The order of the patterns -/

theorem PatternName.text_injective : Function.Injective PatternName.text := by
  intro left right h
  cases left <;> cases right <;> first | rfl | exact absurd h (by decide)

/-- The order candidates are sorted by tells any two matches in a text apart. -/
theorem eq_of_cmp_eq {text : List Char} {name name' : PatternName} {s t : Span Nat} (hs : s.start ≤ s.stop)
    (ht : t.start ≤ t.stop) (h : (MatchCandidate.of name text s).cmp (.of name' text t) = .eq) :
    MatchCandidate.of name text s = .of name' text t := by
  simp only [MatchCandidate.cmp, Ordering.then_eq_eq] at h
  obtain ⟨hstart, -, hlength, hname⟩ := h
  have hname : name = name' := PatternName.text_injective (Std.LawfulEqCmp.eq_of_compare hname)
  have hstart : s.start = t.start := Nat.compare_eq_eq.mp hstart
  have hlength : t.stop - t.start = s.stop - s.start := Nat.compare_eq_eq.mp hlength
  have hstop : s.stop = t.stop := by omega
  rw [MatchCandidate.of, MatchCandidate.of, hname, hstart, hstop]

/-- Findings and redacted text do not depend on the order in which the patterns are tried. -/
theorem detectAndRedact_order (patterns patterns' : Patterns) (hfind : patterns'.findIter = patterns.findIter)
    (config : SecretsDetectionConfig) (text : String)
    (hne : ∀ name, config.isEnabled name = true → ∀ found ∈ patterns.findIter name text.toList,
      ∀ s ∈ name.matched found, s.start < s.stop) :
    detectAndRedact patterns' config text = detectAndRedact patterns config text := by
  have hcandidates : patternCandidates patterns' text.toList = patternCandidates patterns text.toList := by
    funext name
    unfold patternCandidates
    rw [hfind]
  have hperm : (collectCandidates patterns' config text.toList).Perm (collectCandidates patterns config text.toList) := by
    unfold collectCandidates
    rw [hcandidates]
    exact (patterns'.complete.trans patterns.complete.symm).flatMap_right _
  have hsort : sortCandidates (collectCandidates patterns' config text.toList) =
      sortCandidates (collectCandidates patterns config text.toList) := by
    refine List.Perm.eq_of_pairwise ?_ (pairwise_sortCandidates _) (pairwise_sortCandidates _) ?_
    · intro a b ha hb hab hba
      obtain ⟨name, hname, ha⟩ := mem_collectCandidates.mp (mem_sortCandidates.mp ha)
      obtain ⟨name', hname', hb⟩ := mem_collectCandidates.mp (mem_sortCandidates.mp hb)
      rw [hcandidates] at ha
      obtain ⟨found, hfound, s, hs, -, rfl⟩ := mem_patternCandidates.mp ha
      obtain ⟨found', hfound', t, ht, -, rfl⟩ := mem_patternCandidates.mp hb
      exact eq_of_cmp_eq (hne name hname found hfound s hs).le (hne name' hname' found' hfound' t ht).le
        (Std.OrientedCmp.isLE_antisymm hab hba)
    · exact (List.perm_insertionSort _ _).trans (hperm.trans (List.perm_insertionSort _ _).symm)
  have hselected : selected patterns' config text.toList = selected patterns config text.toList :=
    congrArg select hsort
  unfold detectAndRedact
  rw [hselected]

end DataPlane.Secrets
