/-
Half-open spans over a linear order and their merging: a list of spans sorted by start is swept once,
each span joined to the one before it when they overlap. The merged spans lie apart, cover what was
given, and every family of spans that lie apart and cover what was given covers them.
-/
import Mathlib.Tactic

universe u

/-- A half-open span. -/
structure Span (α : Type u) where
  start : α
  stop : α
  deriving DecidableEq

namespace Span

variable {α : Type u} [LinearOrder α]

/-- One span lies in another. -/
def Inside (a b : Span α) : Prop := b.start ≤ a.start ∧ a.stop ≤ b.stop

instance (a b : Span α) : Decidable (a.Inside b) := inferInstanceAs (Decidable (_ ∧ _))

/-- The first span ends before the second starts. -/
def Apart (a b : Span α) : Prop := a.stop ≤ b.start

/-- Spans in the order of their starts. -/
def Sorted (spans : List (Span α)) : Prop := spans.Pairwise fun a b => a.start ≤ b.start

/-- A span prolonged by one that starts in it. -/
def join (a b : Span α) : Span α := ⟨a.start, max a.stop b.stop⟩

/-- Sweep on from a current span. -/
def mergeFrom (current : Span α) : List (Span α) → List (Span α)
  | [] => [current]
  | next :: rest =>
    if current.stop ≤ next.start then current :: mergeFrom next rest else mergeFrom (current.join next) rest

/-- Merge spans that are sorted by start. -/
def merge : List (Span α) → List (Span α)
  | [] => []
  | first :: rest => mergeFrom first rest

theorem Inside.trans {a b c : Span α} (h : a.Inside b) (h' : b.Inside c) : a.Inside c :=
  ⟨h'.1.trans h.1, h.2.trans h'.2⟩

theorem Inside.refl (a : Span α) : a.Inside a := ⟨le_rfl, le_rfl⟩

/-! ## Merged spans lie apart -/

theorem sorted_join {current next : Span α} {rest : List (Span α)} (h : Sorted (current :: next :: rest)) :
    Sorted (current.join next :: rest) := by
  obtain ⟨hle, hrest⟩ := List.pairwise_cons.mp h
  exact List.pairwise_cons.mpr ⟨fun a ha => hle a (List.mem_cons_of_mem _ ha), (List.pairwise_cons.mp hrest).2⟩

theorem start_le_of_mem_mergeFrom : ∀ {rest : List (Span α)} {current s : Span α},
    Sorted (current :: rest) → s ∈ mergeFrom current rest → current.start ≤ s.start
  | [], _, _, _, h => by
    rw [List.mem_singleton.mp h]
  | next :: rest, current, s, hs, h => by
    obtain ⟨hle, hrest⟩ := List.pairwise_cons.mp hs
    unfold mergeFrom at h
    split at h
    · rcases List.mem_cons.mp h with rfl | h
      · exact le_rfl
      · exact (hle next (List.mem_cons_self ..)).trans (start_le_of_mem_mergeFrom hrest h)
    · have hjoin : (current.join next).start ≤ s.start := start_le_of_mem_mergeFrom (sorted_join hs) h
      exact hjoin

theorem apart_mergeFrom : ∀ {rest : List (Span α)} {current : Span α},
    Sorted (current :: rest) → (mergeFrom current rest).Pairwise Apart
  | [], _, _ => List.pairwise_singleton ..
  | next :: rest, current, hs => by
    unfold mergeFrom
    split
    · rename_i hstop
      have hrest : Sorted (next :: rest) := (List.pairwise_cons.mp hs).2
      refine List.pairwise_cons.mpr ⟨?_, apart_mergeFrom hrest⟩
      intro s h
      exact hstop.trans (start_le_of_mem_mergeFrom hrest h)
    · exact apart_mergeFrom (sorted_join hs)

theorem apart_merge {spans : List (Span α)} (h : Sorted spans) : (merge spans).Pairwise Apart := by
  cases spans with
  | nil => exact .nil
  | cons first rest => exact apart_mergeFrom h

/-! ## Merged spans cover what was given -/

theorem inside_join_left (a b : Span α) : a.Inside (a.join b) := ⟨le_rfl, le_max_left ..⟩

theorem inside_join_right {a b : Span α} (h : a.start ≤ b.start) : b.Inside (a.join b) := ⟨h, le_max_right ..⟩

theorem covered_mergeFrom : ∀ {rest : List (Span α)} {current : Span α}, Sorted (current :: rest) →
    ∀ c ∈ current :: rest, ∃ s ∈ mergeFrom current rest, c.Inside s
  | [], current, _, c, hc => ⟨c, hc, .refl c⟩
  | next :: rest, current, hs, c, hc => by
    unfold mergeFrom
    split
    · rcases List.mem_cons.mp hc with rfl | hc
      · exact ⟨c, List.mem_cons_self .., .refl c⟩
      · obtain ⟨s, h, hi⟩ := covered_mergeFrom (List.pairwise_cons.mp hs).2 c hc
        exact ⟨s, List.mem_cons_of_mem _ h, hi⟩
    · have ih := covered_mergeFrom (sorted_join hs)
      -- the current span and the next one are covered with their join
      have hjoin : ∀ {c : Span α}, c.Inside (current.join next) → ∃ s ∈ mergeFrom (current.join next) rest, c.Inside s := by
        intro c hi
        obtain ⟨s, h, hj⟩ := ih _ (List.mem_cons_self ..)
        exact ⟨s, h, hi.trans hj⟩
      rcases List.mem_cons.mp hc with rfl | hc
      · exact hjoin (inside_join_left ..)
      rcases List.mem_cons.mp hc with rfl | hc
      · exact hjoin (inside_join_right ((List.pairwise_cons.mp hs).1 c (List.mem_cons_self ..)))
      · exact ih c (List.mem_cons_of_mem _ hc)

theorem covered_merge {spans : List (Span α)} (h : Sorted spans) : ∀ c ∈ spans, ∃ s ∈ merge spans, c.Inside s := by
  cases spans with
  | nil => intro c hc; cases hc
  | cons first rest => exact covered_mergeFrom h

/-! ## The least cover -/

/-- Spans of a family that lies apart are the same when a point is in both. -/
theorem eq_of_apart {family : List (Span α)} (ha : family.Pairwise Apart) {s t : Span α} (hs : s ∈ family)
    (ht : t ∈ family) {x : α} (hxs : s.start ≤ x ∧ x < s.stop) (hxt : t.start ≤ x ∧ x < t.stop) : s = t := by
  by_contra hne
  have hapart : Apart s t ∨ Apart t s := by
    have : Std.Symm fun a b : Span α => Apart a b ∨ Apart b a := ⟨fun _ _ h => h.symm⟩
    have hsymm : family.Pairwise fun a b => Apart a b ∨ Apart b a := ha.imp Or.inl
    exact hsymm.forall hs ht hne
  rcases hapart with h | h
  · exact absurd (hxs.2.trans_le (h.trans hxt.1)) (lt_irrefl x)
  · exact absurd (hxt.2.trans_le (h.trans hxs.1)) (lt_irrefl x)

/-- A given span lies in the merged span that holds a part of it. -/
theorem inside_of_part {spans : List (Span α)} (hsorted : Sorted spans) {s y x : Span α} (hs : s ∈ merge spans)
    (hy : y ∈ spans) (hx : x.start < x.stop) (hxy : x.Inside y) (hxs : x.Inside s) : y.Inside s := by
  obtain ⟨t, ht, hyt⟩ := covered_merge hsorted y hy
  have hxt := hxy.trans hyt
  have heq : s = t := eq_of_apart (apart_merge hsorted) hs ht ⟨hxs.1, hx.trans_le hxs.2⟩ ⟨hxt.1, hx.trans_le hxt.2⟩
  rw [heq]
  exact hyt

theorem mergeFrom_inside {family : List (Span α)} (ha : family.Pairwise Apart) :
    ∀ {rest : List (Span α)} {current : Span α}, Sorted (current :: rest) →
      (∀ c ∈ current :: rest, ∃ t ∈ family, c.Inside t) → ∀ s ∈ mergeFrom current rest, ∃ t ∈ family, s.Inside t
  | [], _, _, hcover, s, h => hcover s h
  | next :: rest, current, hs, hcover, s, h => by
    unfold mergeFrom at h
    split at h
    · rcases List.mem_cons.mp h with rfl | h
      · exact hcover s (List.mem_cons_self ..)
      · exact mergeFrom_inside ha (List.pairwise_cons.mp hs).2 (fun c hc => hcover c (List.mem_cons_of_mem _ hc)) s h
    · rename_i hstop
      refine mergeFrom_inside ha (sorted_join hs) ?_ s h
      intro c hc
      rcases List.mem_cons.mp hc with rfl | hc
      · obtain ⟨t, ht, hit⟩ := hcover current (List.mem_cons_self ..)
        obtain ⟨t', ht', hit'⟩ := hcover next (List.mem_cons_of_mem _ (List.mem_cons_self ..))
        by_cases hle : next.stop ≤ current.stop
        · exact ⟨t, ht, hit.1, max_le hit.2 (hle.trans hit.2)⟩
        · -- the start of the next span is in both
          have hstart : current.start ≤ next.start := (List.pairwise_cons.mp hs).1 next (List.mem_cons_self ..)
          have hlt : next.start < current.stop := lt_of_not_ge hstop
          have heq : t = t' := eq_of_apart ha ht ht' ⟨hit.1.trans hstart, hlt.trans_le hit.2⟩
            ⟨hit'.1, (hlt.trans (lt_of_not_ge hle)).trans_le hit'.2⟩
          subst heq
          exact ⟨t, ht, hit.1, max_le hit.2 hit'.2⟩
      · exact hcover c (List.mem_cons_of_mem _ (List.mem_cons_of_mem _ hc))

/-- Merging fewer spans gives spans inside those of merging more. -/
theorem merge_mono {fewer more : List (Span α)} (hf : Sorted fewer) (hm : Sorted more) (hsub : fewer ⊆ more) :
    ∀ s ∈ merge fewer, ∃ t ∈ merge more, s.Inside t := by
  cases fewer with
  | nil => intro s h; cases h
  | cons first rest => exact mergeFrom_inside (apart_merge hm) hf fun c hc => covered_merge hm c (hsub hc)

/-- A family in whose spans the given spans lie, at most one in each, is at least as long. -/
theorem length_le_of_inside {spans family : List (Span α)} (hin : ∀ s ∈ spans, ∃ t ∈ family, s.Inside t)
    (hone : ∀ t ∈ family, (spans.filter fun s => s.Inside t).length ≤ 1) : spans.length ≤ family.length := by
  induction family generalizing spans with
  | nil =>
    cases spans with
    | nil => exact le_rfl
    | cons s rest =>
      obtain ⟨t, ht, -⟩ := hin s (List.mem_cons_self ..)
      cases ht
  | cons t family ih =>
    -- those inside the first span are at most one, the others are inside the rest
    have hsplit : spans.length = (spans.filter fun s => s.Inside t).length +
        (spans.filter fun s => ¬ s.Inside t).length := by
      simpa using List.length_eq_length_filter_add (l := spans) fun s => decide (s.Inside t)
    have hrest : (spans.filter fun s => ¬ s.Inside t).length ≤ family.length := by
      apply ih
      · intro s hs
        obtain ⟨hs, hnot⟩ := List.mem_filter.mp hs
        obtain ⟨t', ht', hi⟩ := hin s hs
        rcases List.mem_cons.mp ht' with rfl | ht'
        · simp [hi] at hnot
        · exact ⟨t', ht', hi⟩
      · intro t' ht'
        have hsub : (spans.filter fun s => ¬ s.Inside t).filter (fun s => s.Inside t') |>.Sublist
            (spans.filter fun s => s.Inside t') := List.filter_sublist.filter _
        exact hsub.length_le.trans (hone t' (List.mem_cons_of_mem _ ht'))
    have hfirst := hone t (List.mem_cons_self ..)
    rw [List.length_cons]
    omega

/-! ## Merging is exact -/

/-- The points of a span. -/
def Contains (s : Span α) (x : α) : Prop := s.start ≤ x ∧ x < s.stop

theorem contains_join {current next : Span α} (hstart : current.start ≤ next.start) (hnext : next.start < current.stop)
    (x : α) : (current.join next).Contains x ↔ current.Contains x ∨ next.Contains x := by
  constructor
  · rintro ⟨hle, hlt⟩
    rcases lt_or_ge x current.stop with h | h
    · exact .inl ⟨hle, h⟩
    · refine .inr ⟨hnext.le.trans h, ?_⟩
      rcases lt_max_iff.mp hlt with hlt | hlt
      · exact absurd hlt (not_lt.mpr h)
      · exact hlt
  · rintro (⟨hle, hlt⟩ | ⟨hle, hlt⟩)
    · exact ⟨hle, lt_max_of_lt_left hlt⟩
    · exact ⟨hstart.trans hle, lt_max_of_lt_right hlt⟩

theorem contains_mergeFrom : ∀ {rest : List (Span α)} {current : Span α}, Sorted (current :: rest) → ∀ x,
    ((∃ s ∈ mergeFrom current rest, s.Contains x) ↔ ∃ s ∈ current :: rest, s.Contains x)
  | [], current, _, x => Iff.rfl
  | next :: rest, current, hs, x => by
    unfold mergeFrom
    split
    · rw [List.exists_mem_cons_iff, contains_mergeFrom (List.pairwise_cons.mp hs).2]
      simp only [List.exists_mem_cons_iff]
    · rename_i hstop
      have hstart : current.start ≤ next.start := (List.pairwise_cons.mp hs).1 next (List.mem_cons_self ..)
      rw [contains_mergeFrom (sorted_join hs), List.exists_mem_cons_iff, contains_join hstart (lt_of_not_ge hstop),
        List.exists_mem_cons_iff, List.exists_mem_cons_iff, or_assoc]

/-- The points of the merged spans are those of the given ones. -/
theorem contains_merge {spans : List (Span α)} (h : Sorted spans) (x : α) :
    (∃ s ∈ merge spans, s.Contains x) ↔ ∃ s ∈ spans, s.Contains x := by
  cases spans with
  | nil => exact Iff.rfl
  | cons first rest => exact contains_mergeFrom h x

/-- A merged span starts and stops where given spans do. -/
theorem ends_mergeFrom {Place : α → Prop} : ∀ {rest : List (Span α)} {current : Span α},
    (∀ s ∈ current :: rest, Place s.start ∧ Place s.stop) → ∀ s ∈ mergeFrom current rest, Place s.start ∧ Place s.stop
  | [], _, h => h
  | next :: rest, current, h => by
    unfold mergeFrom
    obtain ⟨hcurrent, hrest⟩ := List.forall_mem_cons.mp h
    split
    · exact List.forall_mem_cons.mpr ⟨hcurrent, ends_mergeFrom hrest⟩
    · obtain ⟨hnext, hrest⟩ := List.forall_mem_cons.mp hrest
      refine ends_mergeFrom (List.forall_mem_cons.mpr ⟨⟨hcurrent.1, ?_⟩, hrest⟩)
      rcases max_choice current.stop next.stop with hmax | hmax
      · show Place (max _ _)
        rw [hmax]
        exact hcurrent.2
      · show Place (max _ _)
        rw [hmax]
        exact hnext.2

theorem ends_merge {Place : α → Prop} {spans : List (Span α)} (h : ∀ s ∈ spans, Place s.start ∧ Place s.stop) :
    ∀ s ∈ merge spans, Place s.start ∧ Place s.stop := by
  cases spans with
  | nil => exact h
  | cons first rest => exact ends_mergeFrom h

theorem nonempty_mergeFrom : ∀ {rest : List (Span α)} {current : Span α},
    (∀ s ∈ current :: rest, s.start < s.stop) → ∀ s ∈ mergeFrom current rest, s.start < s.stop
  | [], _, h => h
  | next :: rest, current, h => by
    unfold mergeFrom
    obtain ⟨hcurrent, hrest⟩ := List.forall_mem_cons.mp h
    split
    · exact List.forall_mem_cons.mpr ⟨hcurrent, nonempty_mergeFrom hrest⟩
    · refine nonempty_mergeFrom (List.forall_mem_cons.mpr ⟨?_, (List.forall_mem_cons.mp hrest).2⟩)
      exact lt_max_of_lt_left hcurrent

theorem nonempty_merge {spans : List (Span α)} (h : ∀ s ∈ spans, s.start < s.stop) :
    ∀ s ∈ merge spans, s.start < s.stop := by
  cases spans with
  | nil => exact h
  | cons first rest => exact nonempty_mergeFrom h

/-! ## Merged spans are the components of overlap -/

/-- Two spans share a point, when neither is empty. -/
def Overlaps (a b : Span α) : Prop := a.start < b.stop ∧ b.start < a.stop

/-- Connected by a chain of overlapping spans. -/
def Linked (spans : List (Span α)) : Span α → Span α → Prop :=
  Relation.ReflTransGen fun a b => a ∈ spans ∧ b ∈ spans ∧ a.Overlaps b

theorem Linked.symm {spans : List (Span α)} {a b : Span α} (h : Linked spans a b) : Linked spans b a := by
  have : Std.Symm fun a b : Span α => a ∈ spans ∧ b ∈ spans ∧ a.Overlaps b :=
    ⟨fun _ _ ⟨ha, hb, hlt, hgt⟩ => ⟨hb, ha, hgt, hlt⟩⟩
  exact Relation.ReflTransGen.stdSymm.symm _ _ h

theorem linked_congr {spans spans' : List (Span α)} (h : ∀ s, s ∈ spans ↔ s ∈ spans') {a b : Span α} :
    Linked spans a b ↔ Linked spans' a b := by
  unfold Linked
  simp only [h]

/-- Inside a merged span every place is inside a given span: merging never joins spans that only
touch. -/
theorem crossed_mergeFrom : ∀ {rest : List (Span α)} {current : Span α} {given : List (Span α)},
    (∀ x, current.start < x → x < current.stop → ∃ c ∈ given, c.start < x ∧ x < c.stop) →
    (∀ s ∈ rest, s ∈ given) → ∀ s ∈ mergeFrom current rest, ∀ x, s.start < x → x < s.stop →
      ∃ c ∈ given, c.start < x ∧ x < c.stop
  | [], current, given, hcurrent, _, s, hs => by
    rw [List.mem_singleton.mp hs]
    exact hcurrent
  | next :: rest, current, given, hcurrent, hrest, s, hs => by
    obtain ⟨hnext, hrest⟩ := List.forall_mem_cons.mp hrest
    unfold mergeFrom at hs
    split at hs
    · rcases List.mem_cons.mp hs with rfl | hs
      · exact hcurrent
      · exact crossed_mergeFrom (fun x hlt hgt => ⟨next, hnext, hlt, hgt⟩) hrest s hs
    · rename_i hstop
      refine crossed_mergeFrom ?_ hrest s hs
      intro x hlt hgt
      rcases lt_or_ge x current.stop with hx | hx
      · exact hcurrent x hlt hx
      · refine ⟨next, hnext, (lt_of_not_ge hstop).trans_le hx, ?_⟩
        rcases lt_max_iff.mp hgt with hgt | hgt
        · exact absurd hgt (not_lt.mpr hx)
        · exact hgt

theorem crossed_merge {spans : List (Span α)} {s : Span α} (hs : s ∈ merge spans) {x : α} (hlt : s.start < x)
    (hgt : x < s.stop) : ∃ c ∈ spans, c.start < x ∧ x < c.stop := by
  cases spans with
  | nil => cases hs
  | cons first rest =>
    refine crossed_mergeFrom ?_ (fun s hs => List.mem_cons_of_mem _ hs) s hs x hlt hgt
    exact fun x hlt hgt => ⟨first, List.mem_cons_self .., hlt, hgt⟩

section Components

variable {spans : List (Span α)} (hsorted : Sorted spans) (hne : ∀ s ∈ spans, s.start < s.stop)

include hsorted hne

/-- A chain of overlaps stays in one merged span. -/
theorem inside_of_linked {c d s : Span α} (hs : s ∈ merge spans) (hc : c.Inside s) (h : Linked spans c d) :
    d.Inside s := by
  induction h with
  | refl => exact hc
  | @tail a b _ hstep ih =>
    obtain ⟨ha, hb, hlt, hgt⟩ := hstep
    obtain ⟨t, ht, hbt⟩ := covered_merge hsorted b hb
    -- the later of the two starts is in both
    have hmax : max a.start b.start < a.stop := max_lt (hne a ha) hgt
    have hmax' : max a.start b.start < b.stop := max_lt hlt (hne b hb)
    have heq : s = t := eq_of_apart (apart_merge hsorted) hs ht
      ⟨ih.1.trans (le_max_left ..), hmax.trans_le ih.2⟩ ⟨hbt.1.trans (le_max_right ..), hmax'.trans_le hbt.2⟩
    rw [heq]
    exact hbt

/-- From any span a chain of overlaps leads to the end of its merged span. -/
theorem linked_to_stop {c s : Span α} (hs : s ∈ merge spans) (hc : c ∈ spans) (hcs : c.Inside s) :
    ∃ e ∈ spans, Linked spans c e ∧ e.stop = s.stop := by
  have hfinite : {e : Span α | e ∈ spans ∧ Linked spans c e}.Finite :=
    (List.finite_toSet spans).subset fun e he => he.1
  obtain ⟨e, ⟨he, hlinked⟩, hmax⟩ := Set.exists_max_image _ Span.stop hfinite ⟨c, hc, .refl⟩
  refine ⟨e, he, hlinked, ?_⟩
  have hes : e.Inside s := inside_of_linked hsorted hne hs hcs hlinked
  by_contra hstop
  have hlt : e.stop < s.stop := lt_of_le_of_ne hes.2 hstop
  -- a span that crosses the end of the last one linked would be linked too
  obtain ⟨f, hf, hfstart, hfstop⟩ := crossed_merge hs (hes.1.trans_lt (hne e he)) hlt
  have hoverlaps : e.Overlaps f := ⟨(hne e he).trans hfstop, hfstart⟩
  exact absurd (hmax f ⟨hf, hlinked.tail ⟨he, hf, hoverlaps⟩⟩) (not_le.mpr hfstop)

/-- Two given spans lie in one merged span exactly when a chain of overlaps connects them. -/
theorem linked_iff_merge {c d : Span α} (hc : c ∈ spans) (hd : d ∈ spans) :
    Linked spans c d ↔ ∃ s ∈ merge spans, c.Inside s ∧ d.Inside s := by
  constructor
  · intro h
    obtain ⟨s, hs, hcs⟩ := covered_merge hsorted c hc
    exact ⟨s, hs, hcs, inside_of_linked hsorted hne hs hcs h⟩
  · rintro ⟨s, hs, hcs, hds⟩
    obtain ⟨e, he, hce, hestop⟩ := linked_to_stop hsorted hne hs hc hcs
    obtain ⟨f, hf, hdf, hfstop⟩ := linked_to_stop hsorted hne hs hd hds
    have hoverlaps : e.Overlaps f := by
      constructor
      · rw [hfstop, ← hestop]; exact hne e he
      · rw [hestop, ← hfstop]; exact hne f hf
    exact (hce.tail ⟨he, hf, hoverlaps⟩).trans hdf.symm

end Components

end Span
