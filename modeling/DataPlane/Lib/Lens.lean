/-
Partial lenses: a source is seen through a view, an edited view is written back, and the write may
refuse. A lens is given by its view and a partial way to build a source from a view; the write keeps
the source when its view was not edited, and otherwise takes the built source if that has the
edited view. The laws (an unedited view changes nothing, what was written is what is seen) and the
exact set of accepted edits, for one source and for a list of them.
-/
import Mathlib.Data.List.Forall2
import Mathlib.Tactic

namespace Lens

open Classical

variable {S V : Type}

/-! ## One source -/

/-- Write `v` back over `s`. -/
noncomputable def put (view : S → V) (build : V → Option S) (s : S) (v : V) : Option S :=
  if view s = v then some s else (build v).bind fun t => if view t = v then some t else none

variable {view : S → V} {build : V → Option S}

theorem put_view (s : S) : put view build s (view s) = some s := if_pos rfl

theorem put_eq_some {s t : S} {v : V} :
    put view build s v = some t ↔ (view s = v ∧ t = s) ∨ (view s ≠ v ∧ build v = some t ∧ view t = v) := by
  unfold put
  split
  · rename_i h; simp [h, eq_comm]
  · rename_i h; simp [h, Option.bind_eq_some_iff, and_comm, and_assoc]

theorem view_put {s t : S} {v : V} (h : put view build s v = some t) : view t = v := by
  rcases put_eq_some.mp h with ⟨h, rfl⟩ | ⟨_, _, h⟩ <;> exact h

/-- The accepted edits: the view itself, and the views of sources that are built from their view. -/
theorem put_isSome {s : S} {v : V} :
    (∃ t, put view build s v = some t) ↔ v = view s ∨ ∃ t, build v = some t ∧ view t = v := by
  constructor
  · rintro ⟨t, h⟩
    rcases put_eq_some.mp h with ⟨h, _⟩ | ⟨_, hb, hv⟩
    · exact .inl h.symm
    · exact .inr ⟨t, hb, hv⟩
  · intro h
    by_cases hv : view s = v
    · exact ⟨s, put_eq_some.mpr (.inl ⟨hv, rfl⟩)⟩
    · obtain h | ⟨t, hb, ht⟩ := h
      · exact absurd h.symm hv
      · exact ⟨t, put_eq_some.mpr (.inr ⟨hv, hb, ht⟩)⟩

/-! ## A list of sources -/

/-- Write a list of edits back over a list of sources, pairwise; sources beyond the edits stay. -/
def putAll (put : S → V → Option S) : List S → List V → Option (List S)
  | s :: ss, v :: vs => do
    let t ← put s v
    let ts ← putAll put ss vs
    some (t :: ts)
  | ss, _ => some ss

/-- A list write on equally long lists writes each pair. -/
theorem putAll_eq_some {put : S → V → Option S} : ∀ {ss : List S} {vs : List V} {ts : List S},
    ss.length = vs.length →
      (putAll put ss vs = some ts ↔ List.Forall₂ (fun p t => put p.1 p.2 = some t) (ss.zip vs) ts)
  | [], [], ts, _ => by simp [putAll, eq_comm]
  | s :: ss, v :: vs, ts, hlen => by
    have ih : ∀ ts, putAll put ss vs = some ts ↔ _ := fun _ => putAll_eq_some (Nat.succ.inj hlen)
    simp only [putAll, Option.bind_eq_bind, Option.bind_eq_some_iff, Option.some.injEq, List.zip_cons_cons,
      List.forall₂_cons_left_iff, ih]
    constructor
    · rintro ⟨t, ht, ts', hts, rfl⟩
      exact ⟨t, ts', ht, hts, rfl⟩
    · rintro ⟨t, ts', ht, hts, rfl⟩
      exact ⟨t, ht, ts', hts, rfl⟩

/-- A list write is accepted exactly when the write of each pair is. -/
theorem putAll_isSome {put : S → V → Option S} : ∀ {ss : List S} {vs : List V}, ss.length = vs.length →
    ((∃ ts, putAll put ss vs = some ts) ↔ List.Forall₂ (fun s v => ∃ t, put s v = some t) ss vs)
  | [], [], _ => by simp [putAll]
  | s :: ss, v :: vs, hlen => by
    have ih : (∃ ts, putAll put ss vs = some ts) ↔ _ := putAll_isSome (Nat.succ.inj hlen)
    rw [List.forall₂_cons, ← ih]
    constructor
    · rintro ⟨ts, h⟩
      simp only [putAll, Option.bind_eq_bind, Option.bind_eq_some_iff] at h
      obtain ⟨t, ht, ts', hts, _⟩ := h
      exact ⟨⟨t, ht⟩, ts', hts⟩
    · rintro ⟨⟨t, ht⟩, ts, hts⟩
      exact ⟨t :: ts, by simp [putAll, ht, hts]⟩

theorem putAll_view : ∀ ss : List S, putAll (put view build) ss (ss.map view) = some ss
  | [] => rfl
  | s :: ss => by
    simp only [List.map_cons, putAll, put_view, putAll_view ss, Option.bind_eq_bind, Option.bind_some]

theorem view_putAll : ∀ {ss : List S} {vs : List V} {ts : List S}, ss.length = vs.length →
    putAll (put view build) ss vs = some ts → ts.map view = vs
  | [], [], _, _, h => by cases h; rfl
  | s :: ss, v :: vs, ts, hlen, h => by
    rw [putAll_eq_some hlen, List.zip_cons_cons, List.forall₂_cons_left_iff] at h
    obtain ⟨t, ts', ht, hts, rfl⟩ := h
    rw [List.map_cons, view_put ht, view_putAll (Nat.succ.inj hlen) ((putAll_eq_some (Nat.succ.inj hlen)).mpr hts)]

/-- A source whose view was not edited is kept. -/
theorem putAll_kept : ∀ {ss : List S} {vs : List V} {ts : List S}, ss.length = vs.length →
    putAll (put view build) ss vs = some ts →
      ∀ (i : Nat) (s : S), ss[i]? = some s → vs[i]? = some (view s) → ts[i]? = some s
  | [], [], _, _, h, i, s, hs, _ => by simp at hs
  | x :: ss, v :: vs, ts, hlen, h, i, s, hs, hv => by
    rw [putAll_eq_some hlen, List.zip_cons_cons, List.forall₂_cons_left_iff] at h
    obtain ⟨t, ts', ht, hts, rfl⟩ := h
    cases i with
    | zero =>
      simp only [List.getElem?_cons_zero, Option.some.injEq] at hs hv ⊢
      subst hs hv
      rw [put_view] at ht
      exact (Option.some.inj ht).symm
    | succ i =>
      rw [List.getElem?_cons_succ] at hs hv ⊢
      exact putAll_kept (Nat.succ.inj hlen) ((putAll_eq_some (Nat.succ.inj hlen)).mpr hts) i s hs hv

/-! ## Any write over a list -/

section Pairwise

variable {W : Type} {write : S → V → Option S}

/-- A partial projection of a list projects each element. -/
theorem mapM_eq_some {project : S → Option W} : ∀ {ss : List S} {ws : List W},
    ss.mapM project = some ws ↔ List.Forall₂ (fun s w => project s = some w) ss ws
  | [], ws => by simp [eq_comm]
  | s :: ss, ws => by
    have ih : ∀ ws, ss.mapM project = some ws ↔ _ := fun _ => mapM_eq_some
    simp only [List.mapM_cons, Option.bind_eq_bind, Option.bind_eq_some_iff, Option.pure_def, Option.some.injEq, ih,
      List.forall₂_cons_left_iff]
    constructor
    · rintro ⟨w, hw, ws', hws, rfl⟩
      exact ⟨w, ws', hw, hws, rfl⟩
    · rintro ⟨w, ws', hw, hws, rfl⟩
      exact ⟨w, hw, ws', hws, rfl⟩

/-- Writes that change nothing change no list. -/
theorem putAll_same : ∀ {ss : List S} {vs : List V}, List.Forall₂ (fun s v => write s v = some s) ss vs →
    putAll write ss vs = some ss
  | [], _, _ => rfl
  | s :: ss, _, .cons hs hss => by
    simp only [putAll, hs, putAll_same hss, Option.bind_eq_bind, Option.bind_some]

/-- What no write changes, no list write changes. -/
theorem map_putAll {f : S → W} (hwrite : ∀ s v t, write s v = some t → f t = f s) :
    ∀ {ss : List S} {vs : List V} {ts : List S}, putAll write ss vs = some ts → ts.map f = ss.map f
  | [], _, ts, h => by
    rw [putAll] at h
    · rw [← Option.some.inj h]
    · simp
  | s :: ss, [], ts, h => by
    rw [putAll] at h
    · rw [← Option.some.inj h]
    · simp
  | s :: ss, v :: vs, ts, h => by
    simp only [putAll, Option.bind_eq_bind, Option.bind_eq_some_iff, Option.some.injEq] at h
    obtain ⟨t, ht, ts', hts, rfl⟩ := h
    rw [List.map_cons, List.map_cons, hwrite s v t ht, map_putAll hwrite hts]

/-- A list write writes each pair at its place. -/
theorem getElem?_putAll : ∀ {ss : List S} {vs : List V} {ts : List S}, putAll write ss vs = some ts →
    ∀ (i : Nat) (s : S) (v : V), ss[i]? = some s → vs[i]? = some v → ∃ t, ts[i]? = some t ∧ write s v = some t
  | [], _, _, _, i, s, v, hs, _ => by simp at hs
  | _ :: _, [], _, _, i, s, v, _, hv => by simp at hv
  | s' :: ss, v' :: vs, ts, h, i, s, v, hs, hv => by
    simp only [putAll, Option.bind_eq_bind, Option.bind_eq_some_iff, Option.some.injEq] at h
    obtain ⟨t, ht, ts', hts, rfl⟩ := h
    cases i with
    | zero =>
      rw [List.getElem?_cons_zero, Option.some.injEq] at hs hv
      subst hs hv
      exact ⟨t, rfl, ht⟩
    | succ i => exact getElem?_putAll hts i s v hs hv

/-- If every written source can be projected to something that agrees with its edit, so can a
written list. -/
theorem project_putAll {project : S → Option W} {Agrees : W → V → Prop}
    (hwrite : ∀ s v t, write s v = some t → ∃ w, project t = some w ∧ Agrees w v) :
    ∀ {ss : List S} {vs : List V} {ts : List S}, ss.length = vs.length → putAll write ss vs = some ts →
      ∃ ws, ts.mapM project = some ws ∧ List.Forall₂ Agrees ws vs
  | [], [], ts, _, h => by cases h; exact ⟨[], rfl, .nil⟩
  | s :: ss, v :: vs, ts, hlen, h => by
    simp only [putAll, Option.bind_eq_bind, Option.bind_eq_some_iff, Option.some.injEq] at h
    obtain ⟨t, ht, ts', hts, rfl⟩ := h
    obtain ⟨w, hw, hv⟩ := hwrite s v t ht
    obtain ⟨ws, hws, hvs⟩ := project_putAll hwrite (Nat.succ.inj hlen) hts
    exact ⟨w :: ws, by simp [hw, hws], .cons hv hvs⟩

end Pairwise

end Lens
