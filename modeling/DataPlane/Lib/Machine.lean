/-
Machines: a step function that may be disabled, its runs over a list of labels, the invariant rule,
and histories. A history is a list of events, newest first; it is justified when every event in it
is sound with respect to the events before it.
-/
import Mathlib.Tactic

namespace Machine

variable {S A E : Type}

/-! ## Runs -/

/-- Take the steps in order; `none` when one of them is disabled. -/
def run (step : S → A → Option S) : S → List A → Option S
  | s, [] => some s
  | s, a :: as => (step s a).bind fun t => run step t as

variable {step : S → A → Option S}

theorem run_cons {s u : S} {a : A} {as : List A} :
    run step s (a :: as) = some u ↔ ∃ t, step s a = some t ∧ run step t as = some u := by
  simp [run, Option.bind_eq_some_iff]

theorem run_append : ∀ {s u : S} {as bs : List A},
    run step s (as ++ bs) = some u ↔ ∃ t, run step s as = some t ∧ run step t bs = some u
  | s, u, [], bs => by simp [run]
  | s, u, a :: as, bs => by
    rw [List.cons_append, run_cons]
    constructor
    · rintro ⟨t, ht, h⟩
      obtain ⟨v, hv, h⟩ := run_append.mp h
      exact ⟨v, run_cons.mpr ⟨t, ht, hv⟩, h⟩
    · rintro ⟨v, hv, h⟩
      obtain ⟨t, ht, hv⟩ := run_cons.mp hv
      exact ⟨t, ht, run_append.mpr ⟨v, hv, h⟩⟩

/-- What one step keeps, every run keeps. -/
theorem run_invariant {Inv : S → Prop} (hstep : ∀ {s a t}, Inv s → step s a = some t → Inv t) :
    ∀ {s t : S} {as : List A}, Inv s → run step s as = some t → Inv t
  | _, _, [], hs, h => by cases h; exact hs
  | _, _, _ :: _, hs, h => by
    obtain ⟨u, hu, h⟩ := run_cons.mp h
    exact run_invariant hstep (hstep hs hu) h

/-- What a run finds in its history that was not there before, one of its steps recorded. -/
theorem run_emitted (log : S → List E) (Emits : A → E → Prop)
    (hstep : ∀ {s a t e}, step s a = some t → e ∈ log t → e ∈ log s ∨ Emits a e) :
    ∀ {s t : S} {as : List A} {e : E}, run step s as = some t → e ∈ log t → e ∈ log s ∨ ∃ a ∈ as, Emits a e
  | _, _, [], _, h, he => by cases h; exact .inl he
  | _, _, a :: _, _, h, he => by
    obtain ⟨u, hu, h⟩ := run_cons.mp h
    rcases run_emitted log Emits hstep h he with he | ⟨b, hb, hemits⟩
    · exact (hstep hu he).imp_right fun hemits => ⟨a, List.mem_cons_self .., hemits⟩
    · exact .inr ⟨b, List.mem_cons_of_mem _ hb, hemits⟩

/-- Where a goal is not reached, some step of one's own is enabled, keeps the invariant and lowers the rank: then steps
of one's own alone reach the goal, at most as many as the rank. -/
theorem run_progress (Inv Goal : S → Prop) (Own : A → Prop) (rank : S → Nat)
    (hstep : ∀ {s}, Inv s → Goal s ∨ ∃ a t, Own a ∧ step s a = some t ∧ Inv t ∧ rank t < rank s) {s : S} (hs : Inv s) :
    ∃ as t, run step s as = some t ∧ (∀ a ∈ as, Own a) ∧ as.length ≤ rank s ∧ Inv t ∧ Goal t := by
  induction hn : rank s using Nat.strong_induction_on generalizing s with
  | _ n ih =>
    rcases hstep hs with hgoal | ⟨a, t, hown, ha, ht, hlt⟩
    · exact ⟨[], s, rfl, by simp, Nat.zero_le _, hs, hgoal⟩
    · obtain ⟨as, u, hrun, hall, hlen, hu, hgoal⟩ := ih (rank t) (hn ▸ hlt) ht rfl
      refine ⟨a :: as, u, run_cons.mpr ⟨t, ha, hrun⟩, ?_, ?_, hu, hgoal⟩
      · exact List.forall_mem_cons.mpr ⟨hown, hall⟩
      · rw [List.length_cons]
        omega

/-- Every step the run takes, with the state before and after it, is in `P`. -/
def Along (step : S → A → Option S) (P : S → A → S → Prop) : S → List A → Prop
  | _, [] => True
  | s, a :: as => ∀ t, step s a = some t → P s a t ∧ Along step P t as

/-- A run whose steps all meet a condition shows `Q` at every step, when a step from the invariant
that meets the condition shows it and keeps the invariant. -/
theorem Along.imp {Inv : S → Prop} {P Q : S → A → S → Prop}
    (hstep : ∀ {s a t}, Inv s → P s a t → step s a = some t → Q s a t ∧ Inv t) :
    ∀ {s : S} {as : List A}, Inv s → Along step P s as → Along step Q s as
  | _, [], _, _ => trivial
  | _, _ :: _, hs, h => fun t ht => by
    obtain ⟨hp, h⟩ := h t ht
    obtain ⟨hq, hi⟩ := hstep hs hp ht
    exact ⟨hq, Along.imp hstep hi h⟩

/-- What steps under a condition keep, a run under the condition keeps. -/
theorem Along.invariant {Inv : S → Prop} {P : S → A → S → Prop}
    (hstep : ∀ {s a t}, Inv s → P s a t → step s a = some t → Inv t) :
    ∀ {s t : S} {as : List A}, Inv s → Along step P s as → run step s as = some t → Inv t
  | _, _, [], hs, _, h => by cases h; exact hs
  | _, _, _ :: _, hs, hp, h => by
    obtain ⟨u, hu, h⟩ := run_cons.mp h
    obtain ⟨hp, hps⟩ := hp u hu
    exact Along.invariant hstep (hstep hs hp hu) hps h

/-! ## Histories -/

/-- Every event of the history is sound with respect to the events before it. -/
def Justified (Sound : E → List E → Prop) : List E → Prop
  | [] => True
  | e :: older => Sound e older ∧ Justified Sound older

theorem Justified.sound {Sound : E → List E → Prop} : ∀ {newer : List E} {e : E} {older : List E},
    Justified Sound (newer ++ e :: older) → Sound e older
  | [], _, _, h => h.1
  | _ :: _, _, _, h => Justified.sound h.2

theorem Justified.older {Sound : E → List E → Prop} : ∀ {newer older : List E},
    Justified Sound (newer ++ older) → Justified Sound older
  | [], _, h => h
  | _ :: _, _, h => Justified.older h.2

/-- Events that are sound whatever came before them may be added. -/
theorem Justified.append {Sound : E → List E → Prop} {older : List E} (h : Justified Sound older) :
    ∀ {events : List E}, (∀ e ∈ events, ∀ older, Sound e older) → Justified Sound (events ++ older)
  | [], _ => h
  | e :: _, hsound =>
    ⟨hsound e (List.mem_cons_self ..) _, Justified.append h fun e he => hsound e (List.mem_cons_of_mem _ he)⟩

/-- Events that each require that no other of their kind is older occur once. -/
theorem Justified.once {Sound : E → List E → Prop} {Kind : E → Prop}
    (hkind : ∀ {b older}, Kind b → Sound b older → ∀ e ∈ older, ¬ Kind e) {newer older : List E} {a : E}
    (h : Justified Sound (newer ++ a :: older)) (ha : Kind a) : ∀ e ∈ newer ++ older, ¬ Kind e := by
  intro e he hkinde
  rcases List.mem_append.mp he with he | he
  · obtain ⟨newest, between, rfl⟩ := List.append_of_mem he
    rw [List.append_assoc] at h
    exact hkind hkinde h.sound a (List.mem_append_right _ (List.mem_cons_self ..)) ha
  · exact hkind ha h.sound e he hkinde

/-- Two events that each tell the other one off do not both occur. -/
theorem Justified.not_both {Sound : E → List E → Prop} {a b : E} (hne : a ≠ b)
    (ha : ∀ {older}, Sound a older → b ∉ older) (hb : ∀ {older}, Sound b older → a ∉ older) :
    ∀ {log : List E}, Justified Sound log → a ∈ log → b ∉ log
  | [], _, hm => by cases hm
  | e :: log, ⟨hs, h⟩, hm => by
    intro hmb
    rcases List.mem_cons.mp hm with rfl | ha'
    · rcases List.mem_cons.mp hmb with rfl | hmb
      · exact hne rfl
      · exact ha hs hmb
    · rcases List.mem_cons.mp hmb with rfl | hmb
      · exact hb hs ha'
      · exact Justified.not_both hne ha hb h ha' hmb

end Machine
