/-
Computations that may fail and leave a log of what they did outside: the monad, and the rules by
which every entry of a log is shown to be of some kind, or a computation to fail without a log, following
the computation's binds.
-/
import Mathlib.Tactic

/-- The log of a computation, and its result. -/
structure Logged (ε ι α : Type) where
  log : List ι
  result : Except ε α

namespace Logged

variable {ε ι α β : Type}

instance : Monad (Logged ε ι) where
  pure a := ⟨[], .ok a⟩
  bind x f := match x.result with
    | .ok a => ⟨x.log ++ (f a).log, (f a).result⟩
    | .error e => ⟨x.log, .error e⟩

/-- A computation that leaves no log. -/
def ofExcept (e : Except ε α) : Logged ε ι α := ⟨[], e⟩

/-- Log one entry. -/
def emit (i : ι) : Logged ε ι Unit := ⟨[i], .ok ()⟩

theorem ofExcept_ok_bind (a : α) (f : α → Logged ε ι β) : (ofExcept (.ok a) >>= f) = f a := rfl

theorem emit_bind_log (i : ι) (f : Unit → Logged ε ι β) : (emit i >>= f).log = i :: (f ()).log := rfl

/-- Every entry of the log is in `P`. -/
def Within (P : ι → Prop) (x : Logged ε ι α) : Prop := ∀ i ∈ x.log, P i

variable {P : ι → Prop}

theorem within_ofExcept (e : Except ε α) : Within P (ofExcept e : Logged ε ι α) := by
  intro i hi; cases hi

theorem within_ofExcept_bind {e : Except ε α} {f : α → Logged ε ι β} (h : ∀ a, e = .ok a → Within P (f a)) :
    Within P (ofExcept e >>= f) := by
  cases e with
  | error e => intro i hi; cases hi
  | ok a => exact h a rfl

theorem within_bind {x : Logged ε ι α} {f : α → Logged ε ι β} (hx : Within P x) (hf : ∀ a, Within P (f a)) :
    Within P (x >>= f) := by
  obtain ⟨log, result⟩ := x
  cases result with
  | error e => exact hx
  | ok a =>
    intro i hi
    rcases List.mem_append.mp hi with hi | hi
    · exact hx i hi
    · exact hf a i hi

theorem within_emit_bind {i : ι} {f : Unit → Logged ε ι β} (hi : P i) (h : Within P (f ())) :
    Within P (emit i >>= f) := by
  intro j hj
  rw [emit_bind_log] at hj
  rcases List.mem_cons.mp hj with rfl | hj
  · exact hi
  · exact h j hj

theorem Within.mono {Q : ι → Prop} {x : Logged ε ι α} (h : Within P x) (hpq : ∀ i, P i → Q i) : Within Q x :=
  fun i hi => hpq i (h i hi)

/-! ## Results -/

/-- The computation fails and leaves no log. -/
def Refused (x : Logged ε ι α) : Prop := x.log = [] ∧ ∃ e, x.result = .error e

theorem refused_ofExcept_bind {e : Except ε α} {f : α → Logged ε ι β} (h : ∀ a, e = .ok a → Refused (f a)) :
    Refused (ofExcept e >>= f) := by
  cases e with
  | error e => exact ⟨rfl, e, rfl⟩
  | ok a => exact h a rfl

end Logged
