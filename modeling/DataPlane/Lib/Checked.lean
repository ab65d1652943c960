/-
Rust code with what can stop it: arithmetic that leaves its type, slices out of range or inside a character, and
allocations above the largest object. Code that returns an `Option` and may fault is read by one judgement,
`Returns`: it gives that `Option`, and no fault occurs on the way. Sizes are those of a 64-bit target.
-/
import DataPlane.Lib.Utf8
import Mathlib.Tactic

namespace Rust

/-- `usize::MAX` and `isize::MAX`. -/
def usizeMax : Nat := 18446744073709551615
def isizeMax : Nat := 9223372036854775807

/-- A `&str`: no object is larger than `isize::MAX` bytes. -/
structure Str where
  chars : List Char
  short : Utf8.byteLength chars ≤ isizeMax

/-- What stops a call: an overflow (a panic where overflow is checked, a wrapped result where it is not), a slice
that does not exist, or a capacity no allocation can have. -/
inductive Fault where
  | overflow
  | slice
  | capacity
  deriving DecidableEq

/-- Code that returns an `Option`: `?` and `return None` are `failure`. -/
abbrev Checked (α : Type) := OptionT (Except Fault) α

section
variable {α β : Type}

/-- `?` on an `Option`. -/
def ofOption (o : Option α) : Checked α := OptionT.mk (.ok o)

/-- An operation that always has a result, or faults. -/
def ofExcept (x : Except Fault α) : Checked α := OptionT.lift x

/-- The code returns `o`, and does not fault. -/
def Returns (x : Checked α) (o : Option α) : Prop := x.run = .ok o

namespace Returns

theorem pure (a : α) : Returns (Pure.pure a) (some a) := rfl

theorem failure : Returns (Alternative.failure : Checked α) none := rfl

theorem ofOption (o : Option α) : Returns (Rust.ofOption o) o := rfl

theorem ofOption_some {o : Option α} {a : α} (h : o = some a) : Returns (Rust.ofOption o) (some a) := by
  subst h
  rfl

theorem ofExcept {x : Except Fault α} {a : α} (h : x = .ok a) : Returns (Rust.ofExcept x) (some a) := by
  subst h
  rfl

/-- Two computations in a row. -/
theorem bind {x : Checked α} {f : α → Checked β} {o : Option α} {g : α → Option β} (hx : Returns x o)
    (hf : ∀ a, o = some a → Returns (f a) (g a)) : Returns (x >>= f) (o.bind g) := by
  unfold Returns at hx ⊢
  rw [OptionT.run_bind, hx]
  rcases o with _ | a
  · rfl
  · exact hf a rfl

/-- A step that is known to have the result `a`. -/
theorem bind_some {x : Checked α} {f : α → Checked β} {a : α} {o : Option β} (hx : Returns x (some a))
    (hf : Returns (f a) o) : Returns (x >>= f) o := by
  have h := bind (g := fun _ => o) hx fun b hb => by
    cases hb
    exact hf
  exact h

end Returns

end

/-! ## Operations -/

/-- `usize::checked_add` and conversions to `usize`. -/
def checkedUsize (n : Int) : Option Nat := if 0 ≤ n ∧ n ≤ usizeMax then some n.toNat else none

/-- `u32::try_from`. -/
def checkedU32 (n : Nat) : Option Nat := if n ≤ 4294967295 then some n else none

/-- `a - b` on `usize`. -/
def subUsize (a b : Nat) : Except Fault Nat := if b ≤ a then .ok (a - b) else .error .overflow

/-- `usize::saturating_add`. -/
def saturatingAdd (a b : Nat) : Nat := min (a + b) usizeMax

/-- `String::with_capacity`, as far as it can fail. -/
def withCapacity (n : Nat) : Except Fault Unit := if n ≤ isizeMax then .ok () else .error .capacity

/-- `str::is_char_boundary`. -/
def isCharBoundary (text : List Char) (offset : Nat) : Bool := Utf8.byteLength (Utf8.takeBytes offset text) == offset

/-- `&text[start..stop]`. -/
def sliceStr (text : List Char) (start stop : Nat) : Except Fault (List Char) :=
  if start ≤ stop ∧ isCharBoundary text start ∧ isCharBoundary text stop then .ok (Utf8.slice text start stop)
  else .error .slice

/-- `str::as_bytes`. -/
def asBytes (text : List Char) : List UInt8 := text.flatMap String.utf8EncodeChar

/-- `&bytes[start..]`. -/
def bytesFrom (bytes : List UInt8) (start : Nat) : Except Fault (List UInt8) :=
  if start ≤ bytes.length then .ok (bytes.drop start) else .error .slice

theorem checkedUsize_natCast {n : Nat} (h : n ≤ usizeMax) : checkedUsize n = some n := by
  unfold checkedUsize
  rw [if_pos ⟨by omega, by exact_mod_cast h⟩, Int.toNat_natCast]

/-- Saturating on the way is clamping at the end. -/
theorem saturatingAdd_min (a n : Nat) : saturatingAdd (min a usizeMax) n = min (a + n) usizeMax := by
  unfold saturatingAdd
  omega

theorem isCharBoundary_append (before after : List Char) :
    isCharBoundary (before ++ after) (Utf8.byteLength before) = true := by
  rw [isCharBoundary, Utf8.takeBytes_append, beq_iff_eq]

/-- A slice at the ends of a piece of the text is that piece. -/
theorem sliceStr_append (before piece after : List Char) :
    sliceStr (before ++ (piece ++ after)) (Utf8.byteLength before) (Utf8.byteLength (before ++ piece)) = .ok piece := by
  unfold sliceStr
  have hstop := isCharBoundary_append (before ++ piece) after
  rw [List.append_assoc] at hstop
  rw [if_pos ⟨by rw [Utf8.byteLength_append]; omega, isCharBoundary_append before _, hstop⟩, Utf8.slice_append]

end Rust
