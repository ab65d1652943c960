/-
Byte offsets into a text that is a list of characters, as UTF-8 encodes it. Cutting at an offset
inside a character rounds up to its end; the offsets that occur here are those of whole characters.
-/
import DataPlane.Lib.Span

namespace Utf8

/-- The text from a byte offset on. -/
def dropBytes : Nat → List Char → List Char
  | _, [] => []
  | 0, text => text
  | n + 1, c :: text => dropBytes (n + 1 - c.utf8Size) text

/-- The text up to a byte offset. -/
def takeBytes : Nat → List Char → List Char
  | _, [] => []
  | 0, _ => []
  | n + 1, c :: text => c :: takeBytes (n + 1 - c.utf8Size) text

/-- The text between two byte offsets. -/
def slice (text : List Char) (start stop : Nat) : List Char := takeBytes (stop - start) (dropBytes start text)

/-- The number of bytes of a text. -/
def byteLength (text : List Char) : Nat := (text.map Char.utf8Size).sum

theorem byteLength_nil : byteLength [] = 0 := rfl

theorem byteLength_cons (c : Char) (text : List Char) : byteLength (c :: text) = c.utf8Size + byteLength text := by
  simp [byteLength]

theorem byteLength_append (text text' : List Char) : byteLength (text ++ text') = byteLength text + byteLength text' := by
  simp [byteLength]

theorem byteLength_pos {text : List Char} (h : text ≠ []) : 0 < byteLength text := by
  cases text with
  | nil => exact absurd rfl h
  | cons c text =>
    have := c.utf8Size_pos
    rw [byteLength_cons]
    omega

/-! ## Cutting at whole characters -/

theorem dropBytes_zero (text : List Char) : dropBytes 0 text = text := by
  cases text <;> rfl

theorem takeBytes_zero (text : List Char) : takeBytes 0 text = [] := by
  cases text <;> rfl

theorem dropBytes_append : ∀ before after : List Char, dropBytes (byteLength before) (before ++ after) = after
  | [], after => dropBytes_zero after
  | c :: before, after => by
    obtain ⟨n, hn⟩ := Nat.exists_eq_add_of_lt (byteLength_pos (List.cons_ne_nil c before))
    have hn' : byteLength (c :: before) = n + 1 := by omega
    rw [hn', List.cons_append, dropBytes, ← hn', byteLength_cons, Nat.add_sub_cancel_left, dropBytes_append before after]

theorem takeBytes_append : ∀ before after : List Char, takeBytes (byteLength before) (before ++ after) = before
  | [], after => takeBytes_zero after
  | c :: before, after => by
    obtain ⟨n, hn⟩ := Nat.exists_eq_add_of_lt (byteLength_pos (List.cons_ne_nil c before))
    have hn' : byteLength (c :: before) = n + 1 := by omega
    rw [hn', List.cons_append, takeBytes, ← hn', byteLength_cons, Nat.add_sub_cancel_left, takeBytes_append before after]

/-- An offset of a whole character: the text before it is that many bytes. -/
def Boundary (text : List Char) (offset : Nat) : Prop :=
  ∃ before after, text = before ++ after ∧ byteLength before = offset

/-- Of two places in a text the one with the smaller offset is before the other. -/
theorem append_split {before after before' after' : List Char} (h : before ++ after = before' ++ after')
    (hle : byteLength before ≤ byteLength before') : ∃ piece, before' = before ++ piece ∧ after = piece ++ after' := by
  rcases List.append_eq_append_iff.mp h with ⟨piece, rfl, rfl⟩ | ⟨piece, rfl, rfl⟩
  · exact ⟨piece, rfl, rfl⟩
  · -- the second offset is not before the first, so they are the same
    rw [byteLength_append] at hle
    have hpiece : piece = [] := by
      by_contra hne
      have := byteLength_pos hne
      omega
    subst hpiece
    exact ⟨[], by simp, rfl⟩

theorem eq_of_byteLength_eq {before after before' after' : List Char} (h : before ++ after = before' ++ after')
    (heq : byteLength before = byteLength before') : before = before' := by
  obtain ⟨piece, rfl, -⟩ := append_split h heq.le
  rw [byteLength_append] at heq
  have hpiece : piece = [] := by
    by_contra hne
    have := byteLength_pos hne
    omega
  rw [hpiece, List.append_nil]

/-- What goes past a place has the character behind it. -/
theorem byteLength_concat_le {before read rest rest' : List Char} {c : Char} (h : before ++ c :: rest = read ++ rest')
    (hlt : byteLength before < byteLength read) : byteLength (before ++ [c]) ≤ byteLength read := by
  obtain ⟨piece, rfl, hpiece⟩ := append_split h hlt.le
  cases piece with
  | nil => simp at hlt
  | cons d piece =>
    obtain ⟨rfl, -⟩ := List.cons.inj hpiece
    rw [byteLength_append, byteLength_append, byteLength_cons, byteLength_cons, byteLength_nil]
    omega

/-- Between two offsets of whole characters lies a piece of the text. -/
theorem Boundary.between {before after : List Char} {stop : Nat} (h : Boundary (before ++ after) stop)
    (hle : byteLength before ≤ stop) :
    ∃ piece rest, after = piece ++ rest ∧ byteLength (before ++ piece) = stop := by
  obtain ⟨before', after', heq, rfl⟩ := h
  obtain ⟨piece, rfl, rfl⟩ := append_split heq hle
  exact ⟨piece, after', rfl, rfl⟩

theorem slice_append (before piece after : List Char) :
    slice (before ++ (piece ++ after)) (byteLength before) (byteLength (before ++ piece)) = piece := by
  rw [slice, dropBytes_append, byteLength_append, Nat.add_sub_cancel_left, takeBytes_append]

/-! ## Replacing pieces -/

/-- The text at an offset with the pieces at some spans replaced, in order: what lies between them is
kept, each piece gives way to one replacement. -/
inductive Replaced (replacement : List Char) : Nat → List (Span Nat) → List Char → List Char → Prop where
  | rest (offset : Nat) (text : List Char) : Replaced replacement offset [] text text
  | piece {offset : Nat} (gap piece : List Char) {spans : List (Span Nat)} {text out : List Char} (hne : piece ≠ [])
      (hrest : Replaced replacement (offset + byteLength gap + byteLength piece) spans text out) :
      Replaced replacement offset
        (⟨offset + byteLength gap, offset + byteLength gap + byteLength piece⟩ :: spans) (gap ++ (piece ++ text))
        (gap ++ (replacement ++ out))

end Utf8
