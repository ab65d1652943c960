/-
Trimming a list at both ends. The two ends are independent, trimming is idempotent, and an element that stays cuts the
list into a part that is trimmed in front and one that is trimmed behind. The segments between separators hold none.
-/
import Mathlib.Data.List.DropRight

namespace DataPlane.Lib

variable {α : Type} {p : α → Bool}

/-- `l` without the elements in `p` at its ends. -/
def trim (p : α → Bool) (l : List α) : List α := (l.dropWhile p).rdropWhile p

theorem rdropWhile_append_cons_neg (a b : List α) {c : α} (hc : p c = false) :
    (a ++ c :: b).rdropWhile p = a ++ c :: b.rdropWhile p := by
  have hback : (b.reverse ++ [c] ++ a.reverse).dropWhile p = b.reverse.dropWhile p ++ [c] ++ a.reverse := by
    rw [List.append_assoc, List.dropWhile_append]
    split
    · rename_i hempty
      rw [List.isEmpty_iff.mp hempty]
      simp [hc]
    · rw [List.append_assoc]
  unfold List.rdropWhile
  rw [List.reverse_append, List.reverse_cons, hback]
  simp

theorem dropWhile_append_cons_neg (a b : List α) {c : α} (hc : p c = false) :
    (a ++ c :: b).dropWhile p = a.dropWhile p ++ c :: b := by
  rw [List.dropWhile_append]
  split
  · rename_i hempty
    rw [List.isEmpty_iff.mp hempty]
    simp [hc]
  · rfl

theorem trim_append_cons (a b : List α) {c : α} (hc : p c = false) :
    trim p (a ++ c :: b) = a.dropWhile p ++ c :: b.rdropWhile p := by
  rw [trim, dropWhile_append_cons_neg a b hc, rdropWhile_append_cons_neg _ b hc]

/-- A list in `p`, or one with a first element that is not. -/
theorem all_or_split (l : List α) : l.all p = true ∨ ∃ a c b, l = a ++ c :: b ∧ a.all p = true ∧ p c = false := by
  induction l with
  | nil => exact .inl rfl
  | cons d l ih =>
    cases hd : p d with
    | false => exact .inr ⟨[], d, l, rfl, rfl, hd⟩
    | true =>
      rcases ih with hall | ⟨a, c, b, rfl, hall, hc⟩
      · exact .inl (by simp [hd, hall])
      · exact .inr ⟨d :: a, c, b, rfl, by simp [hd, hall], hc⟩

theorem dropWhile_of_all {l : List α} (h : l.all p = true) : l.dropWhile p = [] :=
  List.dropWhile_eq_nil_iff.mpr (List.all_eq_true.mp h)

theorem rdropWhile_of_all {l : List α} (h : l.all p = true) : l.rdropWhile p = [] :=
  List.rdropWhile_eq_nil_iff.mpr (List.all_eq_true.mp h)

@[simp] theorem trim_nil : trim p [] = [] := rfl

theorem trim_of_all {l : List α} (h : l.all p = true) : trim p l = [] := by
  rw [trim, dropWhile_of_all h, List.rdropWhile_nil]

theorem trim_eq_nil_iff {l : List α} : trim p l = [] ↔ l.all p = true := by
  refine ⟨fun h => ?_, trim_of_all⟩
  rcases all_or_split (p := p) l with hall | ⟨a, c, b, rfl, -, hc⟩
  · exact hall
  · rw [trim_append_cons a b hc] at h
    simp at h

theorem trim_dropWhile (l : List α) : trim p (l.dropWhile p) = trim p l := by
  rw [trim, trim, List.dropWhile_idempotent]

/-- The order of the two ends is of no account. -/
theorem trim_rdropWhile (l : List α) : trim p (l.rdropWhile p) = trim p l := by
  rcases all_or_split (p := p) l with hall | ⟨a, c, b, rfl, -, hc⟩
  · rw [rdropWhile_of_all hall, trim_of_all hall, trim_nil]
  · rw [rdropWhile_append_cons_neg a b hc, trim_append_cons _ _ hc, trim_append_cons _ _ hc,
      List.rdropWhile_idempotent]

theorem trim_trim (l : List α) : trim p (trim p l) = trim p l := by
  conv_lhs => rw [trim.eq_def p l]
  rw [trim_rdropWhile, trim_dropWhile]

theorem trim_sublist (l : List α) : (trim p l).Sublist l :=
  ((List.rdropWhile_prefix ..).sublist).trans (List.dropWhile_suffix ..).sublist

theorem notMem_of_mem_splitOn [DecidableEq α] {c : α} :
    ∀ {l segment : List α}, segment ∈ l.splitOn c → c ∉ segment
  | [], segment, h => by
    rw [List.splitOn_nil, List.mem_singleton] at h
    rw [h]
    exact List.not_mem_nil
  | d :: l, segment, h => by
    rw [List.splitOn_cons_eq_if_modifyHead] at h
    by_cases hd : d = c
    · rw [if_pos (beq_iff_eq.mpr hd)] at h
      rcases List.mem_cons.mp h with rfl | h
      · exact List.not_mem_nil
      · exact notMem_of_mem_splitOn h
    · rw [if_neg (by simp [hd])] at h
      obtain ⟨first, rest, hsplit⟩ := List.exists_cons_of_ne_nil (List.splitOn_ne_nil c l)
      rw [hsplit, List.modifyHead_cons] at h
      rcases List.mem_cons.mp h with rfl | h
      · have hfirst : c ∉ first := notMem_of_mem_splitOn (l := l) (hsplit ▸ List.mem_cons_self ..)
        exact fun hmem => (List.mem_cons.mp hmem).elim (fun h => hd h.symm) hfirst
      · exact notMem_of_mem_splitOn (l := l) (hsplit ▸ List.mem_cons_of_mem _ h)

end DataPlane.Lib
