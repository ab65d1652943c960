/-
Decimal numerals over arbitrary digit strings: the value of a list of digit characters
(`Nat.ofDigitChars 10`), its size bounds, and numerals in scientific notation with their exact
rational value. A numeral with `k` digits behind the point and exponent `e` is its digit string
scaled by `10 ^ (e - k)`; it is an integer exactly when the digits below the scale are zero.
-/
import Mathlib.Tactic.Linarith
import Mathlib.Tactic.LinearCombination
import Mathlib.Tactic.Positivity
import Mathlib.Tactic.FieldSimp
import Mathlib.Tactic.Ring
import Mathlib.Tactic.NormNum
import Mathlib.Algebra.Order.Field.Power
import Mathlib.Data.List.TakeDrop

namespace Decimal

/-! ## Digit strings -/

/-- Every character is one of `0 … 9`. -/
def Digits (l : List Char) : Prop := ∀ c ∈ l, c.isDigit = true

instance (l : List Char) : Decidable (Digits l) := decidable_of_iff (l.all Char.isDigit = true) List.all_eq_true

/-- The value of a digit string. -/
def val (l : List Char) : Nat := Nat.ofDigitChars 10 l 0

theorem Digits.append {a b : List Char} (ha : Digits a) (hb : Digits b) : Digits (a ++ b) := by
  intro c hc
  rcases List.mem_append.1 hc with h | h
  exacts [ha c h, hb c h]

theorem digit_le_nine {c : Char} (h : c.isDigit = true) : c.toNat - '0'.toNat ≤ 9 := by
  simp only [Char.isDigit, Bool.and_eq_true, decide_eq_true_eq] at h
  have h2 : c.toNat ≤ 57 := h.2
  simp only [Char.reduceToNat]; omega

theorem digit_eq_zero {c : Char} (h : c.isDigit = true) (hz : c.toNat - '0'.toNat = 0) : c = '0' := by
  simp only [Char.isDigit, Bool.and_eq_true, decide_eq_true_eq] at h
  have h1 : 48 ≤ c.toNat := h.1
  simp only [Char.reduceToNat] at hz
  exact Char.toNat_inj.1 (show c.toNat = 48 by omega)

theorem val_append (a b : List Char) : val (a ++ b) = 10 ^ b.length * val a + val b := by
  unfold val
  rw [Nat.ofDigitChars_append, Nat.ofDigitChars_eq_ofDigitChars_zero]

theorem val_cons (c : Char) (l : List Char) : val (c :: l) = 10 ^ l.length * (c.toNat - '0'.toNat) + val l := by
  rw [show c :: l = [c] ++ l from rfl, val_append]
  simp [val, Nat.ofDigitChars_cons]

@[simp] theorem val_nil : val [] = 0 := by simp [val]

theorem val_lt_pow : ∀ {l : List Char}, Digits l → val l < 10 ^ l.length
  | [], _ => by simp
  | c :: l, h => by
    have hc := digit_le_nine (h c (List.mem_cons_self ..))
    have hl := val_lt_pow fun d hd => h d (List.mem_cons_of_mem c hd)
    rw [val_cons, List.length_cons, pow_succ]
    have := Nat.mul_le_mul_left (10 ^ l.length) hc
    omega

theorem val_eq_zero_iff : ∀ {l : List Char}, Digits l → (val l = 0 ↔ l.all (· == '0') = true)
  | [], _ => by simp
  | c :: l, h => by
    have hc := h c (List.mem_cons_self ..)
    have hl : Digits l := fun d hd => h d (List.mem_cons_of_mem c hd)
    rw [val_cons, List.all_cons, Bool.and_eq_true, ← val_eq_zero_iff hl, Nat.add_eq_zero_iff,
      Nat.mul_eq_zero, beq_iff_eq]
    constructor
    · rintro ⟨h1 | h1, h2⟩
      · simp at h1
      · exact ⟨digit_eq_zero hc h1, h2⟩
    · rintro ⟨rfl, h2⟩
      exact ⟨.inr rfl, h2⟩

/-- Leading zeros do not count. -/
theorem val_dropWhile_zero : ∀ (l : List Char), val (l.dropWhile (· == '0')) = val l
  | [] => rfl
  | c :: l => by
    by_cases hc : c = '0'
    · subst hc
      rw [List.dropWhile_cons_of_pos (by decide), val_dropWhile_zero l, val_cons]
      simp
    · rw [List.dropWhile_cons_of_neg (by simpa using hc)]

/-- A digit string without a leading zero is at least the power of ten of its length. -/
theorem pow_le_val {c : Char} {l : List Char} (hc : c.isDigit = true) (h0 : c ≠ '0') : 10 ^ l.length ≤ val (c :: l) := by
  rw [val_cons]
  have : 1 ≤ c.toNat - '0'.toNat := by
    by_contra hlt
    exact h0 (digit_eq_zero hc (by omega))
  calc 10 ^ l.length = 10 ^ l.length * 1 := (Nat.mul_one _).symm
    _ ≤ 10 ^ l.length * (c.toNat - '0'.toNat) := Nat.mul_le_mul_left _ this
    _ ≤ _ := Nat.le_add_right _ _

theorem Digits.dropWhile {l : List Char} (h : Digits l) (p : Char → Bool) : Digits (l.dropWhile p) :=
  fun c hc => h c ((List.dropWhile_sublist p).subset hc)

/-! ## Integers among scaled digit strings -/

/-- Scaled up, a digit string is an integer. -/
theorem scaled_up (l : List Char) (k : Nat) (n : Int) :
    (val l : ℚ) * (10 : ℚ) ^ (k : Int) = n ↔ ((val l * 10 ^ k : Nat) : Int) = n := by
  rw [zpow_natCast]; exact_mod_cast Iff.rfl

/-- Scaled down by the length of its tail, a digit string is an integer exactly when the tail is
zero, and then it is the value of the rest. -/
theorem scaled_down {a b : List Char} (hb : Digits b) (n : Int) :
    (val (a ++ b) : ℚ) * (10 : ℚ) ^ (-(b.length : Int)) = n ↔ val b = 0 ∧ (val a : Int) = n := by
  have hp : (0 : ℚ) < 10 ^ b.length := by positivity
  have hlt := val_lt_pow hb
  rw [zpow_neg, zpow_natCast, ← div_eq_mul_inv, div_eq_iff (ne_of_gt hp), val_append]
  constructor
  · intro h
    have h' : ((10 ^ b.length * val a + val b : Nat) : Int) = n * 10 ^ b.length := by exact_mod_cast h
    push_cast at h'
    have hmod : (val b : Int) = (n - val a) * 10 ^ b.length := by linear_combination h'
    have hdvd : (10 : Int) ^ b.length ∣ val b := ⟨n - val a, by rw [hmod]; ring⟩
    have hz : val b = 0 := Nat.eq_zero_of_dvd_of_lt (by exact_mod_cast hdvd) hlt
    refine ⟨hz, ?_⟩
    rw [hz] at hmod
    have hpi : (10 : Int) ^ b.length ≠ 0 := by positivity
    have := (mul_eq_zero.1 hmod.symm).resolve_right hpi
    omega
  · rintro ⟨h0, rfl⟩
    rw [h0]; push_cast; ring

/-- Scaled down beyond its length, a digit string is an integer only if it is zero. -/
theorem scaled_below {l : List Char} (hl : Digits l) {k : Nat} (hk : l.length < k) (n : Int) :
    (val l : ℚ) * (10 : ℚ) ^ (-(k : Int)) = n ↔ val l = 0 ∧ n = 0 := by
  have hp : (0 : ℚ) < 10 ^ k := by positivity
  have hlt : val l < 10 ^ k := lt_of_lt_of_le (val_lt_pow hl) (Nat.pow_le_pow_right (by norm_num) hk.le)
  rw [zpow_neg, zpow_natCast, ← div_eq_mul_inv, div_eq_iff (ne_of_gt hp)]
  constructor
  · intro h
    have h' : (val l : Int) = n * 10 ^ k := by exact_mod_cast h
    have hdvd : (10 : Int) ^ k ∣ val l := ⟨n, by rw [h']; ring⟩
    have hz : val l = 0 := Nat.eq_zero_of_dvd_of_lt (by exact_mod_cast hdvd) hlt
    refine ⟨hz, ?_⟩
    rw [hz] at h'
    have hpi : (10 : Int) ^ k ≠ 0 := by positivity
    exact (mul_eq_zero.1 h'.symm).resolve_right hpi
  · rintro ⟨h0, rfl⟩
    rw [h0]; simp

/-! ## Numerals -/

/-- A decimal numeral in scientific notation, taken apart. -/
structure Numeral where
  negative : Bool
  whole : List Char
  fraction : List Char
  exponent : Int

namespace Numeral

/-- The digits before and behind the point. -/
def digits (m : Numeral) : List Char := m.whole ++ m.fraction

/-- How many of the digits stand below one, once the exponent is applied. -/
def scale (m : Numeral) : Int := m.fraction.length - m.exponent

/-- The exact value. -/
def value (m : Numeral) : ℚ := (if m.negative then -1 else 1) * ((val m.digits : ℚ) * (10 : ℚ) ^ (-m.scale))

end Numeral

/-- `s` is an optional sign and at least one digit, with value `e`. -/
def ReadsInt (s : List Char) (e : Int) : Prop :=
  ∃ d : List Char, d ≠ [] ∧ Digits d ∧
    ((s = '-' :: d ∧ e = -(val d : Int)) ∨ ((s = d ∨ s = '+' :: d) ∧ e = val d))

/-- The sign of a numeral: `-`, or nothing or `+`. -/
def Sign (negative : Bool) (sign : List Char) : Prop :=
  (negative = true ∧ sign = ['-']) ∨ (negative = false ∧ (sign = [] ∨ sign = ['+']))

/-- The point and the fraction of a numeral. -/
def pointText (fraction : List Char) : List Char := if fraction = [] then [] else '.' :: fraction

/-- The exponent part of a numeral. -/
def Tail (tail : List Char) (e : Int) : Prop :=
  (tail = [] ∧ e = 0) ∨ ∃ mark t, tail = mark :: t ∧ (mark = 'e' ∨ mark = 'E') ∧ ReadsInt t e

/-- `s` is written as the numeral `m`: an optional sign, one or more digits, optionally a point
and one or more digits, optionally `e` or `E` and an integer. -/
structure Reads (s : List Char) (m : Numeral) : Prop where
  whole : Digits m.whole
  whole_ne : m.whole ≠ []
  fraction : Digits m.fraction
  layout : ∃ sign tail : List Char, s = sign ++ (m.whole ++ (pointText m.fraction ++ tail)) ∧
    Sign m.negative sign ∧ Tail tail m.exponent

/-- `s` is a decimal numeral whose exact value is the integer `n`. -/
def Denotes (s : List Char) (n : Int) : Prop := ∃ m, Reads s m ∧ m.value = n

/-! ## A text has one reading -/

/-- No digit comes first. -/
def NoDigitHead (r : List Char) : Prop := ∀ c, r.head? = some c → c.isDigit = false

theorem digits_append_inj {r r' : List Char} (hr : NoDigitHead r) (hr' : NoDigitHead r') :
    ∀ {a a' : List Char}, Digits a → Digits a' → a ++ r = a' ++ r' → a = a' ∧ r = r'
  | [], [], _, _, h => ⟨rfl, h⟩
  | [], c :: a', _, ha', h => by
    have := hr c (by rw [show r = c :: (a' ++ r') from h]; rfl)
    rw [ha' c (List.mem_cons_self ..)] at this; cases this
  | c :: a, [], ha, _, h => by
    have := hr' c (by rw [show r' = c :: (a ++ r) from h.symm]; rfl)
    rw [ha c (List.mem_cons_self ..)] at this; cases this
  | c :: a, c' :: a', ha, ha', h => by
    injection h with h1 h2
    obtain ⟨rfl, h3⟩ := digits_append_inj hr hr' (fun x hx => ha x (List.mem_cons_of_mem _ hx))
      (fun x hx => ha' x (List.mem_cons_of_mem _ hx)) h2
    exact ⟨by rw [h1], h3⟩

theorem NoDigitHead.cons {c : Char} {r : List Char} (h : c.isDigit = false) : NoDigitHead (c :: r) := by
  rintro d ⟨⟩; exact h

theorem NoDigitHead.nil : NoDigitHead [] := by rintro d ⟨⟩

theorem ReadsInt.unique {s : List Char} {e e' : Int} (h : ReadsInt s e) (h' : ReadsInt s e') : e = e' := by
  obtain ⟨d, hne, hd, h⟩ := h
  obtain ⟨d', hne', hd', h'⟩ := h'
  have hminus : ∀ {x y : List Char}, Digits x → x ≠ '-' :: y := by
    rintro x y hx rfl; exact absurd (hx '-' (List.mem_cons_self ..)) (by decide)
  have hplus : ∀ {x y : List Char}, Digits x → x ≠ '+' :: y := by
    rintro x y hx rfl; exact absurd (hx '+' (List.mem_cons_self ..)) (by decide)
  rcases h with ⟨rfl, rfl⟩ | ⟨rfl | rfl, rfl⟩ <;> rcases h' with ⟨h', rfl⟩ | ⟨h' | h', rfl⟩
  · cases h'; rfl
  · exact absurd h'.symm (hminus hd')
  · cases h'
  · exact absurd h' (hminus hd)
  · cases h'; rfl
  · exact absurd h' (hplus hd)
  · cases h'
  · exact absurd h'.symm (hplus hd')
  · cases h'; rfl

theorem Tail.noDigitHead {tail : List Char} {e : Int} (h : Tail tail e) : NoDigitHead tail := by
  rcases h with ⟨rfl, -⟩ | ⟨mark, t, rfl, rfl | rfl, -⟩
  exacts [.nil, .cons (by decide), .cons (by decide)]

theorem Tail.unique {tail : List Char} {e e' : Int} (h : Tail tail e) (h' : Tail tail e') : e = e' := by
  rcases h with ⟨rfl, rfl⟩ | ⟨mark, t, rfl, -, hr⟩ <;> rcases h' with ⟨h', rfl⟩ | ⟨mark', t', h', -, hr'⟩
  · rfl
  · cases h'
  · cases h'
  · cases h'; exact hr.unique hr'

theorem point_tail_inj {f f' tail tail' : List Char} {e e' : Int} (hf : Digits f) (hf' : Digits f')
    (ht : Tail tail e) (ht' : Tail tail' e') (h : pointText f ++ tail = pointText f' ++ tail') : f = f' ∧ tail = tail' := by
  -- an exponent part never starts with a point
  have hpoint : ∀ {g s : List Char} {e : Int}, Tail s e → s ≠ '.' :: g := by
    rintro g s e (⟨rfl, -⟩ | ⟨mark, t, rfl, rfl | rfl, -⟩) h <;> cases h
  unfold pointText at h
  split at h <;> split at h
  · rename_i h1 h2; subst h1; subst h2; exact ⟨rfl, h⟩
  · exact absurd h (hpoint ht)
  · exact absurd h.symm (hpoint ht')
  · injection h with _ h
    exact digits_append_inj ht.noDigitHead ht'.noDigitHead hf hf' h

theorem NoDigitHead.point {f tail : List Char} {e : Int} (h : Tail tail e) : NoDigitHead (pointText f ++ tail) := by
  unfold pointText
  split
  · exact h.noDigitHead
  · exact .cons (by decide)

/-- Behind a sign stands a digit, so the sign is read off. -/
theorem sign_append_inj {b b' : Bool} {sg sg' : List Char} {c c' : Char} {r r' : List Char} (h : Sign b sg)
    (h' : Sign b' sg') (hc : c.isDigit = true) (hc' : c'.isDigit = true) (he : sg ++ c :: r = sg' ++ c' :: r') :
    b = b' ∧ c :: r = c' :: r' := by
  rcases h with ⟨rfl, rfl⟩ | ⟨rfl, rfl | rfl⟩ <;> rcases h' with ⟨rfl, rfl⟩ | ⟨rfl, rfl | rfl⟩ <;>
    simp only [List.nil_append, List.cons_append, List.cons.injEq, Char.reduceEq, false_and, true_and] at he
  · exact ⟨rfl, by rw [he.1, he.2]⟩
  · obtain ⟨rfl, -⟩ := he; exact absurd hc' (by decide)
  · obtain ⟨rfl, -⟩ := he; exact absurd hc (by decide)
  · exact ⟨rfl, by rw [he.1, he.2]⟩
  · obtain ⟨rfl, -⟩ := he; exact absurd hc (by decide)
  · obtain ⟨rfl, -⟩ := he; exact absurd hc' (by decide)
  · exact ⟨rfl, by rw [he.1, he.2]⟩

/-- A text has at most one reading as a numeral. -/
theorem Reads.unique {s : List Char} {m m' : Numeral} (h : Reads s m) (h' : Reads s m') : m = m' := by
  obtain ⟨hw, hne, hf, sign, tail, rfl, hsign, ht⟩ := h
  obtain ⟨hw', hne', hf', sign', tail', he, hsign', ht'⟩ := h'
  have hrest : m.negative = m'.negative ∧
      m.whole ++ (pointText m.fraction ++ tail) = m'.whole ++ (pointText m'.fraction ++ tail') := by
    obtain ⟨c, w, hcw⟩ := List.exists_cons_of_ne_nil hne
    obtain ⟨c', w', hcw'⟩ := List.exists_cons_of_ne_nil hne'
    rw [hcw] at hw he ⊢
    rw [hcw'] at hw' he ⊢
    exact sign_append_inj hsign hsign' (hw c (List.mem_cons_self ..)) (hw' c' (List.mem_cons_self ..)) he
  obtain ⟨hwhole, hpt⟩ := digits_append_inj (.point ht) (.point ht') hw hw' hrest.2
  obtain ⟨hfr, rfl⟩ := point_tail_inj hf hf' ht ht' hpt
  have hexp := ht.unique ht'
  obtain ⟨negative, whole, fraction, exponent⟩ := m
  obtain ⟨negative', whole', fraction', exponent'⟩ := m'
  simp only at hrest hwhole hfr hexp
  rw [hrest.1, hwhole, hfr, hexp]

theorem Denotes.unique {s : List Char} {n n' : Int} (h : Denotes s n) (h' : Denotes s n') : n = n' := by
  obtain ⟨m, hr, hv⟩ := h
  obtain ⟨m', hr', hv'⟩ := h'
  rw [hr.unique hr', hv'] at hv
  exact_mod_cast hv.symm

end Decimal
