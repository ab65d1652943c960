/-
`parse_integer_header_value`: the decimal text of an `Mcp-Param-*` header, or of a JSON number,
read as an integer of the safe range. The parser accepts exactly the decimal numerals whose value
is a safe integer and whose exponent and scale are `i64`s; it never rounds and never wraps.
-/
import DataPlane.Lib.Decimal
import Mathlib.Data.List.DropRight

namespace DataPlane.Headers

/-! ## Machine integers -/

def i64Min : Int := -9223372036854775808
def i64Max : Int := 9223372036854775807
def u64Max : Nat := 18446744073709551615

/-- A value of the type `i64`. -/
def InI64 (n : Int) : Prop := i64Min ≤ n ∧ n ≤ i64Max

instance (n : Int) : Decidable (InI64 n) := inferInstanceAs (Decidable (_ ∧ _))

/-- `i64::checked_*`: the exact result, or `None` when it leaves the type. -/
def checkedI64 (n : Int) : Option Int := if InI64 n then some n else none

/-- `u64::checked_*` and `str::parse::<u64>` on digits. -/
def checkedU64 (n : Nat) : Option Nat := if n ≤ u64Max then some n else none

def maxSafeInteger : Int := 9007199254740991
def minSafeInteger : Int := -maxSafeInteger

/-- `(MIN_SAFE_INTEGER..=MAX_SAFE_INTEGER).contains(value)`. -/
def Safe (n : Int) : Prop := minSafeInteger ≤ n ∧ n ≤ maxSafeInteger

instance (n : Int) : Decidable (Safe n) := inferInstanceAs (Decidable (_ ∧ _))

/-! ## The parser -/

/-- A leading `-` or `+`, and the rest. -/
def splitSign : List Char → Bool × List Char
  | '-' :: rest => (true, rest)
  | '+' :: rest => (false, rest)
  | value => (false, value)

/-- `str::parse::<i64>`. -/
def parseI64 (s : List Char) : Option Int :=
  let (negative, digits) := splitSign s
  if digits.isEmpty || !digits.all Char.isDigit then none
  else checkedI64 (if negative then -(Decimal.val digits : Int) else Decimal.val digits)

/-- `str::split_once`: the parts before and behind the first character satisfying `p`. -/
def splitOnce (p : Char → Bool) : List Char → Option (List Char × List Char)
  | [] => none
  | c :: cs => if p c then some ([], cs) else (splitOnce p cs).map fun (a, b) => (c :: a, b)

def isExponentMark (c : Char) : Bool := c == 'e' || c == 'E'

/-- The mantissa and the exponent. -/
def splitExponent (value : List Char) : Option (List Char × Int) :=
  match splitOnce isExponentMark value with
  | some (mantissa, exponent) => (parseI64 exponent).map fun e => (mantissa, e)
  | none => some (value, 0)

/-- The digits before and behind the point; a point needs digits behind it. -/
def splitFraction (mantissa : List Char) : Option (List Char × List Char) :=
  match splitOnce (· == '.') mantissa with
  | some (whole, fraction) => if fraction.isEmpty then none else some (whole, fraction)
  | none => some (mantissa, [])

/-- The digits that stand before one and the number of zeros to add, for digits scaled by
`10 ^ (-scale)`; `inl` is the early answer of digits that are all below one. -/
def scaleDigits (digits : List Char) (scale : Int) : Option (Int ⊕ List Char × Nat) :=
  if 0 < scale then
    let scale := scale.toNat
    if digits.length < scale then
      if digits.all (· == '0') then some (.inl 0) else none
    else if (digits.drop (digits.length - scale)).all (· == '0') then
      some (.inr (digits.take (digits.length - scale), 0))
    else none
  else (checkedI64 (-scale)).map fun zeroes => .inr (digits, zeroes.toNat)

/-- The integer of a digit string and its trailing zeros, if it is safe. The bound on the length
comes first, so neither the parse nor the product below it can leave `u64`. -/
def safeInteger (negative : Bool) (integerDigits : List Char) (trailingZeroes : Nat) : Option Int := do
  let integerDigits := integerDigits.dropWhile (· == '0')
  if integerDigits.isEmpty then return 0
  if 16 < integerDigits.length + trailingZeroes then none
  let magnitude ← checkedU64 (Decimal.val integerDigits)
  let power ← checkedU64 (10 ^ trailingZeroes)
  let magnitude ← checkedU64 (magnitude * power)
  if maxSafeInteger < magnitude then none
  let magnitude ← checkedI64 magnitude
  if negative then checkedI64 (-magnitude) else some magnitude

/-- The code's checks that a length fits its type are left out: no Rust string is longer than
`isize::MAX`. -/
def parseIntegerHeaderValue (value : List Char) : Option Int := do
  let (negative, value) := splitSign value
  let (mantissa, exponent) ← splitExponent value
  let (whole, fraction) ← splitFraction mantissa
  if whole.isEmpty || !whole.all Char.isDigit || !fraction.all Char.isDigit then none
  let scale ← checkedI64 (fraction.length - exponent)
  match ← scaleDigits (whole ++ fraction) scale with
  | .inl n => some n
  | .inr (integerDigits, trailingZeroes) => safeInteger negative integerDigits trailingZeroes

/-! ## Reading the text -/

theorem checkedI64_eq_some {n m : Int} : checkedI64 n = some m ↔ InI64 n ∧ n = m := by
  unfold checkedI64
  split
  · rename_i h; simp [h]
  · rename_i h; simp only [reduceCtorEq, false_iff]; exact fun h' => h h'.1

theorem splitSign_eq (s : List Char) :
    (∃ rest, s = '-' :: rest ∧ splitSign s = (true, rest)) ∨
      (∃ rest, s = '+' :: rest ∧ splitSign s = (false, rest)) ∨
      (splitSign s = (false, s) ∧ s.head? ≠ some '-' ∧ s.head? ≠ some '+') := by
  unfold splitSign
  split
  · exact .inl ⟨_, rfl, rfl⟩
  · exact .inr (.inl ⟨_, rfl, rfl⟩)
  · rename_i h1 h2
    refine .inr (.inr ⟨rfl, fun h => ?_, fun h => ?_⟩) <;> obtain ⟨t, rfl⟩ := List.head?_eq_some_iff.1 h
    · exact h1 t rfl
    · exact h2 t rfl

theorem splitSign_digits {d : List Char} (hd : Decimal.Digits d) : splitSign d = (false, d) := by
  rcases splitSign_eq d with ⟨r, rfl, _⟩ | ⟨r, rfl, _⟩ | ⟨h, _⟩
  · exact absurd (hd '-' (List.mem_cons_self ..)) (by decide)
  · exact absurd (hd '+' (List.mem_cons_self ..)) (by decide)
  · exact h

theorem digits_of_all {l : List Char} (h : l.all Char.isDigit = true) : Decimal.Digits l := List.all_eq_true.1 h

/-- `parse::<i64>` reads exactly the signed digit strings whose value is an `i64`. -/
theorem parseI64_eq_some {s : List Char} {e : Int} :
    parseI64 s = some e ↔ Decimal.ReadsInt s e ∧ InI64 e := by
  constructor
  · intro h
    unfold parseI64 at h
    rcases splitSign_eq s with ⟨d, rfl, hs⟩ | ⟨d, rfl, hs⟩ | ⟨hs, _⟩ <;> rw [hs] at h <;>
      simp only [Bool.or_eq_true, Bool.not_eq_true', List.isEmpty_iff, if_true, Bool.false_eq_true, if_false] at h <;>
      split at h <;> try cases h
    all_goals
      rename_i hc
      simp only [not_or, Bool.not_eq_false] at hc
      obtain ⟨hin, rfl⟩ := checkedI64_eq_some.1 h
    · exact ⟨⟨d, hc.1, digits_of_all hc.2, .inl ⟨rfl, rfl⟩⟩, hin⟩
    · exact ⟨⟨d, hc.1, digits_of_all hc.2, .inr ⟨.inr rfl, rfl⟩⟩, hin⟩
    · exact ⟨⟨s, hc.1, digits_of_all hc.2, .inr ⟨.inl rfl, rfl⟩⟩, hin⟩
  · rintro ⟨⟨d, hne, hd, h⟩, hin⟩
    have hall : d.all Char.isDigit = true := List.all_eq_true.2 hd
    have hemp : d.isEmpty = false := by simpa using hne
    unfold parseI64
    rcases h with ⟨rfl, rfl⟩ | ⟨rfl | rfl, rfl⟩
    · simp [splitSign, hall, hemp, checkedI64_eq_some, hin]
    · simp [splitSign_digits hd, hall, hemp, checkedI64_eq_some, hin]
    · simp [splitSign, hall, hemp, checkedI64_eq_some, hin]

theorem splitOnce_eq_some {p : Char → Bool} : ∀ {s a b : List Char},
    splitOnce p s = some (a, b) ↔ ∃ c, s = a ++ c :: b ∧ p c = true ∧ ∀ x ∈ a, p x = false
  | [], a, b => by simp [splitOnce]
  | c :: s, a, b => by
    unfold splitOnce
    split
    · rename_i hc
      constructor
      · intro h; cases h; exact ⟨c, rfl, hc, by simp⟩
      · rintro ⟨d, h, hd, ha⟩
        cases a with
        | nil => cases h; rfl
        | cons x a =>
          cases h
          rw [ha c (List.mem_cons_self ..)] at hc; cases hc
    · rename_i hc
      simp only [Option.map_eq_some_iff, Prod.exists, Prod.mk.injEq, Bool.not_eq_true] at hc ⊢
      constructor
      · rintro ⟨a', b', h, rfl, rfl⟩
        obtain ⟨d, rfl, hd, ha⟩ := splitOnce_eq_some.1 h
        refine ⟨d, rfl, hd, fun x hx => ?_⟩
        rcases List.mem_cons.1 hx with rfl | hx
        exacts [hc, ha x hx]
      · rintro ⟨d, h, hd, ha⟩
        cases a with
        | nil => cases h; rw [hc] at hd; cases hd
        | cons x a =>
          cases h
          exact ⟨a, b, splitOnce_eq_some.2 ⟨d, rfl, hd, fun x hx => ha x (List.mem_cons_of_mem _ hx)⟩, rfl, rfl⟩

theorem splitOnce_eq_none {p : Char → Bool} : ∀ {s : List Char}, splitOnce p s = none ↔ ∀ x ∈ s, p x = false
  | [] => by simp [splitOnce]
  | c :: s => by
    unfold splitOnce
    by_cases hc : p c = true
    · simp [hc]
    · simp only [hc, Bool.false_eq_true, if_false, Option.map_eq_none_iff, List.forall_mem_cons, true_and]
      rw [splitOnce_eq_none]

/-- The numeral the parser takes a text apart into. -/
def readNumeral (value : List Char) : Option Decimal.Numeral := do
  let (negative, value) := splitSign value
  let (mantissa, exponent) ← splitExponent value
  let (whole, fraction) ← splitFraction mantissa
  if whole.isEmpty || !whole.all Char.isDigit || !fraction.all Char.isDigit then none
  else some { negative, whole, fraction, exponent }

theorem digit_not_mark {c : Char} (h : c.isDigit = true) : isExponentMark c = false ∧ (c == '.') = false := by
  constructor
  · simp only [isExponentMark, Bool.or_eq_false_iff, beq_eq_false_iff_ne]
    constructor <;> rintro rfl <;> exact absurd h (by decide)
  · rw [beq_eq_false_iff_ne]; rintro rfl; exact absurd h (by decide)

theorem mantissa_no_mark {whole fraction : List Char} (hw : Decimal.Digits whole) (hf : Decimal.Digits fraction) :
    ∀ x ∈ whole ++ Decimal.pointText fraction, isExponentMark x = false := by
  intro x hx
  rcases List.mem_append.1 hx with hx | hx
  · exact (digit_not_mark (hw x hx)).1
  · unfold Decimal.pointText at hx
    split at hx
    · cases hx
    · rcases List.mem_cons.1 hx with rfl | hx
      · decide
      · exact (digit_not_mark (hf x hx)).1

theorem splitFraction_mantissa {whole fraction : List Char} (hw : Decimal.Digits whole) :
    splitFraction (whole ++ Decimal.pointText fraction) = some (whole, fraction) := by
  unfold splitFraction Decimal.pointText
  split
  · rename_i a b h
    obtain ⟨c, he, hc, ha⟩ := splitOnce_eq_some.1 h
    by_cases hfr : fraction = []
    · subst hfr
      simp only [if_true, List.append_nil] at he
      subst he
      have := (digit_not_mark (hw c (by simp))).2
      rw [hc] at this; cases this
    · rw [if_neg hfr] at he
      have hsplit := (splitOnce_eq_some (p := (· == '.')) (a := whole) (b := fraction)).2
        ⟨'.', rfl, by decide, fun x hx => (digit_not_mark (hw x hx)).2⟩
      rw [if_neg hfr] at h
      rw [h] at hsplit
      cases hsplit
      simp [hfr]
  · rename_i h
    by_cases hfr : fraction = []
    · subst hfr; simp
    · have := splitOnce_eq_none.1 h '.' (by simp [hfr])
      cases this

theorem splitFraction_eq_some {mantissa whole fraction : List Char}
    (h : splitFraction mantissa = some (whole, fraction)) : mantissa = whole ++ Decimal.pointText fraction := by
  unfold splitFraction at h
  unfold Decimal.pointText
  split at h
  · rename_i a b hs
    split at h
    · cases h
    · rename_i hne
      cases h
      obtain ⟨c, rfl, hc, -⟩ := splitOnce_eq_some.1 hs
      rw [if_neg (by simpa using hne), eq_of_beq hc]
  · cases h; simp

theorem isExponentMark_iff {c : Char} : isExponentMark c = true ↔ c = 'e' ∨ c = 'E' := by
  simp [isExponentMark]

theorem splitExponent_eq_some {value mantissa : List Char} {e : Int}
    (h : splitExponent value = some (mantissa, e)) :
    InI64 e ∧ ∃ tail, value = mantissa ++ tail ∧ Decimal.Tail tail e := by
  unfold splitExponent at h
  split at h
  · rename_i a b hs
    obtain ⟨e', he, h⟩ := Option.map_eq_some_iff.1 h
    cases h
    obtain ⟨c, rfl, hc, -⟩ := splitOnce_eq_some.1 hs
    obtain ⟨hr, hin⟩ := parseI64_eq_some.1 he
    exact ⟨hin, c :: b, rfl, .inr ⟨c, b, rfl, isExponentMark_iff.1 hc, hr⟩⟩
  · cases h
    exact ⟨by decide, [], (List.append_nil _).symm, .inl ⟨rfl, rfl⟩⟩

theorem splitExponent_append {mantissa tail : List Char} {e : Int}
    (hm : ∀ x ∈ mantissa, isExponentMark x = false) (ht : Decimal.Tail tail e) (hin : InI64 e) :
    splitExponent (mantissa ++ tail) = some (mantissa, e) := by
  unfold splitExponent
  rcases ht with ⟨rfl, rfl⟩ | ⟨mark, t, rfl, hmark, hr⟩
  · rw [List.append_nil, splitOnce_eq_none.2 hm]
  · rw [splitOnce_eq_some.2 ⟨mark, rfl, isExponentMark_iff.2 hmark, hm⟩]
    simp [parseI64_eq_some.2 ⟨hr, hin⟩]

/-- The sign the parser takes off is the numeral's. -/
theorem splitSign_append {negative : Bool} {sign rest : List Char} {c : Char} (h : Decimal.Sign negative sign)
    (hc : c.isDigit = true) : splitSign (sign ++ c :: rest) = (negative, c :: rest) := by
  rcases h with ⟨rfl, rfl⟩ | ⟨rfl, rfl | rfl⟩
  · rfl
  · rcases splitSign_eq (c :: rest) with ⟨r, h, _⟩ | ⟨r, h, _⟩ | ⟨h, _⟩
    · cases h; exact absurd hc (by decide)
    · cases h; exact absurd hc (by decide)
    · exact h
  · rfl

theorem readNumeral_eq_some {s : List Char} {m : Decimal.Numeral} :
    readNumeral s = some m ↔ Decimal.Reads s m ∧ InI64 m.exponent := by
  constructor
  · intro h
    unfold readNumeral at h
    simp only [bind, Option.bind_eq_some_iff, Prod.exists] at h
    obtain ⟨mantissa, e, hexp, whole, fraction, hfr, h⟩ := h
    split at h
    · cases h
    · rename_i hc
      cases h
      simp only [Bool.or_eq_true, Bool.not_eq_true', List.isEmpty_iff, not_or, Bool.not_eq_false] at hc
      obtain ⟨⟨hne, hw⟩, hf⟩ := hc
      obtain ⟨hin, tail, hv, ht⟩ := splitExponent_eq_some hexp
      rw [splitFraction_eq_some hfr, List.append_assoc] at hv
      refine ⟨⟨digits_of_all hw, hne, digits_of_all hf, ?_⟩, hin⟩
      rcases splitSign_eq s with ⟨r, rfl, hs⟩ | ⟨r, rfl, hs⟩ | ⟨hs, -⟩ <;> rw [hs] at hv ⊢ <;> simp only at hv ⊢
      · exact ⟨['-'], tail, by rw [hv]; rfl, .inl ⟨rfl, rfl⟩, ht⟩
      · exact ⟨['+'], tail, by rw [hv]; rfl, .inr ⟨rfl, .inr rfl⟩, ht⟩
      · exact ⟨[], tail, hv, .inr ⟨rfl, .inl rfl⟩, ht⟩
  · rintro ⟨⟨hw, hne, hf, sign, tail, rfl, hsign, ht⟩, hin⟩
    have hsplit : splitSign (sign ++ (m.whole ++ (Decimal.pointText m.fraction ++ tail))) =
        (m.negative, (m.whole ++ Decimal.pointText m.fraction) ++ tail) := by
      obtain ⟨c, r, hcr⟩ := List.exists_cons_of_ne_nil hne
      rw [List.append_assoc, hcr]
      exact splitSign_append hsign (hw c (by rw [hcr]; exact List.mem_cons_self ..))
    unfold readNumeral
    rw [hsplit]
    simp only [splitExponent_append (mantissa_no_mark hw hf) ht hin, splitFraction_mantissa hw, bind,
      Option.bind_some]
    have h1 : m.whole.isEmpty = false := by simpa using hne
    have h2 : m.whole.all Char.isDigit = true := List.all_eq_true.2 hw
    have h3 : m.fraction.all Char.isDigit = true := List.all_eq_true.2 hf
    rw [h1, h2, h3]
    rfl

/-! ## The value of the digits -/

/-- The factor a sign stands for. -/
def signOf (negative : Bool) : Int := if negative then -1 else 1

theorem safe_signOf {negative : Bool} {k : Nat} :
    Safe (signOf negative * k) ↔ (k : Int) ≤ maxSafeInteger := by
  unfold Safe signOf minSafeInteger maxSafeInteger
  split <;> omega

/-- The length bound is exact: a longer number exceeds the safe range, a shorter one stays in `u64`. -/
theorem val_mul_pow_lt {d : List Char} {z : Nat} (hd : Decimal.Digits d) (h : d.length + z ≤ 16) :
    Decimal.val d * 10 ^ z < 10 ^ 16 :=
  calc Decimal.val d * 10 ^ z < 10 ^ d.length * 10 ^ z :=
        Nat.mul_lt_mul_of_pos_right (Decimal.val_lt_pow hd) (by positivity)
    _ = 10 ^ (d.length + z) := (pow_add ..).symm
    _ ≤ 10 ^ 16 := Nat.pow_le_pow_right (by norm_num) h

theorem le_val_mul_pow {c : Char} {d : List Char} {z : Nat} (hc : c.isDigit = true) (h0 : c ≠ '0')
    (h : 16 < (c :: d).length + z) : 10 ^ 16 ≤ Decimal.val (c :: d) * 10 ^ z :=
  calc 10 ^ 16 ≤ 10 ^ (d.length + z) := Nat.pow_le_pow_right (by norm_num) (by simp only [List.length_cons] at h; omega)
    _ = 10 ^ d.length * 10 ^ z := pow_add ..
    _ ≤ _ := Nat.mul_le_mul_right _ (Decimal.pow_le_val hc h0)

theorem checkedU64_of_lt {n : Nat} (h : n < 10 ^ 16) : checkedU64 n = some n := by
  unfold checkedU64 u64Max; rw [if_pos (by omega)]

/-- `safeInteger` on trimmed digits. -/
theorem safeInteger_trimmed {negative : Bool} {c : Char} {d : List Char} {z : Nat} {n : Int}
    (hd : Decimal.Digits (c :: d)) (h0 : c ≠ '0') :
    safeInteger negative (c :: d) z = some n ↔
      signOf negative * ((Decimal.val (c :: d) * 10 ^ z : Nat) : Int) = n ∧ Safe n := by
  have htrim : (c :: d).dropWhile (· == '0') = c :: d := List.dropWhile_cons_of_neg (by simpa using h0)
  unfold safeInteger
  simp only [htrim, List.isEmpty_cons, Bool.false_eq_true, if_false]
  by_cases hlen : 16 < (c :: d).length + z
  · have hbig := le_val_mul_pow (z := z) (hd c (List.mem_cons_self ..)) h0 hlen
    simp only [hlen, if_true, bind, Option.bind_none, reduceCtorEq, false_iff, not_and]
    rintro rfl hs
    have := safe_signOf.1 hs
    unfold maxSafeInteger at this
    omega
  · have hlt := val_mul_pow_lt (z := z) hd (by omega)
    have h1 : Decimal.val (c :: d) < 10 ^ 16 :=
      lt_of_le_of_lt (Nat.le_mul_of_pos_right _ (by positivity)) hlt
    have h2 : 10 ^ z < 10 ^ 16 := Nat.pow_lt_pow_right (by norm_num) (by simp only [List.length_cons] at hlen; omega)
    simp only [hlen, if_false, checkedU64_of_lt h1, checkedU64_of_lt h2, checkedU64_of_lt hlt, bind,
      Option.bind_some]
    generalize Decimal.val (c :: d) * 10 ^ z = k at hlt
    by_cases hk : maxSafeInteger < (k : Int)
    · simp only [hk, if_true, Option.bind_none, reduceCtorEq, false_iff, not_and]
      rintro rfl hs
      exact absurd (safe_signOf.1 hs) (by omega)
    · have hin : InI64 k := by unfold InI64 i64Min i64Max; omega
      have hneg : InI64 (-k) := by unfold InI64 i64Min i64Max; omega
      simp only [hk, if_false, Option.bind_some, checkedI64, hin, hneg, if_true]
      have hsafe : Safe (signOf negative * k) ↔ _ := safe_signOf
      cases negative
      · simp only [signOf, Bool.false_eq_true, if_false, one_mul, Option.some.injEq] at hsafe ⊢
        exact ⟨fun h => ⟨h, h ▸ hsafe.2 (by omega)⟩, fun h => h.1⟩
      · simp only [signOf, if_true, neg_mul, one_mul, Option.some.injEq] at hsafe ⊢
        exact ⟨fun h => ⟨h, h ▸ hsafe.2 (by omega)⟩, fun h => h.1⟩

theorem safe_zero : Safe 0 := by decide

/-- `safeInteger` is the signed value of the digits and zeros, exactly when that is safe. -/
theorem safeInteger_eq_some {negative : Bool} {d : List Char} {z : Nat} {n : Int} (hd : Decimal.Digits d) :
    safeInteger negative d z = some n ↔ signOf negative * ((Decimal.val d * 10 ^ z : Nat) : Int) = n ∧ Safe n := by
  rw [← Decimal.val_dropWhile_zero d]
  have hd' := hd.dropWhile (· == '0')
  have hidem : safeInteger negative d z = safeInteger negative (d.dropWhile (· == '0')) z := by
    unfold safeInteger
    rw [List.dropWhile_idempotent]
  rw [hidem]
  cases hl : d.dropWhile (· == '0') with
  | nil =>
    simp only [safeInteger, List.dropWhile_nil, List.isEmpty_nil, if_true, Decimal.val_nil, Nat.zero_mul,
      Nat.cast_zero, mul_zero, pure, Option.some.injEq]
    exact ⟨fun h => ⟨h, h ▸ safe_zero⟩, fun h => h.1⟩
  | cons c r =>
    have hc : c ≠ '0' := by
      have := List.head_dropWhile_not (· == '0') (l := d) (by rw [hl]; exact List.cons_ne_nil c r)
      simpa [hl] using this
    exact safeInteger_trimmed (hl ▸ hd') hc

theorem signOf_mul_eq {negative : Bool} {k n : Int} : signOf negative * k = n ↔ k = signOf negative * n := by
  unfold signOf; split <;> omega

/-- Behind the scale: the signed value of the digits that stand before one, when the rest is zero. -/
theorem scaleDigits_pos {negative : Bool} {d : List Char} {k : Nat} {n : Int} (hd : Decimal.Digits d) (hk : 0 < k) :
    ((scaleDigits d k).bind fun
      | .inl n => some n
      | .inr (integerDigits, trailingZeroes) => safeInteger negative integerDigits trailingZeroes) = some n ↔
      (Decimal.val d : ℚ) * (10 : ℚ) ^ (-(k : Int)) = (signOf negative * n : Int) ∧ Safe n := by
  unfold scaleDigits
  rw [if_pos (by omega)]
  simp only [Int.toNat_natCast]
  by_cases hlen : d.length < k
  · rw [if_pos hlen, Decimal.scaled_below hd hlen, Decimal.val_eq_zero_iff hd]
    have hz : signOf negative * n = 0 ↔ n = 0 := by rw [signOf_mul_eq, mul_zero]
    rw [hz]
    split
    · rename_i h0
      simp only [Option.bind_some, Option.some.injEq, h0, true_and]
      exact ⟨fun h => ⟨h.symm, h ▸ safe_zero⟩, fun h => h.1.symm⟩
    · rename_i h0; simp [h0]
  · rw [if_neg hlen]
    have hlast : (d.drop (d.length - k)).length = k := by rw [List.length_drop]; omega
    have hdrop : Decimal.Digits (d.drop (d.length - k)) := fun c hc => hd c (List.mem_of_mem_drop hc)
    have htake : Decimal.Digits (d.take (d.length - k)) := fun c hc => hd c (List.mem_of_mem_take hc)
    have key := Decimal.scaled_down (a := d.take (d.length - k)) hdrop (signOf negative * n)
    rw [List.take_append_drop, hlast] at key
    rw [key, Decimal.val_eq_zero_iff hdrop]
    split
    · rename_i h0
      rw [Option.bind_some, safeInteger_eq_some htake, signOf_mul_eq]
      simp [h0]
    · rename_i h0; simp [h0]

/-- The two steps together: the integer of a scaled digit string, exactly when it is safe. -/
theorem scaleDigits_eq_some {negative : Bool} {d : List Char} {scale n : Int} (hd : Decimal.Digits d)
    (hs : InI64 (-scale)) :
    ((scaleDigits d scale).bind fun
      | .inl n => some n
      | .inr (integerDigits, trailingZeroes) => safeInteger negative integerDigits trailingZeroes) = some n ↔
      (Decimal.val d : ℚ) * (10 : ℚ) ^ (-scale) = (signOf negative * n : Int) ∧ Safe n := by
  by_cases hpos : 0 < scale
  · obtain ⟨k, rfl⟩ := Int.eq_ofNat_of_zero_le hpos.le
    exact scaleDigits_pos hd (by omega)
  · obtain ⟨k, hk⟩ : ∃ k : Nat, scale = -(k : Int) := ⟨(-scale).toNat, by omega⟩
    subst hk
    unfold scaleDigits
    rw [if_neg hpos, neg_neg] at *
    rw [checkedI64_eq_some.2 ⟨hs, rfl⟩, Decimal.scaled_up]
    simp only [Option.map_some, Option.bind_some, Int.toNat_natCast]
    rw [safeInteger_eq_some hd, signOf_mul_eq]

/-! ## The parser is exact -/

/-- The parser's scale is an `i64` and so is its negation: the exponent leaves room for it. -/
theorem inI64_neg_scale {m : Decimal.Numeral} (he : InI64 m.exponent) (hs : InI64 m.scale) : InI64 (-m.scale) := by
  unfold InI64 i64Min i64Max Decimal.Numeral.scale at *
  omega

theorem value_eq_int {m : Decimal.Numeral} {n : Int} :
    m.value = n ↔ (Decimal.val m.digits : ℚ) * (10 : ℚ) ^ (-m.scale) = (signOf m.negative * n : Int) := by
  unfold Decimal.Numeral.value signOf
  cases m.negative
  · simp
  · simp only [if_true, neg_mul, one_mul, Int.cast_neg]
    exact neg_eq_iff_eq_neg

theorem parseIntegerHeaderValue_eq (s : List Char) :
    parseIntegerHeaderValue s = (readNumeral s).bind fun m =>
      (checkedI64 m.scale).bind fun scale => (scaleDigits m.digits scale).bind fun
        | .inl n => some n
        | .inr (integerDigits, trailingZeroes) => safeInteger m.negative integerDigits trailingZeroes := by
  unfold parseIntegerHeaderValue readNumeral
  rcases splitSign s with ⟨negative, value⟩
  simp only [bind, Option.bind_assoc]
  congr 1; funext p
  congr 1; funext q
  split <;> rfl

/-- The machine range of the parser: the exponent a numeral text is written with, and the number of
its fraction digits less that exponent, are `i64`s. -/
def Admissible (s : List Char) : Prop := ∀ m, Decimal.Reads s m → InI64 m.exponent ∧ InI64 m.scale

/-- The parser returns `n` exactly when the text is a decimal numeral, its exponent and its scale
are `i64`s, and its exact value is `n`, a safe integer. -/
theorem parseIntegerHeaderValue_eq_some {s : List Char} {n : Int} :
    parseIntegerHeaderValue s = some n ↔ Decimal.Denotes s n ∧ Admissible s ∧ Safe n := by
  rw [parseIntegerHeaderValue_eq, Option.bind_eq_some_iff]
  constructor
  · rintro ⟨m, hm, h⟩
    obtain ⟨hr, he⟩ := readNumeral_eq_some.1 hm
    obtain ⟨scale, hc, h⟩ := Option.bind_eq_some_iff.1 h
    obtain ⟨hs, rfl⟩ := checkedI64_eq_some.1 hc
    obtain ⟨hv, hn⟩ := (scaleDigits_eq_some (hr.whole.append hr.fraction) (inI64_neg_scale he hs)).1 h
    exact ⟨⟨m, hr, value_eq_int.2 hv⟩, fun m' hr' => hr.unique hr' ▸ ⟨he, hs⟩, hn⟩
  · rintro ⟨⟨m, hr, hv⟩, hadm, hn⟩
    obtain ⟨he, hs⟩ := hadm m hr
    refine ⟨m, readNumeral_eq_some.2 ⟨hr, he⟩, Option.bind_eq_some_iff.2 ⟨_, checkedI64_eq_some.2 ⟨hs, rfl⟩, ?_⟩⟩
    exact (scaleDigits_eq_some (hr.whole.append hr.fraction) (inI64_neg_scale he hs)).2 ⟨value_eq_int.1 hv, hn⟩

end DataPlane.Headers
