/-
`parse_integer_header_value` with the machine operations it is written in. `Headers.Integer` reads the function over
unbounded lengths; here each addition of lengths, each conversion, the subtraction, the slices and the allocation
stand as the code has them, with the faults they could run into. On a string of any length none occurs, and the
result is the exact one.
-/
import DataPlane.Headers.Integer
import DataPlane.Lib.Checked

namespace DataPlane.Headers

open Rust

/-! ## The code -/

/-- The part between `scale` and `integer_digits`. -/
def scaleDigitsChecked (digits : List Char) (scale : Int) : Checked (Int ⊕ List Char × Nat) :=
  if 0 < scale then do
    let scale ← ofOption (checkedUsize scale)
    if Utf8.byteLength digits < scale then
      if digits.all (· == '0') then return .inl 0 else failure
    else
      let integerEnd ← ofExcept (subUsize (Utf8.byteLength digits) scale)
      let below ← ofExcept (bytesFrom (asBytes digits) integerEnd)
      if below.all (· == 48) then
        let integerDigits ← ofExcept (sliceStr digits 0 integerEnd)
        return .inr (integerDigits, 0)
      else failure
  else do
    let negated ← ofOption (checkedI64 (-scale))
    let trailingZeroes ← ofOption (checkedUsize negated)
    return .inr (digits, trailingZeroes)

/-- The part from `trim_start_matches` on. -/
def safeIntegerChecked (negative : Bool) (integerDigits : List Char) (trailingZeroes : Nat) : Checked Int :=
  let integerDigits := integerDigits.dropWhile (· == '0')
  if integerDigits.isEmpty then return 0
  else do
    let length ← ofOption (checkedUsize (Utf8.byteLength integerDigits + trailingZeroes))
    if (toString maxSafeInteger).length < length then failure
    else
      let magnitude ← ofOption (checkedU64 (Decimal.val integerDigits))
      let exponent ← ofOption (checkedU32 trailingZeroes)
      let power ← ofOption (checkedU64 (10 ^ exponent))
      let magnitude ← ofOption (checkedU64 (magnitude * power))
      if maxSafeInteger < magnitude then failure
      else
        let magnitude ← ofOption (checkedI64 magnitude)
        if negative then ofOption (checkedI64 (-magnitude)) else return magnitude

def parseIntegerHeaderValueChecked (value : List Char) : Checked Int := do
  let (negative, value) := splitSign value
  let (mantissa, exponent) ← ofOption (splitExponent value)
  let (whole, fraction) ← ofOption (splitFraction mantissa)
  if whole.isEmpty || !whole.all Char.isDigit || !fraction.all Char.isDigit then failure
  else
    let capacity ← ofOption (checkedUsize (Utf8.byteLength whole + Utf8.byteLength fraction))
    ofExcept (withCapacity capacity)
    let digits := whole ++ fraction
    let fractionLength ← ofOption (checkedI64 (Utf8.byteLength fraction))
    let scale ← ofOption (checkedI64 (fractionLength - exponent))
    match ← scaleDigitsChecked digits scale with
    | .inl n => return n
    | .inr (integerDigits, trailingZeroes) => safeIntegerChecked negative integerDigits trailingZeroes

/-! ## Digits are bytes -/

theorem utf8Size_digit {c : Char} (h : c.isDigit = true) : c.utf8Size = 1 := by
  simp only [Char.isDigit, Bool.and_eq_true, decide_eq_true_eq] at h
  have h2 : c.val ≤ 57 := h.2
  rw [Char.utf8Size_eq_one_iff]
  exact UInt32.le_trans h2 (by decide)

theorem byteLength_digits {d : List Char} (hd : Decimal.Digits d) : Utf8.byteLength d = d.length := by
  induction d with
  | nil => rfl
  | cons c d ih =>
    rw [Utf8.byteLength_cons, utf8Size_digit (hd c List.mem_cons_self), ih fun x hx => hd x (List.mem_cons_of_mem c hx),
      List.length_cons, Nat.add_comm]

theorem asBytes_digits {d : List Char} (hd : Decimal.Digits d) : asBytes d = d.map fun c => c.val.toUInt8 := by
  induction d with
  | nil => rfl
  | cons c d ih =>
    have hc := String.utf8EncodeChar_eq_singleton (utf8Size_digit (hd c List.mem_cons_self))
    rw [List.map_cons, ← ih fun x hx => hd x (List.mem_cons_of_mem c hx), asBytes, List.flatMap_cons, hc]
    rfl

theorem digit_byte {c : Char} (h : c.isDigit = true) : (c.val.toUInt8 == 48) = (c == '0') := by
  rw [Bool.eq_iff_iff, beq_iff_eq, beq_iff_eq]
  constructor
  · intro hb
    have hn : c.val.toNat % 256 = 48 := congrArg UInt8.toNat hb
    have hle : c.toNat ≤ 57 := by
      simp only [Char.isDigit, Bool.and_eq_true, decide_eq_true_eq] at h
      exact h.2
    have heq : c.toNat = c.val.toNat := rfl
    exact Char.toNat_inj.mp (show c.toNat = 48 by omega)
  · rintro rfl
    rfl

/-- The bytes behind an offset of a digit string, all zeros. -/
theorem all_bytes_zero {d : List Char} (hd : Decimal.Digits d) (k : Nat) :
    ((asBytes d).drop k).all (· == 48) = (d.drop k).all (· == '0') := by
  rw [asBytes_digits hd, ← List.map_drop, List.all_map]
  have hbyte : ∀ c ∈ d.drop k, (c.val.toUInt8 == 48) = (c == '0') := fun c hc =>
    digit_byte (hd c (List.mem_of_mem_drop hc))
  rw [Bool.eq_iff_iff, List.all_eq_true, List.all_eq_true]
  exact forall₂_congr fun c hc => by rw [Function.comp_apply, hbyte c hc]

/-! ## No faults -/

/-- Cutting a digit string by bytes. -/
theorem sliceStr_digits {d : List Char} (hd : Decimal.Digits d) {k : Nat} (hk : k ≤ d.length) :
    sliceStr d 0 k = .ok (d.take k) := by
  have htake : Decimal.Digits (d.take k) := fun c hc => hd c (List.mem_of_mem_take hc)
  have h := sliceStr_append [] (d.take k) (d.drop k)
  rw [List.nil_append, List.nil_append, List.take_append_drop, byteLength_digits htake, List.length_take,
    Nat.min_eq_left hk] at h
  exact h

theorem bytesFrom_digits {d : List Char} (hd : Decimal.Digits d) {k : Nat} (hk : k ≤ d.length) :
    bytesFrom (asBytes d) k = .ok ((asBytes d).drop k) := by
  unfold bytesFrom
  rw [if_pos (by rw [asBytes_digits hd, List.length_map]; exact hk)]

theorem scaleDigitsChecked_returns {d : List Char} {scale : Int} (hd : Decimal.Digits d) (hs : InI64 scale) :
    Returns (scaleDigitsChecked d scale) (scaleDigits d scale) := by
  have hlen := byteLength_digits hd
  unfold scaleDigitsChecked scaleDigits
  split
  · rename_i hpos
    have husize : checkedUsize scale = some scale.toNat := by
      unfold InI64 i64Max at hs
      exact if_pos ⟨hpos.le, by unfold usizeMax; omega⟩
    refine Returns.bind_some (.ofOption_some husize) ?_
    rw [hlen]
    dsimp only
    split
    · split
      · exact .pure _
      · exact .failure
    · rename_i hle
      have hsub : subUsize d.length scale.toNat = .ok (d.length - scale.toNat) := if_pos (by omega)
      refine Returns.bind_some (.ofExcept hsub) ?_
      refine Returns.bind_some (.ofExcept (bytesFrom_digits hd (Nat.sub_le _ _))) ?_
      rw [all_bytes_zero hd]
      split
      · exact Returns.bind_some (.ofExcept (sliceStr_digits hd (Nat.sub_le _ _))) (.pure _)
      · exact .failure
  · rename_i hpos
    rw [Option.map_eq_bind]
    refine Returns.bind (.ofOption _) fun negated hn => ?_
    obtain ⟨hin, rfl⟩ := checkedI64_eq_some.mp hn
    have husize : checkedUsize (-scale) = some (-scale).toNat := by
      unfold InI64 i64Max at hin
      exact if_pos ⟨by omega, by unfold usizeMax; omega⟩
    exact Returns.bind_some (.ofOption_some husize) (.pure _)

/-- The digits and zeros behind the scale are no more than those before it, or an `i64`. -/
theorem scaleDigits_inr {d integerDigits : List Char} {scale : Int} {trailingZeroes : Nat} (hd : Decimal.Digits d)
    (h : scaleDigits d scale = some (.inr (integerDigits, trailingZeroes))) :
    Decimal.Digits integerDigits ∧ integerDigits.length ≤ d.length ∧ (trailingZeroes : Int) ≤ i64Max := by
  unfold scaleDigits at h
  split at h
  · dsimp only at h
    split at h
    · split at h <;> cases h
    · split at h
      · cases h
        exact ⟨fun c hc => hd c (List.mem_of_mem_take hc), List.length_take_le' _ _, by decide⟩
      · cases h
  · obtain ⟨negated, hn, h⟩ := Option.map_eq_some_iff.mp h
    cases h
    obtain ⟨hin, rfl⟩ := checkedI64_eq_some.mp hn
    refine ⟨hd, le_refl _, ?_⟩
    unfold InI64 at hin
    omega

theorem safeIntegerChecked_returns {d : List Char} {z : Nat} (negative : Bool) (hd : Decimal.Digits d)
    (hlen : d.length ≤ isizeMax) (hz : (z : Int) ≤ i64Max) :
    Returns (safeIntegerChecked negative d z) (safeInteger negative d z) := by
  have hd' := hd.dropWhile (· == '0')
  have hlen' : (d.dropWhile (· == '0')).length ≤ isizeMax := (List.length_dropWhile_le _ _).trans hlen
  unfold safeIntegerChecked safeInteger
  generalize d.dropWhile (· == '0') = trimmed at hd' hlen'
  dsimp only
  split
  · exact .pure _
  · rw [byteLength_digits hd']
    have husize : checkedUsize (trimmed.length + z) = some (trimmed.length + z) := by
      unfold isizeMax at hlen'
      unfold i64Max at hz
      exact checkedUsize_natCast (by unfold usizeMax; omega)
    refine Returns.bind_some (.ofOption_some husize) ?_
    rw [show (toString maxSafeInteger).length = 16 from rfl]
    split
    · exact .failure
    · have hu32 : checkedU32 z = some z := if_pos (by omega)
      refine Returns.bind (.ofOption _) fun magnitude _ => ?_
      refine Returns.bind_some (.ofOption_some hu32) ?_
      refine Returns.bind (.ofOption _) fun power _ => ?_
      refine Returns.bind (.ofOption _) fun product _ => ?_
      split
      · exact .failure
      · refine Returns.bind (.ofOption _) fun signed _ => ?_
        split
        · exact .ofOption _
        · exact .pure _

/-- The digits of a numeral are part of its text. -/
theorem length_digits_le {s : List Char} {m : Decimal.Numeral} (h : Decimal.Reads s m) :
    m.whole.length + m.fraction.length ≤ Utf8.byteLength s := by
  obtain ⟨sign, tail, rfl, -, -⟩ := h.layout
  have hpoint : m.fraction.length ≤ Utf8.byteLength (Decimal.pointText m.fraction) := by
    unfold Decimal.pointText
    split
    · rename_i hnil
      simp [hnil]
    · rw [Utf8.byteLength_cons, byteLength_digits h.fraction]
      omega
  rw [Utf8.byteLength_append, Utf8.byteLength_append, Utf8.byteLength_append, byteLength_digits h.whole]
  omega

/-- What the first steps of the parser take a text apart into is its reading. -/
theorem reads_of_split {s mantissa whole fraction : List Char} {exponent : Int}
    (hexp : splitExponent (splitSign s).2 = some (mantissa, exponent))
    (hfraction : splitFraction mantissa = some (whole, fraction))
    (hdigits : ¬ (whole.isEmpty || !whole.all Char.isDigit || !fraction.all Char.isDigit) = true) :
    Decimal.Reads s ⟨(splitSign s).1, whole, fraction, exponent⟩ := by
  have hread : readNumeral s = some ⟨(splitSign s).1, whole, fraction, exponent⟩ := by
    unfold readNumeral
    simp only [hexp, hfraction, bind, Option.bind_some, if_neg hdigits]
  exact (readNumeral_eq_some.mp hread).1

/-- The code as it is written returns what the parser over unbounded lengths does, without a fault. -/
theorem parseIntegerHeaderValueChecked_returns (s : Str) :
    Returns (parseIntegerHeaderValueChecked s.chars) (parseIntegerHeaderValue s.chars) := by
  unfold parseIntegerHeaderValueChecked parseIntegerHeaderValue
  dsimp only
  refine Returns.bind (.ofOption _) fun p hp => ?_
  obtain ⟨mantissa, exponent⟩ := p
  refine Returns.bind (.ofOption _) fun q hq => ?_
  obtain ⟨whole, fraction⟩ := q
  dsimp only
  split
  · exact .failure
  · rename_i hdigits
    have hreads := reads_of_split hp hq hdigits
    have hshort := (length_digits_le hreads).trans s.short
    have hdigits := hreads.whole.append hreads.fraction
    dsimp only at hshort hdigits
    rw [byteLength_digits hreads.whole, byteLength_digits hreads.fraction]
    have hcapacity : checkedUsize (whole.length + fraction.length) = some (whole.length + fraction.length) := by
      unfold isizeMax at hshort
      exact checkedUsize_natCast (by unfold usizeMax; omega)
    have hi64 : checkedI64 fraction.length = some (fraction.length : Int) := by
      unfold isizeMax at hshort
      exact if_pos (by unfold InI64 i64Min i64Max; omega)
    refine Returns.bind_some (.ofOption_some hcapacity) ?_
    refine Returns.bind_some (.ofExcept (if_pos hshort)) ?_
    refine Returns.bind_some (.ofOption_some hi64) ?_
    refine Returns.bind (.ofOption _) fun scale hscale => ?_
    obtain ⟨hs, rfl⟩ := checkedI64_eq_some.mp hscale
    refine Returns.bind (scaleDigitsChecked_returns hdigits hs) fun r hr => ?_
    rcases r with n | ⟨integerDigits, trailingZeroes⟩
    · exact .pure n
    · obtain ⟨hpart, hlen, hz⟩ := scaleDigits_inr hdigits hr
      rw [List.length_append] at hlen
      exact safeIntegerChecked_returns _ hpart (hlen.trans hshort) hz

/-- The parser is exact and nothing stops it: on every string it returns, and it returns `n` exactly when the text is a
decimal numeral, its exponent and its scale are `i64`s, and its exact value is `n`, a safe integer. -/
theorem parseIntegerHeaderValue_total (s : Str) :
    ∃ r, (parseIntegerHeaderValueChecked s.chars).run = .ok r ∧
      ∀ n, r = some n ↔
        (∃ m, Decimal.Reads s.chars m ∧ InI64 m.exponent ∧ InI64 m.scale ∧ m.value = n) ∧ Safe n := by
  refine ⟨parseIntegerHeaderValue s.chars, parseIntegerHeaderValueChecked_returns s, fun n => ?_⟩
  rw [parseIntegerHeaderValue_eq_some]
  constructor
  · rintro ⟨⟨m, hreads, hvalue⟩, hadmissible, hsafe⟩
    obtain ⟨hexponent, hscale⟩ := hadmissible m hreads
    exact ⟨⟨m, hreads, hexponent, hscale, hvalue⟩, hsafe⟩
  · rintro ⟨⟨m, hreads, hexponent, hscale, hvalue⟩, hsafe⟩
    exact ⟨⟨m, hreads, hvalue⟩, fun m' hreads' => hreads.unique hreads' ▸ ⟨hexponent, hscale⟩, hsafe⟩

example : (parseIntegerHeaderValueChecked "-1.50e1".toList).run = .ok (some (-15)) := by decide +kernel

end DataPlane.Headers
