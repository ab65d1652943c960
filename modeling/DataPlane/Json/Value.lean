/-
`serde_json` values: objects keep their entries in insertion order (the workspace builds
`serde_json` with `preserve_order`), numbers are `u64`, negative `i64` or finite `f64`. A finite
`f64` is kept as the decimal its `Display` prints, which determines it.
-/
import DataPlane.Lib.Decimal

namespace DataPlane.Json

/-- A finite `f64`, by the shortest decimal that prints it: digits, a fraction and an exponent of
a few digits each. -/
structure Float64 where
  negative : Bool
  whole : List Char
  fraction : List Char
  exponent : Option Int
  whole_digits : Decimal.Digits whole
  whole_ne : whole ≠ []
  fraction_digits : Decimal.Digits fraction
  fraction_short : fraction.length ≤ 400
  exponent_short : ∀ e ∈ exponent, -400 ≤ e ∧ e ≤ 400

/-- `serde_json::Number`. -/
inductive Number where
  | posInt (n : UInt64)
  | negInt (n : Int) (range : -9223372036854775808 ≤ n ∧ n < 0)
  | float (f : Float64)

/-- The decimal digits of a natural number. -/
def natText (n : Nat) : List Char := Nat.toDigits 10 n

/-- The decimal digits of an integer. -/
def intText : Int → List Char
  | .ofNat n => natText n
  | .negSucc n => '-' :: natText (n + 1)

/-- An exponent is printed with its sign, `1e+16`. -/
def exponentText : Int → List Char
  | .ofNat n => '+' :: natText n
  | .negSucc n => '-' :: natText (n + 1)

def Float64.text (f : Float64) : List Char :=
  (if f.negative then ['-'] else []) ++ (f.whole ++ (Decimal.pointText f.fraction ++
    match f.exponent with
    | none => []
    | some e => 'e' :: exponentText e))

namespace Number

/-- `Number`'s `Display`. -/
def text : Number → List Char
  | posInt n => natText n.toNat
  | negInt n _ => intText n
  | float f => f.text

/-- `Number::as_i64`. -/
def asI64 : Number → Option Int
  | posInt n => if n.toNat ≤ 9223372036854775807 then some n.toNat else none
  | negInt n _ => some n
  | float _ => none

/-- `Number::as_u64`. -/
def asU64 : Number → Option Nat
  | posInt n => some n.toNat
  | _ => none

end Number

/-- `serde_json::Value`. -/
inductive Value where
  | null
  | bool (b : Bool)
  | number (n : Number)
  | string (s : String)
  | array (items : List Value)
  | object (entries : List (String × Value))

/-- `serde_json::Map<String, Value>`, in iteration order. -/
abbrev JsonObject := List (String × Value)

/-- `Map::get`. -/
def JsonObject.get? (o : JsonObject) (key : String) : Option Value := o.lookup key

namespace Value

def isNull : Value → Bool
  | null => true
  | _ => false

def asStr : Value → Option String
  | string s => some s
  | _ => none

def asObject : Value → Option JsonObject
  | object o => some o
  | _ => none

end Value

/-! ## Equality -/

/-- `f64`'s `==`: the decimal that prints a float determines it, except that the two zeros are equal. -/
def Float64.same (f g : Float64) : Bool :=
  f.text == g.text || (f.whole ++ f.fraction).all (· == '0') && (g.whole ++ g.fraction).all (· == '0')

/-- `Number`'s `==`. -/
def Number.same : Number → Number → Bool
  | .posInt m, .posInt n => m == n
  | .negInt m _, .negInt n _ => m == n
  | .float f, .float g => f.same g
  | _, _ => false

mutual

/-- `Value`'s `==`. -/
def Value.same : Value → Value → Bool
  | .null, .null => true
  | .bool a, .bool b => a == b
  | .number m, .number n => m.same n
  | .string s, .string t => s == t
  | .array xs, .array ys => sameItems xs ys
  | .object o, .object p => o.length == p.length && sameEntries o p
  | _, _ => false

def sameItems : List Value → List Value → Bool
  | [], [] => true
  | x :: xs, y :: ys => x.same y && sameItems xs ys
  | _, _ => false

/-- Every entry of the first is one of the second; the order of entries does not matter. -/
def sameEntries : List (String × Value) → JsonObject → Bool
  | [], _ => true
  | (key, x) :: rest, p => (match p.get? key with
    | some y => x.same y
    | none => false) && sameEntries rest p

end

/-- `Map`'s `==`. -/
def JsonObject.same (o p : JsonObject) : Bool := o.length == p.length && sameEntries o p

/-! ## What a number prints -/

theorem natText_digits (n : Nat) : Decimal.Digits (natText n) := fun _ hc =>
  Nat.isDigit_of_mem_toDigits (by decide) (by decide) hc

theorem natText_ne (n : Nat) : natText n ≠ [] := by
  have := Nat.length_toDigits_pos (b := 10) (n := n)
  intro h; rw [natText] at h; simp [h] at this

theorem val_natText (n : Nat) : Decimal.val (natText n) = n := Nat.ofDigitChars_ten_toDigits

theorem readsInt_exponentText (e : Int) : Decimal.ReadsInt (exponentText e) e := by
  cases e with
  | ofNat n => exact ⟨natText n, natText_ne n, natText_digits n, .inr ⟨.inr rfl, by rw [val_natText]; rfl⟩⟩
  | negSucc n =>
    refine ⟨natText (n + 1), natText_ne _, natText_digits _, .inl ⟨rfl, ?_⟩⟩
    rw [val_natText]; rfl

/-- The numeral an integer prints as. -/
theorem reads_intText (n : Int) :
    Decimal.Reads (intText n) ⟨decide (n < 0), natText n.natAbs, [], 0⟩ := by
  refine ⟨natText_digits _, natText_ne _, by simp [Decimal.Digits], ?_⟩
  cases n with
  | ofNat n => exact ⟨[], [], by simp [intText, Decimal.pointText], .inr ⟨by simp, .inl rfl⟩, .inl ⟨rfl, rfl⟩⟩
  | negSucc n =>
    exact ⟨['-'], [], by simp [intText, Decimal.pointText], .inl ⟨by simp, rfl⟩, .inl ⟨rfl, rfl⟩⟩

theorem value_intText (n : Int) :
    (⟨decide (n < 0), natText n.natAbs, [], 0⟩ : Decimal.Numeral).value = n := by
  simp only [Decimal.Numeral.value, Decimal.Numeral.digits, Decimal.Numeral.scale, List.append_nil, val_natText,
    List.length_nil, Nat.cast_zero, sub_zero, neg_zero, zpow_zero, mul_one, decide_eq_true_eq]
  cases n with
  | ofNat n => simp
  | negSucc n => simp [Int.negSucc_lt_zero, Int.cast_negSucc]

theorem denotes_intText (n : Int) : Decimal.Denotes (intText n) n := ⟨_, reads_intText n, value_intText n⟩

/-- The numeral a float prints as. -/
def Float64.numeral (f : Float64) : Decimal.Numeral := ⟨f.negative, f.whole, f.fraction, f.exponent.getD 0⟩

theorem reads_float (f : Float64) : Decimal.Reads f.text f.numeral := by
  refine ⟨f.whole_digits, f.whole_ne, f.fraction_digits, _, _, rfl, ?_, ?_⟩
  · unfold Float64.numeral
    cases f.negative
    · exact .inr ⟨rfl, .inl rfl⟩
    · exact .inl ⟨rfl, rfl⟩
  · unfold Float64.numeral
    cases f.exponent with
    | none => exact .inl ⟨rfl, rfl⟩
    | some e => exact .inr ⟨'e', _, rfl, .inl rfl, readsInt_exponentText e⟩

end DataPlane.Json
