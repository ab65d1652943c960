/-
Base64 over the standard alphabet with strict decoding: padding is required and canonical, and the
bits the padding stands for are zero. What was encoded decodes to itself.
-/
import Mathlib.Tactic

namespace Rfc4648

/-- The standard alphabet in the order of its values. -/
def alphabet : List Char := "ABCDEFGHIJKLMNOPQRSTUVWXYZabcdefghijklmnopqrstuvwxyz0123456789+/".toList

/-- The character of a six-bit value. -/
def digit (n : Nat) : Char := alphabet.getD n '='

/-- The six-bit value of a character. -/
def value (c : Char) : Option Nat := alphabet.idxOf? c

/-- Three bytes become four characters; the last one or two bytes are padded. -/
def encodeBytes : List UInt8 → List Char
  | [] => []
  | [a] => [digit (a.toNat / 4), digit (a.toNat % 4 * 16), '=', '=']
  | [a, b] => [digit (a.toNat / 4), digit (a.toNat % 4 * 16 + b.toNat / 16), digit (b.toNat % 16 * 4), '=']
  | a :: b :: c :: rest =>
    digit (a.toNat / 4) :: digit (a.toNat % 4 * 16 + b.toNat / 16) :: digit (b.toNat % 16 * 4 + c.toNat / 64) ::
      digit (c.toNat % 64) :: encodeBytes rest

/-- The byte of a number. -/
def byte (n : Nat) : UInt8 := UInt8.ofNat n

/-- Four characters become three bytes; a padded last group becomes one or two. -/
def decodeChars : List Char → Option (List UInt8)
  | [] => some []
  | [p, q, '=', '='] => do
    let x ← value p
    let y ← value q
    if y % 16 = 0 then some [byte (x * 4 + y / 16)] else none
  | [p, q, r, '='] => do
    let x ← value p
    let y ← value q
    let z ← value r
    if z % 4 = 0 then some [byte (x * 4 + y / 16), byte (y % 16 * 16 + z / 4)] else none
  | p :: q :: r :: s :: rest => do
    let x ← value p
    let y ← value q
    let z ← value r
    let w ← value s
    let bytes ← decodeChars rest
    some (byte (x * 4 + y / 16) :: byte (y % 16 * 16 + z / 4) :: byte (z % 4 * 64 + w) :: bytes)
  | _ => none

/-- The Base64 text of bytes. -/
def encode (bytes : List UInt8) : String := String.ofList (encodeBytes bytes)

/-- The bytes of a Base64 text. -/
def decode (text : String) : Option (List UInt8) := decodeChars text.toList

theorem value_digit {n : Nat} (h : n < 64) : value (digit n) = some n := by
  have hall : ∀ n : Fin 64, value (digit n.1) = some n.1 := by decide +kernel
  exact hall ⟨n, h⟩

theorem value_pad : value '=' = none := by decide +kernel

theorem digit_ne_pad {n : Nat} (h : n < 64) : digit n ≠ '=' := by
  intro he
  have hv := value_digit h
  rw [he, value_pad] at hv
  cases hv

theorem byte_toNat (a : UInt8) {n : Nat} (h : n = a.toNat) : byte n = a := by
  subst h
  exact UInt8.ofNat_toNat

/-- Decoding undoes encoding. -/
theorem decodeChars_encodeBytes : ∀ bytes : List UInt8, decodeChars (encodeBytes bytes) = some bytes
  | [] => rfl
  | [a] => by
    have ha : a.toNat < 256 := a.toNat_lt
    have hx : a.toNat / 4 < 64 := by omega
    have hy : a.toNat % 4 * 16 < 64 := by omega
    simp only [encodeBytes, decodeChars, value_digit hx, value_digit hy, Option.bind_eq_bind, Option.bind_some]
    rw [if_pos (by omega), byte_toNat a (by omega)]
  | [a, b] => by
    have ha : a.toNat < 256 := a.toNat_lt
    have hb : b.toNat < 256 := b.toNat_lt
    have hx : a.toNat / 4 < 64 := by omega
    have hy : a.toNat % 4 * 16 + b.toNat / 16 < 64 := by omega
    have hz : b.toNat % 16 * 4 < 64 := by omega
    rw [encodeBytes, decodeChars]
    · simp only [value_digit hx, value_digit hy, value_digit hz, Option.bind_eq_bind, Option.bind_some]
      rw [if_pos (by omega), byte_toNat a (by omega), byte_toNat b (by omega)]
    · exact digit_ne_pad hz
  | a :: b :: c :: rest => by
    have ha : a.toNat < 256 := a.toNat_lt
    have hb : b.toNat < 256 := b.toNat_lt
    have hc : c.toNat < 256 := c.toNat_lt
    have hx : a.toNat / 4 < 64 := by omega
    have hy : a.toNat % 4 * 16 + b.toNat / 16 < 64 := by omega
    have hz : b.toNat % 16 * 4 + c.toNat / 64 < 64 := by omega
    have hw : c.toNat % 64 < 64 := by omega
    rw [encodeBytes, decodeChars]
    · simp only [value_digit hx, value_digit hy, value_digit hz, value_digit hw, decodeChars_encodeBytes rest,
        Option.bind_eq_bind, Option.bind_some]
      rw [byte_toNat a (by omega), byte_toNat b (by omega), byte_toNat c (by omega)]
    · intro _ h
      exact absurd h (digit_ne_pad hw)
    · intro h
      exact absurd h (digit_ne_pad hw)

theorem decode_encode (bytes : List UInt8) : decode (encode bytes) = some bytes := by
  rw [decode, encode, String.toList_ofList, decodeChars_encodeBytes]

end Rfc4648
