/-
Regular expressions as a backtracking engine with priorities runs them: leftmost match first, and at
one place the first way to match in the order of the alternatives, repetitions longest first.
Searches go on where the last match ended. Offsets are in bytes.
-/
import DataPlane.Lib.Span
import DataPlane.Lib.Utf8

/-- Regular expressions with repetitions of character classes, anchors and one capture group. -/
inductive Regex where
  | empty
  | one (accepts : Char → Bool)
  | many (accepts : Char → Bool) (least : Nat) (most : Option Nat)
  | seq (first second : Regex)
  | alt (first second : Regex)
  | textStart
  | wordBoundary
  | group (inner : Regex)

namespace Regex

/-! ## Combinators -/

/-- A literal text, read by an equality on characters. -/
def literal (same : Char → Char → Bool) (text : List Char) : Regex :=
  text.foldr (fun c rest => seq (one (same c)) rest) empty

/-- All of a list in a row. -/
def all (parts : List Regex) : Regex := parts.foldr seq empty

/-- One of a list, the first ones first. -/
def any : List Regex → Regex
  | [] => one fun _ => false
  | [part] => part
  | part :: parts => alt part (any parts)

/-- An optional part, taken when possible. -/
def opt (inner : Regex) : Regex := alt inner empty

/-- Exactly `n` characters of a class. -/
def exactly (n : Nat) (accepts : Char → Bool) : Regex := many accepts n (some n)

/-- At least `n` characters of a class. -/
def atLeast (n : Nat) (accepts : Char → Bool) : Regex := many accepts n none

/-- A class with the simple case variants of its characters, for classes of ASCII characters: beside the other ASCII
letter, `s` has the long s and `k` the Kelvin sign. -/
def foldCase (accepts : Char → Bool) (c : Char) : Bool :=
  accepts c || accepts c.toLower || accepts c.toUpper || (c == 'ſ' && (accepts 's' || accepts 'S')) ||
    (c == '\u212a' && (accepts 'k' || accepts 'K'))

/-! ## Matching -/

/-- A place in a text: the character before it, its offset and what follows. -/
structure Cursor where
  prev : Option Char
  offset : Nat
  rest : List Char

/-- The place after the next character. -/
def Cursor.after (cursor : Cursor) (c : Char) (rest : List Char) : Cursor :=
  ⟨some c, cursor.offset + c.utf8Size, rest⟩

def Cursor.start (text : List Char) : Cursor := ⟨none, 0, text⟩

/-- The place reached, and the group captured on the way. -/
structure Thread where
  cursor : Cursor
  captured : Option (Span Nat)

/-- The places after a repetition, longest first. -/
def repeats (accepts : Char → Bool) : Nat → Nat → Cursor → List Cursor
  | least, 0, cursor => if least = 0 then [cursor] else []
  | least, most + 1, cursor =>
    (match cursor.rest with
      | c :: rest => if accepts c then repeats accepts (least - 1) most (cursor.after c rest) else []
      | [] => []) ++ if least = 0 then [cursor] else []

/-- `\b`: a word character on one side only. -/
def Cursor.atBoundary (isWord : Char → Bool) (cursor : Cursor) : Bool :=
  cursor.prev.any isWord != cursor.rest.head?.any isWord

/-- All ways to match from a place, in the order of priority. -/
def threads (isWord : Char → Bool) : Regex → Thread → List Thread
  | empty, t => [t]
  | one accepts, t => match t.cursor.rest with
    | c :: rest => if accepts c then [{ t with cursor := t.cursor.after c rest }] else []
    | [] => []
  | many accepts least most, t =>
    (repeats accepts least (most.getD t.cursor.rest.length) t.cursor).map fun cursor => { t with cursor }
  | seq first second, t => (threads isWord first t).flatMap (threads isWord second)
  | alt first second, t => threads isWord first t ++ threads isWord second t
  | textStart, t => if t.cursor.prev.isNone then [t] else []
  | wordBoundary, t => if t.cursor.atBoundary isWord then [t] else []
  | group inner, t => (threads isWord inner t).map fun u =>
    { u with captured := some ⟨t.cursor.offset, u.cursor.offset⟩ }

/-- A match: its span and the span of its capture group. -/
structure Found where
  whole : Span Nat
  group : Option (Span Nat)
  deriving DecidableEq

/-- The first match from a place on, with the place after it. -/
def search (isWord : Char → Bool) (r : Regex) (prev : Option Char) (offset : Nat) (text : List Char) :
    Option (Found × Cursor) :=
  match (threads isWord r ⟨⟨prev, offset, text⟩, none⟩).head? with
  | some t => some (⟨⟨offset, t.cursor.offset⟩, t.captured⟩, t.cursor)
  | none => match text with
    | [] => none
    | c :: rest => search isWord r (some c) (offset + c.utf8Size) rest

/-- The matches from a place on; after an empty one the search goes on a character later. -/
def searchAll (isWord : Char → Bool) (r : Regex) : Nat → Cursor → List Found
  | 0, _ => []
  | fuel + 1, cursor => match search isWord r cursor.prev cursor.offset cursor.rest with
    | none => []
    | some (found, next) => found :: if found.whole.start < found.whole.stop then searchAll isWord r fuel next else
      match next.rest with
      | [] => []
      | c :: rest => searchAll isWord r fuel (next.after c rest)

/-- `Regex::find_iter` and `Regex::captures_iter`. -/
def findIter (isWord : Char → Bool) (r : Regex) (text : List Char) : List Found :=
  searchAll isWord r (text.length + 1) (.start text)

end Regex
