/-
Whole tokens of the detectors whose alphabet has `-`. The expressions end in `\b`, which holds behind
a token that is followed by white space only if the token ends in a word character: a token that ends
in `-` is never covered to its end by the detector for it.
-/
import DataPlane.Lib.Matching
import DataPlane.Secrets.Redaction

namespace DataPlane.Secrets

open Regex Utf8

/-! ## Characters -/

theorem toNat_of_isAlphanum {c : Char} (h : c.isAlphanum = true) :
    (48 ≤ c.toNat ∧ c.toNat ≤ 57) ∨ (65 ≤ c.toNat ∧ c.toNat ≤ 90) ∨ (97 ≤ c.toNat ∧ c.toNat ≤ 122) := by
  change (decide (c.val ≥ 65 ∧ c.val ≤ 90) || c.val ≥ 97 && c.val ≤ 122 || c.val ≥ 48 && c.val ≤ 57) = true at h
  simp only [Bool.or_eq_true, Bool.and_eq_true, decide_eq_true_eq, ge_iff_le, UInt32.le_iff_toNat_le] at h
  rcases h with (h | h) | h
  · exact .inr (.inl h)
  · exact .inr (.inr h)
  · exact .inl h

/-- The characters of the three kinds of tokens. -/
def isTokenChar (c : Char) : Bool := alphanumOr ['-', '_', '.'] c

theorem toNat_of_isTokenChar {c : Char} (h : isTokenChar c = true) : 45 ≤ c.toNat ∧ c.toNat ≤ 122 := by
  simp only [isTokenChar, alphanumOr, Bool.or_eq_true, List.contains_iff_mem, List.mem_cons, List.not_mem_nil,
    or_false] at h
  rcases h with h | rfl | rfl | rfl
  · have := toNat_of_isAlphanum h
    omega
  · decide
  · decide
  · decide

theorem isTokenChar_of_isSpace {c : Char} (h : isSpace c = true) : isTokenChar c = false := by
  by_contra hc
  have hrange := toNat_of_isTokenChar (Bool.not_eq_false _ ▸ hc)
  simp only [isSpace, Bool.or_eq_true, Bool.and_eq_true, decide_eq_true_eq, beq_iff_eq] at h
  omega

section Words

variable {table : Char → Bool} {c : Char}

theorem isWord_of_isTokenChar (h : isTokenChar c = true) (hdash : c ≠ '-') (hdot : c ≠ '.') : isWord table c = true := by
  have hrange := toNat_of_isTokenChar h
  rw [isWord, if_pos (by omega)]
  simp only [isTokenChar, alphanumOr, Bool.or_eq_true, List.contains_iff_mem, List.mem_cons, List.not_mem_nil,
    or_false] at h
  rcases h with h | rfl | rfl | rfl
  · simp [h]
  · exact absurd rfl hdash
  · rfl
  · exact absurd rfl hdot

/-- White space is no word character, for tables that say so of white space outside ASCII. -/
theorem isWord_of_isSpace (htable : ∀ c, isSpace c = true → table c = false) (h : isSpace c = true) :
    isWord table c = false := by
  unfold isWord
  split
  · have hnot := isTokenChar_of_isSpace h
    simp only [isTokenChar, alphanumOr, Bool.or_eq_false_iff] at hnot
    rw [hnot.1, Bool.false_or]
    by_contra hc
    rw [Bool.not_eq_false, beq_iff_eq] at hc
    subst hc
    exact absurd h (by decide)
  · exact htable c h

end Words

/-! ## Tokens -/

/-- The tokens of the three detectors. -/
def IsToken : PatternName → List Char → Prop
  | .googleApiKey, token => ∃ body, token = "AIza".toList ++ body ∧ body.length = 35 ∧
      ∀ c ∈ body, alphanumOr ['-', '_'] c = true
  | .slackToken, token => ∃ kind body, token = "xox".toList ++ (kind :: '-' :: body) ∧
      oneOf ['a', 'b', 'p', 'q', 'r'] kind = true ∧ 10 ≤ body.length ∧ body.length ≤ 80 ∧
      ∀ c ∈ body, alphanumOr ['-'] c = true
  | .jwtLike, token => ∃ header claims signature,
      token = "eyJ".toList ++ (header ++ ('.' :: ("eyJ".toList ++ (claims ++ ('.' :: signature))))) ∧
      (10 ≤ header.length ∧ 10 ≤ claims.length ∧ 10 ≤ signature.length) ∧
      ∀ c ∈ header ++ (claims ++ signature), alphanumOr ['_', '-'] c = true
  | _, _ => False

/-- A text with white space or nothing before and behind the token. -/
structure Delimited (before after : List Char) : Prop where
  before : ∀ c ∈ before.getLast?, isSpace c = true
  after : ∀ c ∈ after.head?, isSpace c = true

section Token

variable {table : Char → Bool} {name : PatternName} {token before after : List Char} {c : Char}

theorem isTokenChar_of_alphanumOr {extra : List Char} (hextra : extra.all isTokenChar = true)
    (h : alphanumOr extra c = true) : isTokenChar c = true := by
  simp only [alphanumOr, Bool.or_eq_true, List.contains_iff_mem] at h
  rcases h with h | h
  · simp [isTokenChar, alphanumOr, h]
  · exact List.all_eq_true.mp hextra c h

theorem IsToken.chars (h : IsToken name token) : ∀ c ∈ token, isTokenChar c = true := by
  intro c hc
  cases name with
  | googleApiKey =>
    obtain ⟨body, rfl, -, hbody⟩ := h
    rcases List.mem_append.mp hc with hc | hc
    · exact List.all_eq_true.mp (show "AIza".toList.all isTokenChar = true by decide) c hc
    · exact isTokenChar_of_alphanumOr (by decide) (hbody c hc)
  | slackToken =>
    obtain ⟨kind, body, rfl, hkind, -, -, hbody⟩ := h
    rcases List.mem_append.mp hc with hc | hc
    · exact List.all_eq_true.mp (show "xox".toList.all isTokenChar = true by decide) c hc
    rcases List.mem_cons.mp hc with rfl | hc
    · exact List.all_eq_true.mp (show ['a', 'b', 'p', 'q', 'r'].all isTokenChar = true by decide) c
        (List.contains_iff_mem.mp hkind)
    rcases List.mem_cons.mp hc with rfl | hc
    · decide
    · exact isTokenChar_of_alphanumOr (by decide) (hbody c hc)
  | jwtLike =>
    obtain ⟨header, claims, signature, rfl, -, hbody⟩ := h
    have hpart : ∀ c ∈ header ++ (claims ++ signature), isTokenChar c = true := fun c hc =>
      isTokenChar_of_alphanumOr (by decide) (hbody c hc)
    have hlit : ∀ c ∈ "eyJ".toList, isTokenChar c = true :=
      List.all_eq_true.mp (show "eyJ".toList.all isTokenChar = true by decide)
    simp only [List.mem_append, List.mem_cons] at hc hpart
    rcases hc with hc | hc | rfl | hc | hc | rfl | hc
    · exact hlit c hc
    · exact hpart c (.inl hc)
    · decide
    · exact hlit c hc
    · exact hpart c (.inr (.inl hc))
    · decide
    · exact hpart c (.inr (.inr hc))
  | _ => exact h.elim

/-- A token starts with a letter. -/
theorem IsToken.head (h : IsToken name token) : ∃ c rest, token = c :: rest ∧ isWord table c = true := by
  cases name with
  | googleApiKey => obtain ⟨body, rfl, -⟩ := h; exact ⟨'A', _, rfl, rfl⟩
  | slackToken => obtain ⟨kind, body, rfl, -⟩ := h; exact ⟨'x', _, rfl, rfl⟩
  | jwtLike => obtain ⟨header, claims, signature, rfl, -⟩ := h; exact ⟨'e', _, rfl, rfl⟩
  | _ => exact h.elim

/-- The last character of a token is a word character unless it is `-`. -/
theorem IsToken.last (h : IsToken name token) (hc : c ∈ token.getLast?) (hdash : c ≠ '-') : isWord table c = true := by
  have hclass : ∀ {extra body : List Char}, (∀ c ∈ body, alphanumOr extra c = true) → '.' ∉ extra → c ∈ body.getLast? →
      c ≠ '.' := by
    rintro extra body hbody hextra hc rfl
    have hdot := hbody '.' (List.mem_of_getLast? hc)
    simp only [alphanumOr, Bool.or_eq_true, List.contains_iff_mem] at hdot
    rcases hdot with hdot | hdot
    · exact absurd hdot (by decide)
    · exact hextra hdot
  refine isWord_of_isTokenChar (h.chars c (List.mem_of_getLast? hc)) hdash ?_
  cases name with
  | googleApiKey =>
    obtain ⟨body, rfl, hlen, hbody⟩ := h
    have hne : body ≠ [] := List.length_pos_iff.mp (by omega)
    rw [List.getLast?_append_of_ne_nil _ hne] at hc
    exact hclass hbody (by decide) hc
  | slackToken =>
    obtain ⟨kind, body, rfl, -, hlen, -, hbody⟩ := h
    have hne : body ≠ [] := List.length_pos_iff.mp (by omega)
    rw [List.getLast?_append_of_ne_nil _ (by simp), List.getLast?_cons_of_ne_nil (by simp),
      List.getLast?_cons_of_ne_nil hne] at hc
    exact hclass hbody (by decide) hc
  | jwtLike =>
    obtain ⟨header, claims, signature, rfl, ⟨-, -, hlen⟩, hbody⟩ := h
    have hne : signature ≠ [] := List.length_pos_iff.mp (by omega)
    rw [List.getLast?_append_of_ne_nil _ (by simp), List.getLast?_append_of_ne_nil _ (by simp),
      List.getLast?_cons_of_ne_nil (by simp), List.getLast?_append_of_ne_nil _ (by simp),
      List.getLast?_append_of_ne_nil _ (by simp), List.getLast?_cons_of_ne_nil hne] at hc
    exact hclass (fun c hc => hbody c (by simp [hc])) (by decide) hc
  | _ => exact h.elim

/-- The expressions for tokens read token characters. -/
theorem isTokenChar_of_alphabet (h : IsToken name token) (hc : name.regex.alphabet c = true) : isTokenChar c = true := by
  have hlit : ∀ {text : String}, text.toList.all isTokenChar = true → (lit text).alphabet c = true → isTokenChar c = true := by
    intro text htext hc
    rw [lit, alphabet_literal, List.contains_iff_mem] at hc
    exact List.all_eq_true.mp htext c hc
  cases name with
  | googleApiKey =>
    simp only [PatternName.regex, alphabet_all, List.any_cons, List.any_nil, Bool.or_false, Bool.or_eq_true,
      exactly, alphabet, Bool.false_eq_true, false_or] at hc
    rcases hc with hc | hc
    · exact hlit (by decide) hc
    · exact isTokenChar_of_alphanumOr (by decide) hc
  | slackToken =>
    simp only [PatternName.regex, alphabet_all, List.any_cons, List.any_nil, Bool.or_false, Bool.or_eq_true,
      alphabet, Bool.false_eq_true, false_or] at hc
    rcases hc with hc | hc | hc | hc
    · exact hlit (by decide) hc
    · exact List.all_eq_true.mp (show ['a', 'b', 'p', 'q', 'r'].all isTokenChar = true by decide) c
        (List.contains_iff_mem.mp hc)
    · exact hlit (by decide) hc
    · exact isTokenChar_of_alphanumOr (by decide) hc
  | jwtLike =>
    simp only [PatternName.regex, alphabet_all, List.any_cons, List.any_nil, Bool.or_false, Bool.or_eq_true,
      atLeast, alphabet, Bool.false_eq_true, false_or] at hc
    rcases hc with hc | hc | hc | hc | hc | hc | hc
    · exact hlit (by decide) hc
    · exact isTokenChar_of_alphanumOr (by decide) hc
    · exact hlit (by decide) hc
    · exact hlit (by decide) hc
    · exact isTokenChar_of_alphanumOr (by decide) hc
    · exact hlit (by decide) hc
    · exact isTokenChar_of_alphanumOr (by decide) hc
  | _ => exact h.elim

/-- They do not read white space. -/
theorem IsToken.alphabet_of_isSpace (h : IsToken name token) (hc : isSpace c = true) : name.regex.alphabet c = false := by
  by_contra hyes
  have htoken := isTokenChar_of_alphabet h (Bool.not_eq_false _ ▸ hyes)
  rw [isTokenChar_of_isSpace hc] at htoken
  cases htoken

theorem IsToken.minLength_pos (h : IsToken name token) : 0 < name.regex.minLength := by
  cases name with
  | googleApiKey => decide
  | slackToken => decide
  | jwtLike => decide
  | _ => exact h.elim

/-- The expressions for tokens end in `\b`. -/
theorem IsToken.ends (h : IsToken name token) : ∃ parts, name.regex = Regex.all (parts ++ [wordBoundary]) := by
  cases name with
  | googleApiKey => exact ⟨[wordBoundary, lit "AIza", exactly 35 (alphanumOr ['-', '_'])], rfl⟩
  | slackToken =>
    exact ⟨[wordBoundary, lit "xox", one (oneOf ['a', 'b', 'p', 'q', 'r']), lit "-", many (alphanumOr ['-']) 10 (some 80)], rfl⟩
  | jwtLike =>
    exact ⟨[wordBoundary, lit "eyJ", atLeast 10 (alphanumOr ['_', '-']), lit ".", lit "eyJ",
      atLeast 10 (alphanumOr ['_', '-']), lit ".", atLeast 10 (alphanumOr ['_', '-'])], rfl⟩
  | _ => exact h.elim

/-- A class of token characters stops at white space. -/
theorem Delimited.stops (h : Delimited before after) {extra : List Char} (hextra : extra.all isTokenChar = true) :
    ∀ c ∈ after.head?, alphanumOr extra c = false := by
  intro c hc
  by_contra hyes
  have := isTokenChar_of_alphanumOr hextra (Bool.not_eq_false _ ▸ hyes)
  rw [isTokenChar_of_isSpace (h.after c hc)] at this
  cases this

/-- Between word boundaries the expression takes the whole token. -/
theorem IsToken.takes (h : IsToken name token) (hdelimited : Delimited before after)
    (hstart : (Cursor.at before (token ++ after)).atBoundary (isWord table) = true)
    (hstop : (Cursor.at (before ++ token) after).atBoundary (isWord table) = true) :
    Takes (isWord table) name.regex before token after := by
  cases name with
  | googleApiKey =>
    obtain ⟨body, rfl, hlen, hbody⟩ := h
    refine Takes.boundary_cons hstart ?_
    rw [← List.append_assoc] at hstop
    have hexactly : Takes (isWord table) (exactly 35 (alphanumOr ['-', '_'])) (before ++ "AIza".toList) body after := by
      rw [← hlen]
      exact takes_exactly hbody
    exact takes_literal.seq (hexactly.boundary_end hstop)
  | slackToken =>
    obtain ⟨kind, body, rfl, hkind, hleast, hmost, hbody⟩ := h
    refine Takes.boundary_cons hstart ?_
    have hplace : before ++ ("xox".toList ++ (kind :: '-' :: body)) = before ++ "xox".toList ++ [kind] ++ "-".toList ++ body := by
      simp
    rw [hplace] at hstop
    have hmany : Takes (isWord table) (many (alphanumOr ['-']) 10 (some 80)) (before ++ "xox".toList ++ [kind] ++ "-".toList)
        body after :=
      takes_many hbody hleast (fun n hn => by cases hn; exact hmost) fun _ => hdelimited.stops (by decide)
    exact takes_literal.seq ((takes_one hkind).seq (takes_literal.seq (hmany.boundary_end hstop)))
  | jwtLike =>
    obtain ⟨header, claims, signature, rfl, ⟨hheader, hclaims, hsignature⟩, hbody⟩ := h
    refine Takes.boundary_cons hstart ?_
    have hplace : before ++ ("eyJ".toList ++ (header ++ ('.' :: ("eyJ".toList ++ (claims ++ ('.' :: signature)))))) =
        before ++ "eyJ".toList ++ header ++ ".".toList ++ "eyJ".toList ++ claims ++ ".".toList ++ signature := by
      simp
    rw [hplace] at hstop
    -- each of the three parts is read to its end, where no character of the class follows
    have hdot : ∀ {place part rest : List Char}, 10 ≤ part.length → (∀ c ∈ part, alphanumOr ['_', '-'] c = true) →
        (∀ c ∈ rest.head?, c = '.') → Takes (isWord table) (atLeast 10 (alphanumOr ['_', '-'])) place part rest := by
      intro place part rest hlen hpart hrest
      refine takes_many hpart hlen (by simp) fun _ c hc => ?_
      rw [hrest c hc]
      decide
    have hlast : Takes (isWord table) (atLeast 10 (alphanumOr ['_', '-']))
        (before ++ "eyJ".toList ++ header ++ ".".toList ++ "eyJ".toList ++ claims ++ ".".toList) signature after :=
      takes_many (fun c hc => hbody c (by simp [hc])) hsignature (by simp) fun _ => hdelimited.stops (by decide)
    have hclaims' := (hdot hclaims (fun c hc => hbody c (by simp [hc])) (by simp)).seq
      (takes_literal.seq (hlast.boundary_end hstop))
    exact takes_literal.seq ((hdot hheader (fun c hc => hbody c (by simp [hc])) (by simp)).seq
      (takes_literal.seq (takes_literal.seq hclaims')))
  | _ => exact h.elim

/-! ## Boundaries -/

theorem any_isWord_of_isSpace (htable : ∀ c, isSpace c = true → table c = false) {o : Option Char}
    (ho : ∀ c ∈ o, isSpace c = true) : o.any (isWord table) = false := by
  cases o with
  | none => rfl
  | some c => exact isWord_of_isSpace htable (ho c rfl)

theorem IsToken.atBoundary_start (h : IsToken name token) (htable : ∀ c, isSpace c = true → table c = false)
    (hdelimited : Delimited before after) : (Cursor.at before (token ++ after)).atBoundary (isWord table) = true := by
  have hbefore := any_isWord_of_isSpace htable hdelimited.before
  obtain ⟨c, rest, rfl, hc⟩ : ∃ c rest, token = c :: rest ∧ isWord table c = true := h.head
  show (before.getLast?.any (isWord table) != (some c).any (isWord table)) = true
  rw [hbefore, Option.any_some, hc]
  rfl

/-- Behind a token there is a word boundary exactly when its last character is a word character. -/
theorem IsToken.atBoundary_stop (h : IsToken name token) (htable : ∀ c, isSpace c = true → table c = false)
    (hdelimited : Delimited before after) :
    (Cursor.at (before ++ token) after).atBoundary (isWord table) = true ↔ token.getLast? ≠ some '-' := by
  have hafter := any_isWord_of_isSpace htable hdelimited.after
  obtain ⟨d, rest, rfl, -⟩ : ∃ c rest, token = c :: rest ∧ isWord table c = true := h.head
  obtain ⟨c, hc⟩ : ∃ c, (d :: rest).getLast? = some c := ⟨_, List.getLast?_eq_getLast_of_ne_nil (List.cons_ne_nil d rest)⟩
  show ((before ++ d :: rest).getLast?.any (isWord table) != after.head?.any (isWord table)) = true ↔ _
  rw [hafter, List.getLast?_append_of_ne_nil _ (List.cons_ne_nil d rest), hc, Option.any_some]
  by_cases hdash : c = '-'
  · subst hdash
    simp [isWord]
  · rw [h.last hc hdash]
    simp [hdash]

/-- A token that does not end in `-` is found whole. -/
theorem IsToken.found {text : List Char} (h : IsToken name token) (htable : ∀ c, isSpace c = true → table c = false)
    (hdelimited : Delimited before after) (htext : text = before ++ (token ++ after)) (hlast : token.getLast? ≠ some '-') :
    ⟨⟨byteLength before, byteLength (before ++ token)⟩, none⟩ ∈ findIter (isWord table) name.regex text := by
  refine found_of_takes h.minLength_pos htext
    (h.takes hdelimited (h.atBoundary_start htable hdelimited) ((h.atBoundary_stop htable hdelimited).mpr hlast)) ?_
  exact fun c hc => h.alphabet_of_isSpace (hdelimited.before c hc)

/-- A match of the detector that starts in a token that ends in `-` ends before its last byte. -/
theorem IsToken.found_short {text : List Char} (h : IsToken name token)
    (htable : ∀ c, isSpace c = true → table c = false) (hdelimited : Delimited before after)
    (htext : text = before ++ (token ++ after)) (hlast : token.getLast? = some '-') {f : Found}
    (hf : f ∈ findIter (isWord table) name.regex text) (hstart : f.whole.start < byteLength (before ++ token)) :
    f.whole.stop < byteLength (before ++ token) := by
  have htext' : text = before ++ token ++ after := by rw [htext]; simp
  have hle : f.whole.stop ≤ byteLength (before ++ token) := by
    cases hafter : after with
    | nil =>
      obtain ⟨place, piece, rest, captured, hplace, -, -, rfl⟩ := (scan_findIter h.minLength_pos text).first f hf
      have hwhole : place ++ piece ++ rest = before ++ token := by
        rw [hafter, List.append_nil] at htext'
        rw [← htext', hplace]; simp
      rw [List.nil_append, ← hwhole, byteLength_append _ rest]
      exact Nat.le_add_right _ _
    | cons c rest =>
      rw [hafter] at htext'
      have hc : name.regex.alphabet c = false := h.alphabet_of_isSpace (hdelimited.after c (by rw [hafter]; rfl))
      rcases found_avoids h.minLength_pos htext' hc hf with hstop | hstop
      · exact hstop
      · rw [byteLength_append _ [c]] at hstop
        omega
  refine lt_of_le_of_ne hle fun heq => ?_
  -- a match that ends with the token would end at a word boundary
  obtain ⟨place, piece, rest, captured, hplace, -, hfirst, rfl⟩ := (scan_findIter h.minLength_pos text).first f hf
  rw [List.nil_append] at heq hfirst
  have htexts : place ++ piece ++ rest = before ++ token ++ after := by rw [← htext', hplace]; simp
  have hplace' : place ++ piece = before ++ token := eq_of_byteLength_eq htexts heq
  rw [hplace'] at htexts hfirst
  rw [List.append_cancel_left htexts] at hfirst
  obtain ⟨parts, hparts⟩ := h.ends
  rw [hparts] at hfirst
  have hboundary := atBoundary_of_all (List.mem_of_mem_head? hfirst)
  exact (h.atBoundary_stop htable hdelimited).mp hboundary hlast

end Token

/-- Only the detector of one name, with redaction. -/
def onlyConfig (name : PatternName) : SecretsDetectionConfig :=
  { SecretsDetectionConfig.default with enabled := [(name.text, true)], redact := true }

theorem isEnabled_onlyConfig {name name' : PatternName} (h : (onlyConfig name).isEnabled name' = true) : name' = name := by
  unfold SecretsDetectionConfig.isEnabled at h
  by_contra hne
  have htext : name'.text ≠ name.text := fun heq => hne (PatternName.text_injective heq)
  simp [onlyConfig, List.lookup_cons, beq_false_of_ne htext] at h

/-- A token with white space or nothing around it is covered by the selected spans, whichever other
patterns are enabled and in whichever order they are tried, exactly when it does not end in `-`. -/
theorem token_covered_iff (table : Char → Bool) (htable : ∀ c, isSpace c = true → table c = false) (name : PatternName)
    (text : String) (before token after : List Char) (htext : text.toList = before ++ (token ++ after))
    (h : IsToken name token) (hdelimited : Delimited before after) :
    (∀ patterns : Patterns, patterns.findIter = (Patterns.compiled table).findIter →
      ∀ config : SecretsDetectionConfig, config.redact = true → config.isEnabled name = true →
        ∀ x, byteLength before ≤ x → x < byteLength (before ++ token) →
          ∃ s ∈ selected patterns config text.toList, s.span.Contains x) ↔
      token.getLast? ≠ some '-' := by
  have hcapture : name.isCapture = false := by
    cases name with
    | base6424 => exact h.elim
    | _ => rfl
  constructor
  · intro hcovered hlast
    have hne : token ≠ [] := by rintro rfl; cases hlast
    have hpos := byteLength_pos hne
    obtain ⟨s, hs, hpoint⟩ := hcovered (.compiled table) rfl (onlyConfig name) rfl
      (by simp [SecretsDetectionConfig.isEnabled, onlyConfig]) (byteLength (before ++ token) - 1)
      (by rw [byteLength_append]; omega) (by rw [byteLength_append]; omega)
    obtain ⟨c, hc, hpoint⟩ := (contains_selected _ _ _ _).mp ⟨s, hs, hpoint⟩
    obtain ⟨name', henabled, hname⟩ := mem_collectCandidates.mp hc
    rw [isEnabled_onlyConfig henabled] at hname
    obtain ⟨f, hf, g, hg, -, rfl⟩ := mem_patternCandidates.mp hname
    rw [PatternName.matched, hcapture] at hg
    cases hg
    obtain ⟨hstart, hstop⟩ := hpoint
    have hstart : f.whole.start ≤ byteLength (before ++ token) - 1 := hstart
    have hstop : byteLength (before ++ token) - 1 < f.whole.stop := hstop
    rw [byteLength_append] at hstart hstop
    have := h.found_short htable hdelimited htext hlast hf (by rw [byteLength_append]; omega)
    rw [byteLength_append] at this
    omega
  · intro hlast patterns hfind config _ henabled x hle hlt
    have hfound := h.found htable hdelimited htext hlast
    have hcandidate : MatchCandidate.of name text.toList ⟨byteLength before, byteLength (before ++ token)⟩ ∈
        patternCandidates patterns text.toList name := by
      have hfound' : ⟨⟨byteLength before, byteLength (before ++ token)⟩, none⟩ ∈ patterns.findIter name text.toList := by
        rw [hfind]
        exact hfound
      refine mem_patternCandidates.mpr ⟨_, hfound', _, ?_, ?_, rfl⟩
      · rw [PatternName.matched, hcapture]
        rfl
      · rw [hcapture]
        intro h
        cases h
    exact (contains_selected _ _ _ _).mpr
      ⟨_, mem_collectCandidates.mpr ⟨name, henabled, hcandidate⟩, hle, hlt⟩

/-- An API key whose last character is the given one. -/
def apiKey (last : Char) : List Char := "AIza".toList ++ (List.replicate 34 'a' ++ [last])

theorem isToken_apiKey {last : Char} (h : alphanumOr ['-', '_'] last = true) : IsToken .googleApiKey (apiKey last) := by
  refine ⟨_, rfl, by simp, fun c hc => ?_⟩
  rcases List.mem_append.mp hc with hc | hc
  · rw [List.eq_of_mem_replicate hc]
    decide
  · rw [List.mem_singleton.mp hc]
    exact h

theorem token_covered_apiKey :
    ∃ s ∈ selected (.compiled fun _ => false) (onlyConfig .googleApiKey) (String.ofList (apiKey 'a')).toList,
      s.span.Contains 38 :=
  (token_covered_iff (fun _ => false) (fun _ _ => rfl) .googleApiKey (String.ofList (apiKey 'a')) [] (apiKey 'a') []
    (by simp) (isToken_apiKey (by decide)) ⟨by simp, by simp⟩).mpr (by decide) (.compiled fun _ => false) rfl
    (onlyConfig .googleApiKey) rfl (by decide) 38 (by decide) (by decide)

theorem apiKey_dash_not_covered :
    IsToken .googleApiKey (apiKey '-') ∧ (onlyConfig .googleApiKey).isEnabled .googleApiKey = true ∧
      selected (.compiled fun _ => false) (onlyConfig .googleApiKey) (String.ofList (apiKey '-')).toList = [] := by
  refine ⟨isToken_apiKey (by decide), by decide, ?_⟩
  have hcandidates : collectCandidates (.compiled fun _ => false) (onlyConfig .googleApiKey)
      (String.ofList (apiKey '-')).toList = [] := by
    rw [← List.length_eq_zero_iff]
    decide +kernel
  rw [selected, hcandidates]
  rfl

end DataPlane.Secrets
