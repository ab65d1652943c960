/-
What regular expressions find. Every way to match reads a piece of the text over the expression's
alphabet; the first way is given part by part for sequences of classes and literals. An iteration
over the matches of an expression that never matches the empty text is a scan: matches in order, each
the first one at its place, and every place where the expression matches lies in one of them.
-/
import DataPlane.Lib.Regex

namespace Regex

open Utf8

/-! ## Places -/

/-- The place between two parts of a text. -/
def Cursor.at (before rest : List Char) : Cursor := ⟨before.getLast?, byteLength before, rest⟩

theorem Cursor.after_at (before : List Char) (c : Char) (rest : List Char) :
    (Cursor.at before (c :: rest)).after c rest = .at (before ++ [c]) rest := by
  simp [Cursor.after, Cursor.at, byteLength_append, byteLength_cons, byteLength_nil]

theorem Cursor.at_rest (before rest : List Char) : (Cursor.at before rest).rest = rest := rfl

/-! ## All ways to match -/

section Threads

variable {isWord : Char → Bool} {before rest : List Char} {captured : Option (Span Nat)} {t : Thread}

theorem mem_repeats {accepts : Char → Bool} : ∀ {least most : Nat} {before rest : List Char} {cursor : Cursor},
    cursor ∈ repeats accepts least most (.at before rest) ↔ ∃ piece after, rest = piece ++ after ∧
      (∀ c ∈ piece, accepts c = true) ∧ least ≤ piece.length ∧ piece.length ≤ most ∧
        cursor = .at (before ++ piece) after
  | least, 0, before, rest, cursor => by
    rw [repeats]
    constructor
    · intro h
      split at h
      · rw [List.mem_singleton.mp h]
        exact ⟨[], rest, rfl, by simp, by simp; omega, by simp, by simp⟩
      · cases h
    · rintro ⟨piece, after, rfl, -, hleast, hmost, rfl⟩
      have hnil : piece = [] := List.length_eq_zero_iff.mp (by omega)
      subst hnil
      have hzero : least = 0 := by simpa using hleast
      simp [hzero]
  | least, most + 1, before, rest, cursor => by
    rw [repeats, List.mem_append]
    constructor
    · rintro (h | h)
      · rw [Cursor.at_rest] at h
        split at h
        next c rest =>
          split at h
          · rw [Cursor.after_at, mem_repeats] at h
            obtain ⟨piece, after, rfl, hall, hleast, hmost, rfl⟩ := h
            refine ⟨c :: piece, after, rfl, List.forall_mem_cons.mpr ⟨‹_›, hall⟩, ?_, ?_, by simp⟩
            · rw [List.length_cons]; omega
            · rw [List.length_cons]; omega
          · cases h
        next => cases h
      · split at h
        · rw [List.mem_singleton.mp h]
          exact ⟨[], rest, rfl, by simp, by simp; omega, by simp, by simp⟩
        · cases h
    · rintro ⟨piece, after, rfl, hall, hleast, hmost, rfl⟩
      cases piece with
      | nil =>
        have hzero : least = 0 := by simpa using hleast
        exact .inr (by simp [hzero])
      | cons c piece =>
        obtain ⟨hc, hall⟩ := List.forall_mem_cons.mp hall
        refine .inl ?_
        rw [List.length_cons] at hleast hmost
        simp only [Cursor.at_rest, List.cons_append, hc, if_true]
        rw [Cursor.after_at, mem_repeats]
        exact ⟨piece, after, rfl, hall, by omega, by omega, by simp⟩

theorem mem_threads_one {accepts : Char → Bool} : t ∈ threads isWord (one accepts) ⟨.at before rest, captured⟩ ↔
    ∃ c after, rest = c :: after ∧ accepts c = true ∧ t = ⟨.at (before ++ [c]) after, captured⟩ := by
  unfold threads
  cases rest with
  | nil => simp [Cursor.at_rest]
  | cons c after =>
    simp only [Cursor.at_rest, Cursor.after_at]
    cases hc : accepts c with
    | true => simp [hc]
    | false => simp [hc]

theorem mem_threads_many {accepts : Char → Bool} {least : Nat} {most : Option Nat} :
    t ∈ threads isWord (many accepts least most) ⟨.at before rest, captured⟩ ↔
      ∃ piece after, rest = piece ++ after ∧ (∀ c ∈ piece, accepts c = true) ∧ least ≤ piece.length ∧
        (∀ n ∈ most, piece.length ≤ n) ∧ t = ⟨.at (before ++ piece) after, captured⟩ := by
  unfold threads
  simp only [List.mem_map, mem_repeats, Cursor.at_rest]
  constructor
  · rintro ⟨cursor, ⟨piece, after, rfl, hall, hleast, hmost, rfl⟩, rfl⟩
    refine ⟨piece, after, rfl, hall, hleast, ?_, rfl⟩
    rintro n ⟨⟩
    exact hmost
  · rintro ⟨piece, after, rfl, hall, hleast, hmost, rfl⟩
    refine ⟨_, ⟨piece, after, rfl, hall, hleast, ?_, rfl⟩, rfl⟩
    cases most with
    | none => simp
    | some n => exact hmost n rfl

theorem mem_threads_seq {first second : Regex} {u : Thread} : t ∈ threads isWord (seq first second) u ↔
    ∃ v ∈ threads isWord first u, t ∈ threads isWord second v := by
  rw [threads]
  exact List.mem_flatMap

theorem mem_threads_alt {first second : Regex} {u : Thread} : t ∈ threads isWord (alt first second) u ↔
    t ∈ threads isWord first u ∨ t ∈ threads isWord second u := by
  rw [threads]
  exact List.mem_append

/-- An expression that ends in `\b` matches up to a word boundary. -/
theorem atBoundary_of_all : ∀ {parts : List Regex} {u : Thread}, t ∈ threads isWord (all (parts ++ [wordBoundary])) u →
    t.cursor.atBoundary isWord = true
  | [], u, h => by
    obtain ⟨v, hv, ht⟩ := mem_threads_seq.mp h
    rw [threads] at hv
    replace ht : t ∈ threads isWord empty v := ht
    rw [threads, List.mem_singleton] at ht
    split at hv
    · rw [ht, List.mem_singleton.mp hv]
      assumption
    · cases hv
  | part :: parts, u, h => by
    obtain ⟨v, -, ht⟩ := mem_threads_seq.mp h
    exact atBoundary_of_all ht

/-- Characters an expression can read. -/
def alphabet : Regex → Char → Bool
  | one accepts, c | many accepts _ _, c => accepts c
  | seq first second, c | alt first second, c => first.alphabet c || second.alphabet c
  | group inner, c => inner.alphabet c
  | empty, _ | textStart, _ | wordBoundary, _ => false

theorem alphabet_all (parts : List Regex) (c : Char) : (all parts).alphabet c = parts.any (·.alphabet c) := by
  induction parts with
  | nil => rfl
  | cons part parts ih =>
    rw [List.any_cons, ← ih]
    rfl

theorem alphabet_literal (text : List Char) (c : Char) : (literal (· == ·) text).alphabet c = text.contains c := by
  induction text with
  | nil => rfl
  | cons d text ih =>
    rw [List.contains_cons, ← ih, Bool.beq_comm]
    rfl

/-- A number of characters every match has. -/
def minLength : Regex → Nat
  | one _ => 1
  | many _ least _ => least
  | seq first second => first.minLength + second.minLength
  | alt first second => min first.minLength second.minLength
  | group inner => inner.minLength
  | empty | textStart | wordBoundary => 0

/-- Every way to match reads a piece of the text, over the alphabet and of the minimal length. -/
theorem threads_read : ∀ {r : Regex} {before rest : List Char} {captured : Option (Span Nat)} {t : Thread},
    t ∈ threads isWord r ⟨.at before rest, captured⟩ → ∃ piece after, rest = piece ++ after ∧
      t.cursor = .at (before ++ piece) after ∧ r.minLength ≤ piece.length ∧ ∀ c ∈ piece, r.alphabet c = true
  | empty, before, rest, captured, t, h => by
    rw [threads] at h
    rw [List.mem_singleton.mp h]
    exact ⟨[], rest, rfl, by simp, le_rfl, by simp⟩
  | one accepts, before, rest, captured, t, h => by
    obtain ⟨c, after, rfl, hc, rfl⟩ := mem_threads_one.mp h
    exact ⟨[c], after, rfl, rfl, le_rfl, by simpa [alphabet] using hc⟩
  | many accepts least most, before, rest, captured, t, h => by
    obtain ⟨piece, after, rfl, hall, hleast, -, rfl⟩ := mem_threads_many.mp h
    exact ⟨piece, after, rfl, rfl, hleast, hall⟩
  | seq first second, before, rest, captured, t, h => by
    obtain ⟨u, hu, ht⟩ := mem_threads_seq.mp h
    obtain ⟨piece, after, rfl, hcursor, hmin, hall⟩ := threads_read hu
    obtain ⟨cursor, captured'⟩ := u
    cases hcursor
    obtain ⟨piece', after, rfl, hcursor', hmin', hall'⟩ := threads_read ht
    refine ⟨piece ++ piece', after, by simp, by rw [hcursor', List.append_assoc], ?_, ?_⟩
    · rw [List.length_append, minLength]; omega
    · intro c hc
      rw [alphabet, Bool.or_eq_true]
      rcases List.mem_append.mp hc with hc | hc
      · exact .inl (hall c hc)
      · exact .inr (hall' c hc)
  | alt first second, before, rest, captured, t, h => by
    rcases mem_threads_alt.mp h with h | h
    · obtain ⟨piece, after, hrest, hcursor, hmin, hall⟩ := threads_read h
      exact ⟨piece, after, hrest, hcursor, by rw [minLength]; omega, fun c hc => by rw [alphabet, hall c hc, Bool.true_or]⟩
    · obtain ⟨piece, after, hrest, hcursor, hmin, hall⟩ := threads_read h
      exact ⟨piece, after, hrest, hcursor, by rw [minLength]; omega, fun c hc => by rw [alphabet, hall c hc, Bool.or_true]⟩
  | textStart, before, rest, captured, t, h => by
    rw [threads] at h
    split at h
    · rw [List.mem_singleton.mp h]
      exact ⟨[], rest, rfl, by simp, le_rfl, by simp⟩
    · cases h
  | wordBoundary, before, rest, captured, t, h => by
    rw [threads] at h
    split at h
    · rw [List.mem_singleton.mp h]
      exact ⟨[], rest, rfl, by simp, le_rfl, by simp⟩
    · cases h
  | group inner, before, rest, captured, t, h => by
    rw [threads, List.mem_map] at h
    obtain ⟨u, hu, rfl⟩ := h
    obtain ⟨piece, after, hrest, hcursor, hmin, hall⟩ := threads_read hu
    exact ⟨piece, after, hrest, hcursor, hmin, hall⟩

end Threads

/-! ## The first way to match -/

/-- The first way to match at a place reads the piece and captures nothing. -/
def Takes (isWord : Char → Bool) (r : Regex) (before piece after : List Char) : Prop :=
  ∀ captured, (threads isWord r ⟨.at before (piece ++ after), captured⟩).head? = some ⟨.at (before ++ piece) after, captured⟩

section Takes

variable {isWord : Char → Bool} {before piece after : List Char}

theorem takes_empty : Takes isWord empty before [] after := fun captured => by simp [threads]

theorem takes_one {accepts : Char → Bool} {c : Char} (hc : accepts c = true) :
    Takes isWord (one accepts) before [c] after := fun captured => by
  simp [threads, Cursor.at_rest, hc, Cursor.after_at]

theorem takes_wordBoundary (h : (Cursor.at before after).atBoundary isWord = true) :
    Takes isWord wordBoundary before [] after := fun captured => by
  simp [threads, h]

/-- If the first part's first way leaves a place where the second part matches, it is kept. -/
theorem Takes.seq {first second : Regex} {piece' : List Char} (h : Takes isWord first before piece (piece' ++ after))
    (h' : Takes isWord second (before ++ piece) piece' after) :
    Takes isWord (seq first second) before (piece ++ piece') after := by
  intro captured
  rw [threads, List.head?_flatMap, List.append_assoc]
  have hhead := h captured
  cases hthreads : threads isWord first ⟨.at before (piece ++ (piece' ++ after)), captured⟩ with
  | nil => rw [hthreads] at hhead; cases hhead
  | cons t rest =>
    rw [hthreads] at hhead
    rw [Option.some.inj hhead, List.findSome?_cons, h' captured, List.append_assoc]

theorem Takes.alt_left {first second : Regex} (h : Takes isWord first before piece after) :
    Takes isWord (alt first second) before piece after := by
  intro captured
  rw [threads, List.head?_append, h captured]
  rfl

theorem Takes.alt_right {first second : Regex}
    (hnone : ∀ captured, threads isWord first ⟨.at before (piece ++ after), captured⟩ = [])
    (h : Takes isWord second before piece after) : Takes isWord (alt first second) before piece after := by
  intro captured
  rw [threads, List.head?_append, hnone captured, h captured]
  rfl

theorem head?_repeats {accepts : Char → Bool} : ∀ {piece before after : List Char} {least most : Nat},
    (∀ c ∈ piece, accepts c = true) → least ≤ piece.length → piece.length ≤ most →
      (piece.length < most → ∀ c ∈ after.head?, accepts c = false) →
        (repeats accepts least most (.at before (piece ++ after))).head? = some (.at (before ++ piece) after)
  | [], before, after, least, most, _, hleast, _, hstop => by
    have hzero : least = 0 := by simpa using hleast
    subst hzero
    cases most with
    | zero => simp [repeats]
    | succ most =>
      rw [repeats]
      cases after with
      | nil => simp [Cursor.at_rest]
      | cons c after => simp [Cursor.at_rest, hstop (by simp) c rfl]
  | c :: piece, before, after, least, 0, _, _, hmost, _ => by simp at hmost
  | c :: piece, before, after, least, most + 1, hall, hleast, hmost, hstop => by
    obtain ⟨hc, hall⟩ := List.forall_mem_cons.mp hall
    rw [List.length_cons] at hleast hmost hstop
    have hrest : (repeats accepts (least - 1) most (.at (before ++ [c]) (piece ++ after))).head? =
        some (.at (before ++ [c] ++ piece) after) :=
      head?_repeats hall (by omega) (Nat.le_of_succ_le_succ hmost) fun hlt => hstop (by omega)
    rw [repeats, List.head?_append]
    simp only [Cursor.at_rest, List.cons_append, hc, if_true, Cursor.after_at, hrest]
    simp

/-- A repetition takes a run that is long enough, to its end or to the most it may read. -/
theorem takes_many {accepts : Char → Bool} {least : Nat} {most : Option Nat} (hall : ∀ c ∈ piece, accepts c = true)
    (hleast : least ≤ piece.length) (hmost : ∀ n ∈ most, piece.length ≤ n)
    (hstop : (∀ n ∈ most, piece.length < n) → ∀ c ∈ after.head?, accepts c = false) :
    Takes isWord (many accepts least most) before piece after := by
  intro captured
  rw [threads, List.head?_map, Cursor.at_rest]
  have hrepeats : (repeats accepts least (most.getD (piece ++ after).length) (.at before (piece ++ after))).head? =
      some (.at (before ++ piece) after) := by
    refine head?_repeats hall hleast ?_ fun hlt => hstop fun n hn => ?_
    · cases most with
      | none => simp
      | some n => exact hmost n rfl
    · cases hn
      exact hlt
  rw [hrepeats]
  rfl

theorem takes_exactly {accepts : Char → Bool} (hall : ∀ c ∈ piece, accepts c = true) :
    Takes isWord (exactly piece.length accepts) before piece after := by
  refine takes_many hall le_rfl (fun n hn => by cases hn; exact le_rfl) fun hlt => ?_
  exact absurd (hlt _ rfl) (lt_irrefl _)

theorem takes_literal : ∀ {text before after : List Char}, Takes isWord (literal (· == ·) text) before text after
  | [], _, _ => takes_empty
  | c :: text, before, after => by
    have hone : Takes isWord (one (c == ·)) before [c] (text ++ after) := takes_one (by simp)
    exact hone.seq takes_literal

/-- A list of parts in front of a word boundary that holds. -/
theorem Takes.boundary_cons {parts : List Regex} (h : (Cursor.at before (piece ++ after)).atBoundary isWord = true)
    (hparts : Takes isWord (all parts) before piece after) : Takes isWord (all (wordBoundary :: parts)) before piece after := by
  have hskip : Takes isWord wordBoundary before [] (piece ++ after) := takes_wordBoundary h
  rw [← List.append_nil before] at hparts
  exact hskip.seq hparts

/-- A list of one part. -/
theorem Takes.singleton {r : Regex} (h : Takes isWord r before piece after) : Takes isWord (all [r]) before piece after := by
  have hend : Takes isWord empty (before ++ piece) [] after := takes_empty
  have htakes := Takes.seq (show Takes isWord r before piece ([] ++ after) from h) hend
  rw [List.append_nil] at htakes
  exact htakes

/-- A last part and a word boundary that holds behind it. -/
theorem Takes.boundary_end {r : Regex} (h : Takes isWord r before piece after)
    (hstop : (Cursor.at (before ++ piece) after).atBoundary isWord = true) :
    Takes isWord (all [r, wordBoundary]) before piece after := by
  have hend : Takes isWord (all [wordBoundary]) (before ++ piece) [] after := Takes.boundary_cons hstop takes_empty
  have htakes := Takes.seq (show Takes isWord r before piece ([] ++ after) from h) hend
  rw [List.append_nil] at htakes
  exact htakes

end Takes

/-! ## Iterating over the matches -/

/-- The first way to match at a place. -/
def firstThread (isWord : Char → Bool) (r : Regex) (before rest : List Char) : Option Thread :=
  (threads isWord r ⟨.at before rest, none⟩).head?

/-- The matches from a place on: before the first one the expression matches nowhere, and the others
are those from its end on. -/
inductive Scan (isWord : Char → Bool) (r : Regex) : List Char → List Char → List Found → Prop where
  | done {before rest : List Char}
      (hnone : ∀ left right, rest = left ++ right → firstThread isWord r (before ++ left) right = none) :
      Scan isWord r before rest []
  | found {before : List Char} (skipped : List Char) {piece rest : List Char} {captured : Option (Span Nat)}
      {founds : List Found}
      (hskipped : ∀ left right, skipped = left ++ right → right ≠ [] →
        firstThread isWord r (before ++ left) (right ++ (piece ++ rest)) = none)
      (hne : piece ≠ [])
      (hfirst : firstThread isWord r (before ++ skipped) (piece ++ rest) =
        some ⟨.at (before ++ skipped ++ piece) rest, captured⟩)
      (hscan : Scan isWord r (before ++ skipped ++ piece) rest founds) :
      Scan isWord r before (skipped ++ (piece ++ rest))
        (⟨⟨byteLength (before ++ skipped), byteLength (before ++ skipped ++ piece)⟩, captured⟩ :: founds)

section Scan

variable {isWord : Char → Bool} {r : Regex}

/-- The ways to split a text in two, by whether the first character goes to the left. -/
theorem forall_split_cons {α : Type} {c : α} {rest : List α} {motive : List α → List α → Prop} :
    (∀ left right, c :: rest = left ++ right → motive left right) ↔
      motive [] (c :: rest) ∧ ∀ left right, rest = left ++ right → motive (c :: left) right := by
  constructor
  · intro h
    exact ⟨h [] _ rfl, fun left right hrest => h (c :: left) right (by rw [hrest, List.cons_append])⟩
  · rintro ⟨hnil, hcons⟩ left right h
    cases left with
    | nil => cases h; exact hnil
    | cons d left =>
      obtain ⟨rfl, htail⟩ := List.cons.inj h
      exact hcons left right htail

/-- A search ends without a match, or at the first place with one. -/
theorem search_cases : ∀ (rest before : List Char),
    (search isWord r before.getLast? (byteLength before) rest = none ∧
      ∀ left right, rest = left ++ right → firstThread isWord r (before ++ left) right = none) ∨
    ∃ skipped rest' t, rest = skipped ++ rest' ∧ firstThread isWord r (before ++ skipped) rest' = some t ∧
      (∀ left right, skipped = left ++ right → right ≠ [] →
        firstThread isWord r (before ++ left) (right ++ rest') = none) ∧
      search isWord r before.getLast? (byteLength before) rest =
        some (⟨⟨byteLength (before ++ skipped), t.cursor.offset⟩, t.captured⟩, t.cursor)
  | rest, before => by
    cases hfirst : firstThread isWord r before rest with
    | some t =>
      have hhead : (threads isWord r ⟨⟨before.getLast?, byteLength before, rest⟩, none⟩).head? = some t := hfirst
      refine .inr ⟨[], rest, t, rfl, by simpa using hfirst, ?_, ?_⟩
      · intro left right h hne
        exact absurd (List.append_eq_nil_iff.mp h.symm).2 hne
      · rw [search.eq_def, hhead, List.append_nil]
    | none =>
      have hhead : (threads isWord r ⟨⟨before.getLast?, byteLength before, rest⟩, none⟩).head? = none := hfirst
      cases rest with
      | nil =>
        refine .inl ⟨by rw [search, hhead], ?_⟩
        intro left right h
        obtain ⟨rfl, rfl⟩ := List.append_eq_nil_iff.mp h.symm
        simpa using hfirst
      | cons c rest =>
        have hstep : search isWord r before.getLast? (byteLength before) (c :: rest) =
            search isWord r (before ++ [c]).getLast? (byteLength (before ++ [c])) rest := by
          rw [search, hhead]
          simp [byteLength_append, byteLength_cons, byteLength_nil]
        rcases search_cases rest (before ++ [c]) with ⟨hnone, hall⟩ | ⟨skipped, rest', t, rfl, ht, hskipped, hsearch⟩
        · refine .inl ⟨hstep.trans hnone, forall_split_cons.mpr ⟨by simpa using hfirst, ?_⟩⟩
          intro left right h
          simpa using hall left right h
        · refine .inr ⟨c :: skipped, rest', t, rfl, by simpa using ht, forall_split_cons.mpr ⟨?_, ?_⟩, ?_⟩
          · intro _
            simpa using hfirst
          · intro left right h hne
            simpa using hskipped left right h hne
          · rw [hstep, hsearch]
            simp

theorem scan_searchAll (hlength : 0 < r.minLength) : ∀ (fuel : Nat) (before rest : List Char), rest.length < fuel →
    Scan isWord r before rest (searchAll isWord r fuel (.at before rest))
  | 0, _, _, h => absurd h (Nat.not_lt_zero _)
  | fuel + 1, before, rest, hfuel => by
    rw [searchAll]
    dsimp only [Cursor.at]
    rcases search_cases rest before with ⟨hnone, hall⟩ | ⟨skipped, rest', t, rfl, ht, hskipped, hsearch⟩
    · rw [hnone]
      exact .done hall
    · rw [hsearch]
      obtain ⟨piece, after, rfl, hcursor, hmin, -⟩ := threads_read (List.mem_of_mem_head? ht)
      obtain ⟨cursor, captured⟩ := t
      cases hcursor
      have hne : piece ≠ [] := by
        rintro rfl
        rw [List.length_nil] at hmin
        omega
      have hpos := byteLength_pos hne
      have hlt : byteLength (before ++ skipped) < byteLength (before ++ skipped ++ piece) := by
        rw [byteLength_append (before ++ skipped) piece]
        omega
      simp only [if_pos hlt]
      refine .found skipped hskipped hne ht (scan_searchAll hlength fuel _ _ ?_)
      have := List.length_pos_iff.mpr hne
      simp only [List.length_append] at hfuel
      omega

/-- The matches in a text are a scan of it. -/
theorem scan_findIter (hlength : 0 < r.minLength) (text : List Char) :
    Scan isWord r [] text (findIter isWord r text) :=
  scan_searchAll hlength _ [] text (Nat.lt_succ_self _)

/-- A found match is the first one at its place. -/
theorem Scan.first {before rest : List Char} {founds : List Found} (h : Scan isWord r before rest founds) :
    ∀ f ∈ founds, ∃ skipped piece after captured, rest = skipped ++ (piece ++ after) ∧ piece ≠ [] ∧
      firstThread isWord r (before ++ skipped) (piece ++ after) =
        some ⟨.at (before ++ skipped ++ piece) after, captured⟩ ∧
      f = ⟨⟨byteLength (before ++ skipped), byteLength (before ++ skipped ++ piece)⟩, captured⟩ := by
  induction h with
  | done => intro f hf; cases hf
  | @found before skipped piece rest captured founds _ hne hfirst _ ih =>
    intro f hf
    rcases List.mem_cons.mp hf with rfl | hf
    · exact ⟨skipped, piece, rest, captured, rfl, hne, hfirst, rfl⟩
    · obtain ⟨skipped', piece', after, captured', rfl, hne', hfirst', rfl⟩ := ih f hf
      refine ⟨skipped ++ piece ++ skipped', piece', after, captured', by simp, hne', ?_, by simp⟩
      simpa using hfirst'

/-- Found matches come in order and lie apart. -/
theorem Scan.apart {before rest : List Char} {founds : List Found} (h : Scan isWord r before rest founds) :
    founds.Pairwise fun f g => f.whole.stop ≤ g.whole.start := by
  induction h with
  | done => exact .nil
  | found skipped _ _ _ hscan ih =>
    refine List.pairwise_cons.mpr ⟨fun g hg => ?_, ih⟩
    obtain ⟨skipped', piece', after, captured', -, -, -, rfl⟩ := hscan.first g hg
    rw [byteLength_append _ skipped']
    exact Nat.le_add_right _ _

/-- Of two found matches one ends before the other starts. -/
theorem Scan.apart_of_ne {before rest : List Char} {founds : List Found} (h : Scan isWord r before rest founds)
    {f g : Found} (hf : f ∈ founds) (hg : g ∈ founds) (hne : f ≠ g) :
    f.whole.stop ≤ g.whole.start ∨ g.whole.stop ≤ f.whole.start := by
  have : Std.Symm fun f g : Found => f.whole.stop ≤ g.whole.start ∨ g.whole.stop ≤ f.whole.start := ⟨fun _ _ h => h.symm⟩
  have hsymm : founds.Pairwise fun f g => f.whole.stop ≤ g.whole.start ∨ g.whole.stop ≤ f.whole.start := h.apart.imp Or.inl
  exact hsymm.forall hf hg hne

/-- Every place where the expression matches lies in a found match. -/
theorem Scan.complete {before rest : List Char} {founds : List Found} (h : Scan isWord r before rest founds)
    {left right : List Char} {t : Thread} (hrest : rest = left ++ right)
    (ht : firstThread isWord r (before ++ left) right = some t) :
    ∃ f ∈ founds, f.whole.Contains (byteLength (before ++ left)) := by
  induction h generalizing left right with
  | done hnone =>
    rw [hnone left right hrest] at ht
    cases ht
  | @found before skipped piece rest captured founds hskipped hne _ _ ih =>
    have hpos := byteLength_pos hne
    rcases List.append_eq_append_iff.mp hrest with ⟨more, rfl, hmore⟩ | ⟨more, rfl, rfl⟩
    · -- the place is not before the match
      rcases List.append_eq_append_iff.mp hmore with ⟨more', rfl, rfl⟩ | ⟨more', rfl, rfl⟩
      · -- nor in it
        obtain ⟨f, hf, hcontains⟩ := ih rfl (by simpa using ht)
        exact ⟨f, List.mem_cons_of_mem _ hf, by simpa using hcontains⟩
      · by_cases hmore' : more' = []
        · subst hmore'
          obtain ⟨f, hf, hcontains⟩ := ih (List.nil_append _).symm (by simpa using ht)
          exact ⟨f, List.mem_cons_of_mem _ hf, by simpa using hcontains⟩
        · have hpos' := byteLength_pos hmore'
          refine ⟨_, List.mem_cons_self .., ?_, ?_⟩
          · simp only [byteLength_append]; omega
          · simp only [byteLength_append]; omega
    · by_cases hmore : more = []
      · subst hmore
        refine ⟨_, List.mem_cons_self .., ?_, ?_⟩
        · simp
        · simp only [byteLength_append]; omega
      · rw [hskipped left more rfl hmore] at ht
        cases ht

/-- The piece a first match reads is over the alphabet. -/
theorem firstThread_alphabet {before piece after : List Char} {captured : Option (Span Nat)}
    (h : firstThread isWord r before (piece ++ after) = some ⟨.at (before ++ piece) after, captured⟩) :
    ∀ c ∈ piece, r.alphabet c = true := by
  obtain ⟨read, rest, hread, hcursor, -, halphabet⟩ := threads_read (List.mem_of_mem_head? h)
  have hoffset : byteLength (before ++ piece) = byteLength (before ++ read) := congrArg (·.offset) hcursor
  rw [byteLength_append, byteLength_append] at hoffset
  rw [eq_of_byteLength_eq hread (by omega)]
  exact halphabet

/-- A found match does not go over a character the expression cannot read. -/
theorem found_avoids (hlength : 0 < r.minLength) {text left right : List Char} {c : Char}
    (htext : text = left ++ c :: right) (hc : r.alphabet c = false) {f : Found} (hf : f ∈ findIter isWord r text) :
    f.whole.stop ≤ byteLength left ∨ byteLength (left ++ [c]) ≤ f.whole.start := by
  obtain ⟨place, piece, after, captured, htext', -, hfirst, rfl⟩ := (scan_findIter hlength text).first f hf
  rw [List.nil_append] at hfirst ⊢
  have htexts : place ++ (piece ++ after) = left ++ c :: right := htext'.symm.trans htext
  show byteLength (place ++ piece) ≤ byteLength left ∨ byteLength (left ++ [c]) ≤ byteLength place
  by_contra hover
  rw [not_or, not_le, not_le] at hover
  obtain ⟨hstop, hstart⟩ := hover
  have hle : byteLength place ≤ byteLength left := by
    by_contra hlt
    have := byteLength_concat_le htexts.symm (not_le.mp hlt)
    omega
  -- the character lies in the piece
  obtain ⟨skipped, rfl, hskipped⟩ := append_split htexts hle
  rcases List.append_eq_append_iff.mp hskipped with ⟨more, rfl, -⟩ | ⟨more, rfl, hmore⟩
  · simp only [byteLength_append] at hstop
    omega
  · cases more with
    | nil => simp at hstop
    | cons d more =>
      obtain ⟨rfl, -⟩ := List.cons.inj hmore
      have hyes := firstThread_alphabet hfirst c (by simp)
      rw [hc] at hyes
      cases hyes

/-- A piece that the expression takes, behind a character it cannot read, is found. -/
theorem found_of_takes (hlength : 0 < r.minLength) {text before piece after : List Char}
    (htext : text = before ++ (piece ++ after)) (htakes : Takes isWord r before piece after)
    (hbefore : ∀ c ∈ before.getLast?, r.alphabet c = false) :
    ⟨⟨byteLength before, byteLength (before ++ piece)⟩, none⟩ ∈ findIter isWord r text := by
  have hscan : Scan isWord r [] text (findIter isWord r text) := scan_findIter hlength text
  have hfirst : firstThread isWord r before (piece ++ after) = some ⟨.at (before ++ piece) after, none⟩ := htakes none
  obtain ⟨f, hf, hstart, hstop⟩ := hscan.complete htext hfirst
  have hsame : f.whole.start = byteLength before := by
    rcases List.eq_nil_or_concat before with rfl | ⟨left, c, rfl⟩
    · exact Nat.le_zero.mp hstart
    · rw [List.concat_eq_append] at htext hstart hstop hbefore ⊢
      rw [List.append_assoc] at htext
      rcases found_avoids hlength htext (hbefore c (by simp)) hf with h | h
      · have := c.utf8Size_pos
        rw [List.nil_append, byteLength_append, byteLength_cons] at hstop
        omega
      · exact le_antisymm hstart h
  obtain ⟨place, piece', after', captured, htext', -, hfirst', rfl⟩ := hscan.first f hf
  rw [List.nil_append] at hsame hfirst' hf
  have htexts : place ++ (piece' ++ after') = before ++ (piece ++ after) := htext'.symm.trans htext
  obtain rfl : place = before := eq_of_byteLength_eq htexts hsame
  rw [List.append_cancel_left htexts, hfirst] at hfirst'
  have hoffset : byteLength (place ++ piece) = byteLength (place ++ piece') :=
    congrArg (·.cursor.offset) (Option.some.inj hfirst')
  have hcaptured : none = captured := congrArg (·.captured) (Option.some.inj hfirst')
  rw [hoffset, hcaptured]
  exact hf

end Scan

end Regex
