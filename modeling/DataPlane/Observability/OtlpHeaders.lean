/-
The `--otlp-headers` text: comma-separated `key=value` entries. The parser fails at the first entry that is neither
blank nor an assignment to a key, and otherwise keeps the last value of every key. What it returns are exactly the
maps of trimmed keys and values without the separators, and each of them, written out in any order, is read back.
-/
import DataPlane.Gateway.Routing
import DataPlane.Headers.Integer
import DataPlane.Lib.Trim
import DataPlane.Secrets.Patterns

namespace DataPlane.Observability

open DataPlane.Lib
open DataPlane.Headers (splitOnce splitOnce_eq_some splitOnce_eq_none)
open DataPlane.Gateway (HashMap)
open DataPlane.Secrets (isSpace)

/-! ## The parser -/

/-- The error of an entry, for its `{:?}`. -/
def missingSeparator (entry : String) : String := s!"malformed OTLP header entry (missing '=' separator): {entry}"

def emptyKey (entry : String) : String := s!"malformed OTLP header entry (empty key): {entry}"

/-- The loop body of `parse_otlp_headers`; `debug` is the `{:?}` of a text. -/
def parseEntry (debug : String → String) (out : HashMap String String) (entry : List Char) :
    Except String (HashMap String String) :=
  let entry := trim isSpace entry
  if entry.isEmpty then .ok out
  else match splitOnce (· == '=') entry with
    | none => .error (missingSeparator (debug (String.ofList entry)))
    | some (key, value) =>
      if (trim isSpace key).isEmpty then .error (emptyKey (debug (String.ofList entry)))
      else .ok (out.insert (String.ofList (trim isSpace key)) (String.ofList (trim isSpace value)))

/-- `parse_otlp_headers`. -/
def parseOtlpHeaders (debug : String → String) : Option String → Except String (HashMap String String)
  | none => .ok ∅
  | some raw => (raw.toList.splitOn ',').foldlM (parseEntry debug) ∅

/-! ## Entries -/

def Blank (text : List Char) : Prop := text.all isSpace = true

/-- The text assigns the value to the key, with any white space around both. -/
def Assigns (text : List Char) (key value : String) : Prop :=
  ∃ before after, text = before ++ '=' :: after ∧ '=' ∉ before ∧ ¬ Blank before ∧
    key = String.ofList (trim isSpace before) ∧ value = String.ofList (trim isSpace after)

/-- The text holds more than white space, but no key in front of a separator. -/
def Malformed (debug : String → String) (text : List Char) (message : String) : Prop :=
  (¬ Blank text ∧ '=' ∉ text ∧ message = missingSeparator (debug (String.ofList (trim isSpace text)))) ∨
  ∃ before after, text = before ++ '=' :: after ∧ Blank before ∧
    message = emptyKey (debug (String.ofList (trim isSpace text)))

section Entries

variable {debug : String → String} {out : HashMap String String} {text before after : List Char} {key value : String}
  {message : String}

theorem trim_assignment (before after : List Char) : trim isSpace (before ++ '=' :: after) =
    before.dropWhile isSpace ++ '=' :: after.rdropWhile isSpace :=
  trim_append_cons before after (by decide)

theorem splitOnce_assignment (h : '=' ∉ before) : splitOnce (· == '=') (trim isSpace (before ++ '=' :: after)) =
    some (before.dropWhile isSpace, after.rdropWhile isSpace) := by
  refine splitOnce_eq_some.mpr ⟨'=', trim_assignment .., rfl, fun c hc => ?_⟩
  have hmem : c ∈ before := (List.dropWhile_suffix isSpace).subset hc
  rw [beq_eq_false_iff_ne]
  rintro rfl
  exact h hmem

theorem parseEntry_blank (h : Blank text) : parseEntry debug out text = .ok out := by
  simp [parseEntry, trim_of_all h]

theorem not_blank_assignment : ¬ Blank (before ++ '=' :: after) := by
  simp only [Blank, List.all_append, List.all_cons, Bool.and_eq_true]
  rintro ⟨-, h, -⟩
  exact absurd h (by decide)

/-- What the loop does with an assignment, whether or not its key is blank. -/
theorem parseEntry_assignment (h : '=' ∉ before) : parseEntry debug out (before ++ '=' :: after) =
    if (trim isSpace before).isEmpty then
      .error (emptyKey (debug (String.ofList (trim isSpace (before ++ '=' :: after)))))
    else .ok (out.insert (String.ofList (trim isSpace before)) (String.ofList (trim isSpace after))) := by
  have hne : (trim isSpace (before ++ '=' :: after)).isEmpty = false := by
    rw [trim_assignment]
    simp
  simp only [parseEntry, hne, Bool.false_eq_true, if_false, splitOnce_assignment h, trim_dropWhile, trim_rdropWhile]

theorem parseEntry_assigns (h : Assigns text key value) : parseEntry debug out text = .ok (out.insert key value) := by
  obtain ⟨before, after, rfl, hbefore, hblank, rfl, rfl⟩ := h
  rw [parseEntry_assignment hbefore, if_neg]
  rw [List.isEmpty_iff, trim_eq_nil_iff]
  exact hblank

theorem parseEntry_malformed (h : Malformed debug text message) : parseEntry debug out text = .error message := by
  rcases h with ⟨hblank, hsep, rfl⟩ | ⟨before, after, rfl, hblank, rfl⟩
  · have hne : (trim isSpace text).isEmpty = false := by
      rw [Bool.eq_false_iff, Ne, List.isEmpty_iff, trim_eq_nil_iff]
      exact hblank
    have hnone : splitOnce (· == '=') (trim isSpace text) = none := by
      refine splitOnce_eq_none.mpr fun c hc => ?_
      rw [beq_eq_false_iff_ne]
      rintro rfl
      exact hsep ((trim_sublist text).subset hc)
    simp only [parseEntry, hne, Bool.false_eq_true, if_false, hnone]
  · have hsep : '=' ∉ before := by
      intro hmem
      exact absurd (List.all_eq_true.mp hblank _ hmem) (by decide)
    rw [parseEntry_assignment hsep, trim_of_all hblank]
    rfl

/-- Every entry is blank, an assignment or malformed. -/
theorem entry_cases (debug : String → String) (text : List Char) :
    Blank text ∨ (∃ key value, Assigns text key value) ∨ ∃ message, Malformed debug text message := by
  by_cases hblank : Blank text
  · exact .inl hblank
  by_cases hsep : '=' ∈ text
  · obtain ⟨before, after, rfl, hbefore⟩ := List.eq_append_cons_of_mem hsep
    by_cases hkey : Blank before
    · exact .inr (.inr ⟨_, .inr ⟨before, after, rfl, hkey, rfl⟩⟩)
    · exact .inr (.inl ⟨_, _, before, after, rfl, hbefore, hkey, rfl, rfl⟩)
  · exact .inr (.inr ⟨_, .inl ⟨hblank, hsep, rfl⟩⟩)

theorem malformed_iff : Malformed debug text message ↔ parseEntry debug out text = .error message := by
  refine ⟨parseEntry_malformed, fun h => ?_⟩
  rcases entry_cases debug text with hblank | ⟨key, value, hassigns⟩ | ⟨message', hmalformed⟩
  · rw [parseEntry_blank hblank] at h
    cases h
  · rw [parseEntry_assigns hassigns] at h
    cases h
  · rw [parseEntry_malformed hmalformed] at h
    cases h
    exact hmalformed

/-- An entry assigns one value to one key. -/
theorem assigns_unique {key' value' : String} (h : Assigns text key value) (h' : Assigns text key' value') :
    key = key' ∧ value = value' := by
  have hparse : parseEntry id ∅ text = .ok ((∅ : HashMap String String).insert key value) := parseEntry_assigns h
  have heq : (∅ : HashMap String String).insert key value = (∅ : HashMap String String).insert key' value' := by
    rw [parseEntry_assigns h'] at hparse
    cases hparse
    rfl
  have hlookup : ((∅ : HashMap String String).insert key' value').lookup key = some value := by
    rw [← heq, AList.lookup_insert]
  by_cases hkey : key = key'
  · subst hkey
    rw [AList.lookup_insert] at hlookup
    exact ⟨rfl, (Option.some.inj hlookup).symm⟩
  · rw [AList.lookup_insert_ne hkey] at hlookup
    cases hlookup

theorem not_assigns_of_blank (h : Blank text) : ¬ Assigns text key value := by
  rintro ⟨before, after, rfl, -⟩
  exact not_blank_assignment h

end Entries

/-! ## The loop -/

/-- The entries that pass. -/
def Accepted (text : List Char) : Prop := Blank text ∨ ∃ key value, Assigns text key value

/-- The last entry that assigns to the key assigns this value. -/
def LastAssigns (entries : List (List Char)) (key value : String) : Prop :=
  ∃ before text after, entries = before ++ text :: after ∧ Assigns text key value ∧ ∀ e ∈ after, ∀ v, ¬ Assigns e key v

section Loop

variable {debug : String → String} {out headers : HashMap String String} {entries : List (List Char)}
  {key value : String}

theorem lastAssigns_cons {entry : List Char} : LastAssigns (entry :: entries) key value ↔
    LastAssigns entries key value ∨ (Assigns entry key value ∧ ∀ e ∈ entries, ∀ v, ¬ Assigns e key v) := by
  constructor
  · rintro ⟨_ | ⟨first, before⟩, text, after, hentries, hassigns, hlast⟩
    · obtain ⟨rfl, rfl⟩ := List.cons.inj hentries
      exact .inr ⟨hassigns, hlast⟩
    · obtain ⟨rfl, rfl⟩ := List.cons.inj hentries
      exact .inl ⟨before, text, after, rfl, hassigns, hlast⟩
  · rintro (⟨before, text, after, rfl, hassigns, hlast⟩ | ⟨hassigns, hlast⟩)
    · exact ⟨entry :: before, text, after, rfl, hassigns, hlast⟩
    · exact ⟨[], entry, entries, rfl, hassigns, hlast⟩

/-- The loop stops at the first malformed entry, whatever was read before. -/
theorem foldlM_error {message : String} : ∀ {entries : List (List Char)} {out : HashMap String String},
    entries.foldlM (parseEntry debug) out = .error message ↔
      ∃ before text after, entries = before ++ text :: after ∧ (∀ e ∈ before, Accepted e) ∧ Malformed debug text message
  | [], out => by
    rw [List.foldlM_nil]
    simp [pure, Except.pure]
  | entry :: entries, out => by
    rw [List.foldlM_cons]
    constructor
    · intro h
      rcases entry_cases debug entry with hblank | ⟨key, value, hassigns⟩ | ⟨message', hmalformed⟩
      · rw [parseEntry_blank hblank] at h
        obtain ⟨before, text, after, rfl, hbefore, htext⟩ := foldlM_error.mp h
        exact ⟨entry :: before, text, after, rfl, List.forall_mem_cons.mpr ⟨.inl hblank, hbefore⟩, htext⟩
      · rw [parseEntry_assigns hassigns] at h
        obtain ⟨before, text, after, rfl, hbefore, htext⟩ := foldlM_error.mp h
        exact ⟨entry :: before, text, after, rfl, List.forall_mem_cons.mpr ⟨.inr ⟨_, _, hassigns⟩, hbefore⟩, htext⟩
      · rw [parseEntry_malformed hmalformed] at h
        cases h
        exact ⟨[], entry, entries, rfl, by simp, hmalformed⟩
    · rintro ⟨_ | ⟨first, before⟩, text, after, hentries, hbefore, htext⟩
      · obtain ⟨rfl, rfl⟩ := List.cons.inj hentries
        rw [parseEntry_malformed htext]
        rfl
      · obtain ⟨rfl, rfl⟩ := List.cons.inj hentries
        obtain ⟨haccepted, hbefore⟩ := List.forall_mem_cons.mp hbefore
        rcases haccepted with hblank | ⟨key, value, hassigns⟩
        · rw [parseEntry_blank hblank]
          exact foldlM_error.mpr ⟨before, text, after, rfl, hbefore, htext⟩
        · rw [parseEntry_assigns hassigns]
          exact foldlM_error.mpr ⟨before, text, after, rfl, hbefore, htext⟩

/-- A key has the value of the last entry that assigns to it, or the value it had. -/
theorem foldlM_lookup : ∀ {entries : List (List Char)} {out : HashMap String String},
    entries.foldlM (parseEntry debug) out = .ok headers →
      (headers.lookup key = some value ↔
        LastAssigns entries key value ∨ (out.lookup key = some value ∧ ∀ e ∈ entries, ∀ v, ¬ Assigns e key v))
  | [], out, h => by
    cases h
    simp [LastAssigns]
  | entry :: entries, out, h => by
    rw [List.foldlM_cons] at h
    rw [lastAssigns_cons, List.forall_mem_cons]
    rcases entry_cases debug entry with hblank | ⟨key', value', hassigns⟩ | ⟨message', hmalformed⟩
    · rw [parseEntry_blank hblank] at h
      rw [foldlM_lookup h]
      have hnot : ∀ v, ¬ Assigns entry key v := fun v => not_assigns_of_blank hblank
      simp [hnot]
    · rw [parseEntry_assigns hassigns] at h
      rw [foldlM_lookup h]
      by_cases hkey : key = key'
      · -- this entry decides unless a later one assigns to the key again
        subst hkey
        have hvalue : Assigns entry key value ↔ value' = value :=
          ⟨fun h => (assigns_unique hassigns h).2, fun h => h ▸ hassigns⟩
        rw [AList.lookup_insert, Option.some.injEq, hvalue]
        have hno : ¬ ∀ v, ¬ Assigns entry key v := fun h => h _ hassigns
        simp [hno]
      · have hnot : ∀ v, ¬ Assigns entry key v := fun v h => hkey (assigns_unique h hassigns).1
        rw [AList.lookup_insert_ne hkey]
        simp [hnot]
    · rw [parseEntry_malformed hmalformed] at h
      cases h

/-- Entries that all pass are read. -/
theorem foldlM_accepted (h : ∀ e ∈ entries, Accepted e) (out : HashMap String String) :
    ∃ headers, entries.foldlM (parseEntry debug) out = .ok headers := by
  cases hparse : entries.foldlM (parseEntry debug) out with
  | ok headers => exact ⟨headers, rfl⟩
  | error message =>
    obtain ⟨before, text, after, rfl, -, htext⟩ := foldlM_error.mp hparse
    have hmalformed : parseEntry debug ∅ text = .error message := malformed_iff.mp htext
    rcases h text (by simp) with hblank | ⟨key, value, hassigns⟩
    · rw [parseEntry_blank hblank] at hmalformed
      cases hmalformed
    · rw [parseEntry_assigns hassigns] at hmalformed
      cases hmalformed

end Loop

theorem parseOtlpHeaders_lookup {debug : String → String} {raw : String} {headers : HashMap String String}
    (h : parseOtlpHeaders debug (some raw) = .ok headers) {key value : String} :
    headers.lookup key = some value ↔ LastAssigns (raw.toList.splitOn ',') key value := by
  have hlookup : headers.lookup key = some value ↔ _ := foldlM_lookup h
  simpa using hlookup

/-- Of every text: the parser fails exactly when an entry is malformed, with the error of the first one; otherwise a key
has the value of the last entry that assigns to it, and no other keys are there. -/
theorem parseOtlpHeaders_exact (debug : String → String) (raw : String) :
    (∀ message, parseOtlpHeaders debug (some raw) = .error message ↔
      ∃ before text after, raw.toList.splitOn ',' = before ++ text :: after ∧ (∀ e ∈ before, Accepted e) ∧
        Malformed debug text message) ∧
    ∀ headers, parseOtlpHeaders debug (some raw) = .ok headers → ∀ key value,
      (headers.lookup key = some value ↔ LastAssigns (raw.toList.splitOn ',') key value) :=
  ⟨fun _ => foldlM_error, fun _ h _ _ => parseOtlpHeaders_lookup h⟩

/-! ## Round trip -/

/-- A key as it stands in front of the separator, and a value behind it. -/
structure WellFormed (key value : String) : Prop where
  key_ne : key.toList ≠ []
  key_trim : trim isSpace key.toList = key.toList
  key_comma : ',' ∉ key.toList
  key_separator : '=' ∉ key.toList
  value_trim : trim isSpace value.toList = value.toList
  value_comma : ',' ∉ value.toList

def assignment (key value : String) : List Char := key.toList ++ '=' :: value.toList

/-- Entries as they would be written on the command line. -/
def render (entries : List (Sigma fun _ : String => String)) : String :=
  String.ofList ([','].intercalate (entries.map fun entry => assignment entry.1 entry.2))

section RoundTrip

variable {debug : String → String} {headers : HashMap String String} {key value : String}

/-- What is assigned in a text without commas is well formed. -/
theorem Assigns.wellFormed {text : List Char} (h : Assigns text key value) (hcomma : ',' ∉ text) :
    WellFormed key value := by
  obtain ⟨before, after, rfl, hbefore, hblank, rfl, rfl⟩ := h
  have hkey : (trim isSpace before).Sublist before := trim_sublist before
  have hvalue : (trim isSpace after).Sublist after := trim_sublist after
  simp only [List.mem_append, List.mem_cons, not_or] at hcomma
  refine ⟨?_, ?_, ?_, ?_, ?_, ?_⟩
  · rw [String.toList_ofList, Ne, trim_eq_nil_iff]
    exact hblank
  · rw [String.toList_ofList, trim_trim]
  · rw [String.toList_ofList]
    exact fun hmem => hcomma.1 (hkey.subset hmem)
  · rw [String.toList_ofList]
    exact fun hmem => hbefore (hkey.subset hmem)
  · rw [String.toList_ofList, trim_trim]
  · rw [String.toList_ofList]
    exact fun hmem => hcomma.2.2 (hvalue.subset hmem)

theorem WellFormed.assigns (h : WellFormed key value) : Assigns (assignment key value) key value := by
  refine ⟨key.toList, value.toList, rfl, h.key_separator, ?_, ?_, ?_⟩
  · rw [Blank, ← trim_eq_nil_iff, h.key_trim]
    exact h.key_ne
  · rw [h.key_trim, String.ofList_toList]
  · rw [h.value_trim, String.ofList_toList]

theorem WellFormed.comma (h : WellFormed key value) : ',' ∉ assignment key value := by
  simp [assignment, h.key_comma, h.value_comma]

/-- Well-formed entries for different keys, written out, assign each key its value and nothing else. -/
theorem lastAssigns_rendered {entries : List (Sigma fun _ : String => String)} (hnodup : entries.NodupKeys)
    (h : ∀ entry ∈ entries, WellFormed entry.1 entry.2) :
    LastAssigns (entries.map fun entry => assignment entry.1 entry.2) key value ↔ ⟨key, value⟩ ∈ entries := by
  constructor
  · rintro ⟨before, text, after, hmap, hassigns, -⟩
    obtain ⟨entry, hentry, rfl⟩ := List.mem_map.mp (hmap ▸ List.mem_append_right before (List.mem_cons_self ..))
    obtain ⟨rfl, rfl⟩ := assigns_unique (h entry hentry).assigns hassigns
    exact hentry
  · intro hmem
    obtain ⟨before, after, rfl⟩ := List.append_of_mem hmem
    refine ⟨_, _, _, List.map_append .., (h _ hmem).assigns, fun text htext v hassigns => ?_⟩
    obtain ⟨entry, hentry, rfl⟩ := List.mem_map.mp htext
    have hin : entry ∈ before ++ ⟨key, value⟩ :: after := List.mem_append_right _ (List.mem_cons_of_mem _ hentry)
    have hkey := (assigns_unique (h entry hin).assigns hassigns).1
    have hpairwise := (List.pairwise_append.mp (List.nodupKeys_iff_pairwise.mp hnodup)).2.1
    exact (List.pairwise_cons.mp hpairwise).1 entry hentry hkey.symm

theorem splitOn_render {entries : List (Sigma fun _ : String => String)} (hne : entries ≠ [])
    (h : ∀ entry ∈ entries, WellFormed entry.1 entry.2) :
    (render entries).toList.splitOn ',' = entries.map fun entry => assignment entry.1 entry.2 := by
  rw [render, String.toList_ofList, List.splitOn_intercalate]
  · intro text htext
    obtain ⟨entry, hentry, rfl⟩ := List.mem_map.mp htext
    exact (h entry hentry).comma
  · simpa using hne

theorem parseOtlpHeaders_rendered {entries : List (Sigma fun _ : String => String)} (hnodup : entries.NodupKeys)
    (h : ∀ entry ∈ entries, WellFormed entry.1 entry.2) :
    ∃ parsed, parseOtlpHeaders debug (some (render entries)) = .ok parsed ∧
      ∀ key value, parsed.lookup key = some value ↔ ⟨key, value⟩ ∈ entries := by
  by_cases hne : entries = []
  · -- the empty text is one blank entry
    subst hne
    refine ⟨∅, rfl, fun key value => ?_⟩
    simp
  · have haccepted : ∀ e ∈ (render entries).toList.splitOn ',', Accepted e := by
      intro e he
      rw [splitOn_render hne h] at he
      obtain ⟨entry, hentry, rfl⟩ := List.mem_map.mp he
      exact .inr ⟨_, _, (h entry hentry).assigns⟩
    obtain ⟨parsed, hparsed⟩ := foldlM_accepted haccepted ∅
    refine ⟨parsed, hparsed, fun key value => ?_⟩
    rw [(parseOtlpHeaders_lookup hparsed), splitOn_render hne h, lastAssigns_rendered hnodup h]

end RoundTrip

/-- The maps that some text is read as are those with well-formed keys and values, and each of them is read back from
its entries in any order. -/
theorem parseOtlpHeaders_render (debug : String → String) (headers : HashMap String String) :
    ((∃ raw, parseOtlpHeaders debug raw = .ok headers) →
      ∀ key value, headers.lookup key = some value → WellFormed key value) ∧
    ((∀ key value, headers.lookup key = some value → WellFormed key value) → ∀ entries, entries.Perm headers.entries →
      ∃ parsed, parseOtlpHeaders debug (some (render entries)) = .ok parsed ∧
        ∀ key, parsed.lookup key = headers.lookup key) := by
  constructor
  · rintro ⟨_ | raw, h⟩ key value hlookup
    · cases h
      cases hlookup
    · obtain ⟨before, text, after, hsplit, hassigns, -⟩ := (parseOtlpHeaders_lookup h).mp hlookup
      refine hassigns.wellFormed (notMem_of_mem_splitOn (l := raw.toList) ?_)
      rw [hsplit]
      exact List.mem_append_right _ (List.mem_cons_self ..)
  · intro hwf entries hperm
    have hmem : ∀ key value,
        (⟨key, value⟩ : Sigma fun _ : String => String) ∈ entries ↔ headers.lookup key = some value :=
      fun key value => hperm.mem_iff.trans AList.mem_lookup_iff.symm
    have hnodup : entries.NodupKeys := (List.perm_nodupKeys hperm).mpr headers.nodupKeys
    obtain ⟨parsed, hparsed, hlookup⟩ := parseOtlpHeaders_rendered hnodup fun entry hentry =>
      hwf entry.1 entry.2 ((hmem _ _).mp hentry)
    refine ⟨parsed, hparsed, fun key => Option.ext fun value => ?_⟩
    exact (hlookup key value).trans (hmem key value)

end DataPlane.Observability
