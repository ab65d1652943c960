/-
Which fields of a JSON value are scanned. The walk of the scanner does not enter a value below which
the field lists leave nothing to scan; here it is compared with a walk that enters every value and
decides at each string alone.
-/
import DataPlane.Secrets.Scanner

namespace DataPlane.Secrets

open DataPlane.Json

/-! ## Eligible paths -/

namespace SecretsDetectionConfig

/-- A key path no denied path is a prefix of, and with an allowlist some allowed path is one. -/
def Eligible (config : SecretsDetectionConfig) (path : List String) : Prop :=
  (∀ denied ∈ config.fieldDenylist, ¬denied.segments <+: path) ∧
    (config.fieldAllowlist = [] ∨ ∃ allowed ∈ config.fieldAllowlist, allowed.segments <+: path)

instance (config : SecretsDetectionConfig) : DecidablePred config.Eligible := fun path =>
  inferInstanceAs (Decidable ((∀ denied ∈ config.fieldDenylist, ¬denied.segments <+: path) ∧
    (config.fieldAllowlist = [] ∨ ∃ allowed ∈ config.fieldAllowlist, allowed.segments <+: path)))

end SecretsDetectionConfig

theorem pathStartsWith_iff (path start : List String) : pathStartsWith path start = true ↔ start <+: path := by
  unfold pathStartsWith
  induction start generalizing path with
  | nil => simp
  | cons key start ih =>
    cases path with
    | nil => simp
    | cons key' path =>
      have h := ih path
      simp only [Bool.and_eq_true, decide_eq_true_eq] at h
      simp only [List.length_cons, Nat.add_le_add_iff_right, List.zip_cons_cons, List.all_cons, Bool.and_eq_true,
        decide_eq_true_eq, beq_iff_eq, List.cons_prefix_cons, ← h]
      constructor
      · rintro ⟨hlength, rfl, hall⟩; exact ⟨rfl, hlength, hall⟩
      · rintro ⟨rfl, hlength, hall⟩; exact ⟨hlength, rfl, hall⟩

section Paths

variable (config : SecretsDetectionConfig)

theorem pathIsDenied_iff (path : List String) :
    config.pathIsDenied path = true ↔ ∃ denied ∈ config.fieldDenylist, denied.segments <+: path := by
  simp [SecretsDetectionConfig.pathIsDenied, FieldPath.matchesPathOrDescendant, pathStartsWith_iff]

/-- Below the root a string is scanned where its path is eligible. -/
theorem shouldScanFieldPath_iff (path : List String) :
    config.shouldScanFieldPath path false = true ↔ config.Eligible path := by
  have hdenied := pathIsDenied_iff config path
  unfold SecretsDetectionConfig.shouldScanFieldPath SecretsDetectionConfig.Eligible
  rw [Bool.false_and, if_neg Bool.false_ne_true]
  split
  · rename_i h
    obtain ⟨denied, hmem, hstart⟩ := hdenied.mp h
    exact ⟨fun h => (Bool.false_ne_true h).elim, fun h => (h.1 denied hmem hstart).elim⟩
  · rename_i h
    have hfree : ∀ denied ∈ config.fieldDenylist, ¬denied.segments <+: path :=
      fun denied hmem hstart => h (hdenied.mpr ⟨denied, hmem, hstart⟩)
    simp only [Bool.or_eq_true, List.isEmpty_iff, List.any_eq_true, FieldPath.matchesPathOrDescendant,
      pathStartsWith_iff]
    exact ⟨fun h => ⟨hfree, h⟩, fun h => h.2⟩

/-- A path that is not entered has no eligible path below it: a denied prefix stays one, and two
prefixes of one path are prefixes of each other. -/
theorem not_eligible_of_not_traversed {path : List String} (h : config.shouldTraverseFieldPath path = false)
    (below : List String) : ¬config.Eligible (path ++ below) := by
  rintro ⟨hfree, hallowed⟩
  have hstart : path <+: path ++ below := List.prefix_append path below
  unfold SecretsDetectionConfig.shouldTraverseFieldPath at h
  split at h
  · cases h
  · split at h
    · rename_i hdenied
      obtain ⟨denied, hmem, hd⟩ := (pathIsDenied_iff config path).mp hdenied
      exact hfree denied hmem (hd.trans hstart)
    · simp only [Bool.or_eq_false_iff, List.isEmpty_eq_false_iff, List.any_eq_false, Bool.or_eq_true, not_or,
        FieldPath.matchesPathOrDescendant, FieldPath.canBeReachedFrom, pathStartsWith_iff] at h
      obtain ⟨hne, hnone⟩ := h
      obtain hempty | ⟨allowed, hmem, ha⟩ := hallowed
      · exact hne hempty
      · obtain hle | hle := List.prefix_or_prefix_of_prefix ha hstart
        · exact (hnone allowed hmem).1 hle
        · exact (hnone allowed hmem).2 hle

end Paths

/-! ## The walk without pruning -/

/-- The report of an array, from those of its items. -/
def itemsReport (reports : List ScanReport) : ScanReport :=
  ⟨(reports.map (·.count)).sum, .array (reports.map (·.redacted)), reports.flatMap (·.findings)⟩

/-- The report of an object, from those of its entries. -/
def entriesReport (reports : List (String × ScanReport)) : ScanReport :=
  ⟨(reports.map (·.2.count)).sum, .object (reports.map fun (key, report) => (key, report.redacted)),
    reports.flatMap (·.2.findings)⟩

section Reference

variable (patterns : Patterns) (config : SecretsDetectionConfig)

mutual

/-- Every string below the root is visited and scanned where its path is eligible. -/
def walk (path : List String) : Value → ScanReport
  | .string text => if config.Eligible path then scanDirectText patterns config text else cleanReport (.string text)
  | .array items => itemsReport (walkItems path items)
  | .object entries => entriesReport (walkEntries path entries)
  | value => cleanReport value

def walkItems (path : List String) : List Value → List ScanReport
  | [] => []
  | item :: items => walk path item :: walkItems path items

def walkEntries (path : List String) : List (String × Value) → List (String × ScanReport)
  | [] => []
  | (key, value) :: entries => (key, walk (path ++ [key]) value) :: walkEntries path entries

end

/-- What `scan_json_value` is to report: a string that is the whole value is always scanned. -/
def referenceScan : Value → ScanReport
  | .string text => scanDirectText patterns config text
  | value => walk patterns config [] value

mutual

/-- A value and its redaction have the same keys, array lengths, scalars other than strings and
strings that are not eligible. -/
inductive Redacts : List String → Value → Value → Prop
  | null (path) : Redacts path .null .null
  | bool (path b) : Redacts path (.bool b) (.bool b)
  | number (path n) : Redacts path (.number n) (.number n)
  | kept {path} (text) (h : ¬config.Eligible path) : Redacts path (.string text) (.string text)
  | scanned {path} (text) (h : config.Eligible path) :
      Redacts path (.string text) (.string (detectAndRedact patterns config text).2)
  | array {path items items'} (h : RedactsItems path items items') : Redacts path (.array items) (.array items')
  | object {path entries entries'} (h : RedactsEntries path entries entries') :
      Redacts path (.object entries) (.object entries')

inductive RedactsItems : List String → List Value → List Value → Prop
  | nil (path) : RedactsItems path [] []
  | cons {path item item' items items'} (h : Redacts path item item') (hs : RedactsItems path items items') :
      RedactsItems path (item :: items) (item' :: items')

inductive RedactsEntries : List String → List (String × Value) → List (String × Value) → Prop
  | nil (path) : RedactsEntries path [] []
  | cons {path key value value' entries entries'} (h : Redacts (path ++ [key]) value value')
      (hs : RedactsEntries path entries entries') : RedactsEntries path ((key, value) :: entries) ((key, value') :: entries')

end

/-- A whole value and its redaction. -/
def RootRedacts : Value → Value → Prop
  | .string text, redacted => redacted = .string (detectAndRedact patterns config text).2
  | value, redacted => Redacts patterns config [] value redacted

end Reference

section Walk

variable (patterns : Patterns) (config : SecretsDetectionConfig)

theorem itemsReport_clean (items : List Value) : itemsReport (items.map cleanReport) = cleanReport (.array items) := by
  simp [itemsReport, cleanReport, Function.comp_def]

theorem entriesReport_clean (entries : List (String × Value)) :
    entriesReport (entries.map fun entry => (entry.1, cleanReport entry.2)) = cleanReport (.object entries) := by
  simp only [entriesReport, cleanReport, List.map_map, List.flatMap_map, Function.comp_def]
  simp

-- what the scanner does not enter, the walk enters in vain
mutual

theorem walk_clean (path : List String) (h : ∀ below, ¬config.Eligible (path ++ below)) :
    ∀ value : Value, walk patterns config path value = cleanReport value
  | .string text => by
    have hpath := h []
    rw [List.append_nil] at hpath
    rw [walk, if_neg hpath]
  | .array items => by rw [walk, walkItems_clean path h items, itemsReport_clean]
  | .object entries => by rw [walk, walkEntries_clean path h entries, entriesReport_clean]
  | .null => by rw [walk] <;> simp
  | .bool _ => by rw [walk] <;> simp
  | .number _ => by rw [walk] <;> simp

theorem walkItems_clean (path : List String) (h : ∀ below, ¬config.Eligible (path ++ below)) :
    ∀ items : List Value, walkItems patterns config path items = items.map cleanReport
  | [] => rfl
  | item :: items => by rw [walkItems, walk_clean path h item, walkItems_clean path h items, List.map_cons]

theorem walkEntries_clean (path : List String) (h : ∀ below, ¬config.Eligible (path ++ below)) :
    ∀ entries : List (String × Value),
      walkEntries patterns config path entries = entries.map fun entry => (entry.1, cleanReport entry.2)
  | [] => rfl
  | (key, value) :: entries => by
    have hkey : ∀ below, ¬config.Eligible (path ++ [key] ++ below) := by
      intro below
      rw [List.append_assoc]
      exact h ([key] ++ below)
    rw [walkEntries, walk_clean (path ++ [key]) hkey value, walkEntries_clean path h entries, List.map_cons]

end

mutual

theorem scanJsonValueInner_eq_walk (path : List String) :
    ∀ value : Value, scanJsonValueInner patterns config path false value = walk patterns config path value
  | .string text => by
    unfold scanJsonValueInner walk
    simp only [shouldScanFieldPath_iff]
  | .array items => by
    unfold scanJsonValueInner
    split
    · rw [scanItems_eq_walk path items, walk, itemsReport]
    · rename_i h
      exact (walk_clean patterns config path
        (not_eligible_of_not_traversed config (Bool.eq_false_of_not_eq_true h)) (.array items)).symm
  | .object entries => by
    unfold scanJsonValueInner
    split
    · rw [scanEntries_eq_walk path entries, walk, entriesReport]
    · rename_i h
      exact (walk_clean patterns config path
        (not_eligible_of_not_traversed config (Bool.eq_false_of_not_eq_true h)) (.object entries)).symm
  | .null => by rw [scanJsonValueInner, walk] <;> simp
  | .bool _ => by rw [scanJsonValueInner, walk] <;> simp
  | .number _ => by rw [scanJsonValueInner, walk] <;> simp

theorem scanItems_eq_walk (path : List String) :
    ∀ items : List Value, scanItems patterns config path items = walkItems patterns config path items
  | [] => rfl
  | item :: items => by rw [scanItems, walkItems, scanJsonValueInner_eq_walk path item, scanItems_eq_walk path items]

theorem scanEntries_eq_walk (path : List String) :
    ∀ entries : List (String × Value), scanEntries patterns config path entries = walkEntries patterns config path entries
  | [] => rfl
  | (key, value) :: entries => by
    rw [scanEntries, walkEntries, scanJsonValueInner_eq_walk (path ++ [key]) value, scanEntries_eq_walk path entries]

end

/-- Pruning changes nothing in the report. -/
theorem scanJsonValue_eq (value : Value) : scanJsonValue patterns config value = referenceScan patterns config value := by
  have h := scanJsonValueInner_eq_walk patterns config [] value
  cases value with
  | string text => rw [scanJsonValue, scanJsonValueInner, SecretsDetectionConfig.shouldScanFieldPath]; rfl
  | _ => exact h

/-! ## What a report keeps -/

mutual

theorem count_walk (path : List String) :
    ∀ value : Value, (walk patterns config path value).count = (walk patterns config path value).findings.length
  | .string text => by
    unfold walk
    split
    · rfl
    · rfl
  | .array items => by
    rw [walk, itemsReport, List.length_flatMap]
    exact congrArg List.sum (count_walkItems path items)
  | .object entries => by
    rw [walk, entriesReport, List.length_flatMap]
    exact congrArg List.sum (count_walkEntries path entries)
  | .null => by rw [walk] <;> simp [cleanReport]
  | .bool _ => by rw [walk] <;> simp [cleanReport]
  | .number _ => by rw [walk] <;> simp [cleanReport]

theorem count_walkItems (path : List String) : ∀ items : List Value,
    (walkItems patterns config path items).map (·.count) =
      (walkItems patterns config path items).map (·.findings.length)
  | [] => rfl
  | item :: items => by
    rw [walkItems, List.map_cons, List.map_cons, count_walk path item, count_walkItems path items]

theorem count_walkEntries (path : List String) : ∀ entries : List (String × Value),
    (walkEntries patterns config path entries).map (·.2.count) =
      (walkEntries patterns config path entries).map (·.2.findings.length)
  | [] => rfl
  | (key, value) :: entries => by
    rw [walkEntries, List.map_cons, List.map_cons, count_walk (path ++ [key]) value, count_walkEntries path entries]

end

mutual

theorem redacts_walk (path : List String) :
    ∀ value : Value, Redacts patterns config path value (walk patterns config path value).redacted
  | .string text => by
    unfold walk
    split
    · rename_i h; exact .scanned text h
    · rename_i h; exact .kept text h
  | .array items => by
    rw [walk]
    exact .array (redacts_walkItems path items)
  | .object entries => by
    rw [walk]
    exact .object (redacts_walkEntries path entries)
  | .null => by rw [walk]; exacts [.null path, by simp, by simp, by simp]
  | .bool b => by rw [walk]; exacts [.bool path b, by simp, by simp, by simp]
  | .number n => by rw [walk]; exacts [.number path n, by simp, by simp, by simp]

theorem redacts_walkItems (path : List String) : ∀ items : List Value,
    RedactsItems patterns config path items ((walkItems patterns config path items).map (·.redacted))
  | [] => .nil path
  | item :: items => by
    rw [walkItems, List.map_cons]
    exact .cons (redacts_walk path item) (redacts_walkItems path items)

theorem redacts_walkEntries (path : List String) : ∀ entries : List (String × Value),
    RedactsEntries patterns config path entries
      ((walkEntries patterns config path entries).map fun (key, report) => (key, report.redacted))
  | [] => .nil path
  | (key, value) :: entries => by
    rw [walkEntries, List.map_cons]
    exact .cons (redacts_walk (path ++ [key]) value) (redacts_walkEntries path entries)

end

theorem rootRedacts_referenceScan (value : Value) :
    RootRedacts patterns config value (referenceScan patterns config value).redacted := by
  have h := redacts_walk patterns config [] value
  cases value with
  | string text => rfl
  | _ => exact h

theorem count_referenceScan (value : Value) :
    (referenceScan patterns config value).count = (referenceScan patterns config value).findings.length := by
  have h := count_walk patterns config [] value
  cases value with
  | string text => rfl
  | _ => exact h

theorem count_scanJsonValue (value : Value) :
    (scanJsonValue patterns config value).count = (scanJsonValue patterns config value).findings.length := by
  rw [scanJsonValue_eq, count_referenceScan]

/-- The scanner reports what the walk over every string reports: no value with an eligible string in
it is left out, all but the scanned strings stay as they are, arguments stay an object and a text a
string, and the count is that of the findings. -/
theorem scanJsonValue_refines (value : Value) :
    scanJsonValue patterns config value = referenceScan patterns config value ∧
      (∀ path, config.shouldTraverseFieldPath path = false → ∀ below, ¬config.Eligible (path ++ below)) ∧
        RootRedacts patterns config value (scanJsonValue patterns config value).redacted ∧
          (∀ arguments, value = .object arguments → ∃ arguments',
            (scanJsonValue patterns config value).redacted = .object arguments') ∧
            (∀ text, ∃ text', (scanDirectText patterns config text).redacted = .string text') ∧
              (scanJsonValue patterns config value).count = (scanJsonValue patterns config value).findings.length := by
  have hshape := rootRedacts_referenceScan patterns config value
  rw [← scanJsonValue_eq] at hshape
  refine ⟨scanJsonValue_eq patterns config value, fun path h => not_eligible_of_not_traversed config h, hshape, ?_,
    fun text => ⟨_, rfl⟩, count_scanJsonValue patterns config value⟩
  rintro arguments rfl
  have hobject : Redacts patterns config [] (.object arguments)
      (scanJsonValue patterns config (.object arguments)).redacted := hshape
  generalize (scanJsonValue patterns config (.object arguments)).redacted = redacted at hobject ⊢
  cases hobject with
  | object => exact ⟨_, rfl⟩

end Walk

end DataPlane.Secrets
