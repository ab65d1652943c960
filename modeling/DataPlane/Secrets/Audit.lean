/-
What the secrets plugin tells about a payload: the violation of a denial and the metrics. Both are made from the kinds
of the findings alone, and every text in them is a fixed word, so nothing of the payload gets out with them. The list
of kinds is the sorted set of those found; it is cut to 32, and there are only eleven.
-/
import DataPlane.Secrets.Config
import Mathlib

namespace DataPlane.Secrets

open DataPlane.Json DataPlane.Cpex

/-! ## What may be told -/

/-- The outcome, as the result shows it. -/
def PluginResult.outcome (result : PluginResult) : DetectionOutcome :=
  if result.denied then .blocked else if result.modifiedPayload.isSome then .masked else .none

/-- The violation for the kinds of the findings. -/
def reportedViolation (stage : Stage) (kinds : List PatternName) : PluginViolation where
  code := "SECRETS_DETECTED"
  reason := "Secrets detected"
  description := stage.blockDescription
  details := [("count", countValue kinds.length),
    ("examples", .array (kinds.map fun kind => .object [("type", .string kind.text)]))]

/-- The metrics for the kinds of the findings: their number, wholly masked, wholly blocked or neither, and the sorted
set of them. -/
def reportedMetrics (kinds : List PatternName) (outcome : DetectionOutcome) : Value :=
  let totals : Nat × Nat := match outcome with
    | .masked => (kinds.length, 0)
    | .blocked => (0, kinds.length)
    | .none => (0, 0)
  .object [("secrets_detection", .object
    [("total_detections", countValue kinds.length), ("total_masked", countValue totals.1),
      ("total_blocked", countValue totals.2),
      ("secret_types", .array (((kinds.map PatternName.text).toFinset.sort (· ≤ ·)).map .string))])]

/-- The request has a trace id that is not empty. -/
def Extensions.traced (extensions : Extensions) : Bool :=
  match extensions.request.bind (·.traceId) with
  | some traceId => !traceId.isEmpty
  | none => false

mutual

/-- Every text in a value, keys included. -/
def texts : Value → List String
  | .string text => [text]
  | .array items => textsOfItems items
  | .object entries => textsOfEntries entries
  | _ => []

def textsOfItems : List Value → List String
  | [] => []
  | item :: items => texts item ++ textsOfItems items

def textsOfEntries : List (String × Value) → List String
  | [] => []
  | (key, value) :: entries => key :: texts value ++ textsOfEntries entries

end

def PluginViolation.texts (violation : PluginViolation) : List String :=
  violation.code :: violation.reason :: violation.description :: textsOfEntries violation.details

/-- The words of violations and metrics. -/
def auditWords : List String :=
  ["SECRETS_DETECTED", "Secrets detected", "count", "examples", "type", "secrets_detection", "total_detections",
    "total_masked", "total_blocked", "secret_types"] ++
  [Stage.promptPreFetch, .toolPreInvoke, .toolPostInvoke, .resourcePostFetch].map Stage.blockDescription ++
  PatternName.all.map PatternName.text

/-! ## The list of kinds -/

theorem mem_all (kind : PatternName) : kind ∈ PatternName.all := by
  cases kind <;> decide

/-- Sorting, removing repeated neighbours and cutting at 32 leaves the sorted set. -/
theorem secretTypes_eq (kinds : List PatternName) :
    (((kinds.map PatternName.text).insertionSort (· ≤ ·)).destutter (· ≠ ·)).take maxSecretTypes =
      (kinds.map PatternName.text).toFinset.sort (· ≤ ·) := by
  have hsorted := List.pairwise_insertionSort (· ≤ ·) (kinds.map PatternName.text)
  have hset : ((kinds.map PatternName.text).insertionSort (· ≤ ·)).dedup.toFinset =
      (kinds.map PatternName.text).toFinset := by
    ext kind
    simp
  have hsort : (kinds.map PatternName.text).toFinset.sort (· ≤ ·) =
      ((kinds.map PatternName.text).insertionSort (· ≤ ·)).dedup := by
    rw [← hset]
    exact (List.toFinset_sort _ (List.nodup_dedup _)).mpr (hsorted.sublist (List.dedup_sublist _))
  have hsubset : (kinds.map PatternName.text).toFinset ⊆ (PatternName.all.map PatternName.text).toFinset := by
    intro text htext
    obtain ⟨kind, -, rfl⟩ := List.mem_map.mp (List.mem_toFinset.mp htext)
    exact List.mem_toFinset.mpr (List.mem_map_of_mem (mem_all kind))
  have hlength : ((kinds.map PatternName.text).toFinset.sort (· ≤ ·)).length ≤ maxSecretTypes := by
    rw [Finset.length_sort]
    calc (kinds.map PatternName.text).toFinset.card
        ≤ (PatternName.all.map PatternName.text).toFinset.card := Finset.card_le_card hsubset
      _ ≤ (PatternName.all.map PatternName.text).length := List.toFinset_card_le _
      _ ≤ maxSecretTypes := by decide
  rw [hsorted.destutter_eq_dedup, ← hsort, List.take_of_length_le hlength]

/-! ## Reports -/

theorem buildViolation_eq (stage : Stage) (findings : List Finding) :
    buildViolation stage findings.length findings = reportedViolation stage (findings.map (·.piiType)) := by
  unfold buildViolation reportedViolation sanitizedFindings
  rw [List.length_map, List.map_map]
  rfl

theorem buildMetrics_eq (extensions : Extensions) (findings : List Finding) (outcome : DetectionOutcome) :
    buildMetrics extensions findings.length findings outcome =
      if extensions.traced ∧ findings.map (·.piiType) ≠ [] then
        some (reportedMetrics (findings.map (·.piiType)) outcome)
      else none := by
  have hkinds : findings.map (·.piiType.text) = (findings.map (·.piiType)).map PatternName.text := by
    rw [List.map_map]
    rfl
  obtain ⟨request⟩ := extensions
  rcases request with _ | ⟨_ | traceId⟩
  · rfl
  · rfl
  · by_cases hempty : traceId = ""
    · simp [buildMetrics, Extensions.traced, hempty]
    · cases findings with
      | nil => simp [buildMetrics]
      | cons finding findings =>
        unfold buildMetrics reportedMetrics
        rw [hkinds, secretTypes_eq]
        cases outcome <;> simp [Extensions.traced, hempty]

theorem attachMetrics_eq (result : PluginResult) (extensions : Extensions) (count : Nat) (findings : List Finding)
    (outcome : DetectionOutcome) :
    attachMetrics result extensions count findings outcome =
      { result with metadata := (buildMetrics extensions count findings outcome).or result.metadata } := by
  unfold attachMetrics
  cases buildMetrics extensions count findings outcome <;> rfl

theorem buildMetrics_zero (extensions : Extensions) (findings : List Finding) (outcome : DetectionOutcome) :
    buildMetrics extensions 0 findings outcome = none := by
  unfold buildMetrics
  rcases extensions.request with _ | ⟨_ | traceId⟩
  · rfl
  · rfl
  · simp

/-- A result that reports the findings, by the outcome it shows. -/
def Reports (stage : Stage) (extensions : Extensions) (findings : List Finding) (result : PluginResult) : Prop :=
  result.violation = (if result.denied then some (buildViolation stage findings.length findings) else none) ∧
    result.metadata = buildMetrics extensions findings.length findings result.outcome

theorem handle_reports (patterns : Patterns) (handler : StageHandler) (payload : MessagePayload)
    (extensions : Extensions) :
    Reports handler.stage extensions (handler.scanPayload patterns payload).findings
      (handler.handle patterns payload extensions) := by
  have hcount := count_scanPayload_eq patterns handler payload
  unfold StageHandler.handle
  dsimp only
  generalize handler.scanPayload patterns payload = scan at hcount ⊢
  obtain ⟨count, findings, modifiedPayload⟩ := scan
  obtain rfl : count = findings.length := hcount
  dsimp only
  split
  · rw [attachMetrics_eq, Option.or_none]
    exact ⟨rfl, rfl⟩
  · cases modifiedPayload with
    | some modifiedPayload =>
      dsimp only
      rw [attachMetrics_eq, Option.or_none]
      exact ⟨rfl, rfl⟩
    | none =>
      dsimp only
      split
      · rw [attachMetrics_eq, Option.or_none]
        exact ⟨rfl, rfl⟩
      · rename_i hnone
        refine ⟨rfl, ?_⟩
        rw [Nat.eq_zero_of_not_pos hnone, buildMetrics_zero]

/-! ## Words -/

theorem textsOfItems_map {α : Type} (f : α → Value) (items : List α) :
    textsOfItems (items.map f) = items.flatMap fun item => texts (f item) := by
  induction items with
  | nil => rfl
  | cons item items ih => rw [List.map_cons, textsOfItems, ih, List.flatMap_cons]

theorem text_mem_auditWords (kind : PatternName) : kind.text ∈ auditWords :=
  List.mem_append_right _ (List.mem_map_of_mem (mem_all kind))

theorem texts_reportedViolation (stage : Stage) (kinds : List PatternName) :
    ∀ text ∈ (reportedViolation stage kinds).texts, text ∈ auditWords := by
  have htexts : (reportedViolation stage kinds).texts = ["SECRETS_DETECTED", "Secrets detected", stage.blockDescription,
      "count", "examples"] ++ kinds.flatMap fun kind => ["type", kind.text] := by
    simp only [PluginViolation.texts, reportedViolation, countValue, textsOfEntries, texts, textsOfItems_map]
    simp
  have hfixed : ∀ text ∈ ["SECRETS_DETECTED", "Secrets detected", stage.blockDescription, "count", "examples"],
      text ∈ auditWords := by
    cases stage <;> decide
  intro text htext
  rw [htexts] at htext
  rcases List.mem_append.mp htext with htext | htext
  · exact hfixed text htext
  · obtain ⟨kind, -, htext⟩ := List.mem_flatMap.mp htext
    rcases List.mem_pair.mp htext with rfl | rfl
    · decide
    · exact text_mem_auditWords kind

theorem texts_reportedMetrics (kinds : List PatternName) (outcome : DetectionOutcome) :
    ∀ text ∈ texts (reportedMetrics kinds outcome), text ∈ auditWords := by
  have htexts : texts (reportedMetrics kinds outcome) = ["secrets_detection", "total_detections", "total_masked",
      "total_blocked", "secret_types"] ++ (kinds.map PatternName.text).toFinset.sort (· ≤ ·) := by
    simp only [reportedMetrics, countValue, textsOfEntries, texts, textsOfItems_map]
    simp
  have hfixed : ∀ text ∈ ["secrets_detection", "total_detections", "total_masked", "total_blocked", "secret_types"],
      text ∈ auditWords := by
    decide
  intro text htext
  rw [htexts] at htext
  rcases List.mem_append.mp htext with htext | htext
  · exact hfixed text htext
  · obtain ⟨kind, -, rfl⟩ := List.mem_map.mp (List.mem_toFinset.mp ((Finset.mem_sort _).mp htext))
    exact text_mem_auditWords kind

/-! ## The audit -/

/-- For every payload: a violation is reported exactly on a denial and metrics exactly for findings of a traced
request, both by the kinds of the findings alone. The metrics name every kind found, once and in order, and count each
finding as blocked, masked or neither, as the result shows. All texts in the two are fixed words. -/
theorem handle_audited (patterns : Patterns) (handler : StageHandler) (payload : MessagePayload)
    (extensions : Extensions) :
    let kinds := (handler.scanPayload patterns payload).findings.map (·.piiType)
    let result := handler.handle patterns payload extensions
    result.violation = (if result.denied then some (reportedViolation handler.stage kinds) else none) ∧
      result.metadata = (if extensions.traced ∧ kinds ≠ [] then some (reportedMetrics kinds result.outcome) else none) ∧
      (∀ violation, result.violation = some violation → ∀ text ∈ violation.texts, text ∈ auditWords) ∧
      ∀ metadata, result.metadata = some metadata → ∀ text ∈ texts metadata, text ∈ auditWords := by
  intro kinds result
  obtain ⟨hviolation, hmetadata⟩ := handle_reports patterns handler payload extensions
  rw [buildViolation_eq] at hviolation
  rw [buildMetrics_eq] at hmetadata
  refine ⟨hviolation, hmetadata, ?_, ?_⟩
  · intro violation h
    rw [hviolation] at h
    split at h
    · cases h
      exact texts_reportedViolation _ _
    · cases h
  · intro metadata h
    rw [hmetadata] at h
    split at h
    · cases h
      exact texts_reportedMetrics _ _
    · cases h

end DataPlane.Secrets
