/-
The plugin's configuration: how a JSON value becomes a `SecretsDetectionConfig`, and what an accepted
one does to payloads without a finding. They go on as they are, except under a threshold of zero
findings, which is accepted and denies every payload.
-/
import DataPlane.Secrets.Fields
import DataPlane.Secrets.Plugin

namespace DataPlane.Secrets

open DataPlane.Json DataPlane.Cpex

/-! ## Field paths -/

/-- `ConfigError`. -/
structure ConfigError where
  message : String
  deriving DecidableEq

/-- Texts in messages: the error of `serde_json::from_value`, and `{:?}` of a string. -/
structure ErrorTexts where
  serde : Value → String
  debug : String → String

/-- `str::trim` leaves nothing. -/
def isBlank (text : String) : Bool := text.toList.all isSpace

/-- `str::split` at dots. -/
def splitDots (path : String) : List String := (path.toList.splitOn '.').map String.ofList

variable (texts : ErrorTexts)

/-- `FieldPath::parse`. -/
def FieldPath.parse (path fieldName : String) : Except ConfigError FieldPath :=
  if isBlank path then .error ⟨s!"{fieldName} entries must not be empty or whitespace-only"⟩
  else if path.toList.head? == some '.' || path.toList.getLast? == some '.' then
    .error ⟨s!"{fieldName} path {texts.debug path} must not start or end with '.'"⟩
  else if (splitDots path).any isBlank then
    .error ⟨s!"{fieldName} path {texts.debug path} must not contain empty or whitespace-only segments"⟩
  else .ok ⟨splitDots path⟩

/-- A path that is not a list of strings. -/
def notAList (fieldName : String) : ConfigError := ⟨s!"{fieldName} must be a list of dotted field path strings"⟩

/-- One entry of `parse_field_paths`. -/
def parseFieldPathEntry (fieldName : String) (entry : Value) : Except ConfigError FieldPath :=
  match entry.asStr with
  | some path => FieldPath.parse texts path fieldName
  | none => .error (notAList fieldName)

/-- `parse_field_paths`. -/
def parseFieldPaths (fieldName : String) : Option Value → Except ConfigError (List FieldPath)
  | none => .ok []
  | some (.array entries) => entries.mapM (parseFieldPathEntry texts fieldName)
  | some _ => .error (notAList fieldName)

/-! ## Configurations -/

/-- `RawSecretsDetectionConfig`. -/
structure RawSecretsDetectionConfig where
  enabled : Option (List (String × Bool)) := none
  redact : Option Bool := none
  redactionText : Option String := none
  blockOnDetection : Option Bool := none
  minFindingsToBlock : Option Nat := none
  fieldAllowlist : Option Value := none
  fieldDenylist : Option Value := none

/-- A field of type `Option<T>` as `serde` reads it: a field that is missing or `null` is `None`. -/
def optionalField {α : Type} (read : Value → Option α) : Option Value → Option (Option α)
  | none => some none
  | some .null => some none
  | some value => (read value).map some

def readBool : Value → Option Bool
  | .bool b => some b
  | _ => none

/-- A `usize`: any `u64`. -/
def readUsize : Value → Option Nat
  | .number n => n.asU64
  | _ => none

/-- A `HashMap<String, bool>`. -/
def readEnabled : Value → Option (List (String × Bool))
  | .object entries => entries.mapM fun (key, value) => (readBool value).map (key, ·)
  | _ => none

namespace RawSecretsDetectionConfig

/-- The fields in declaration order. -/
def fieldNames : List String :=
  ["enabled", "redact", "redaction_text", "block_on_detection", "min_findings_to_block", "field_allowlist",
    "field_denylist"]

def readFields (field : String → Option Value) : Option RawSecretsDetectionConfig := do
  let enabled ← optionalField readEnabled (field "enabled")
  let redact ← optionalField readBool (field "redact")
  let redactionText ← optionalField Value.asStr (field "redaction_text")
  let blockOnDetection ← optionalField readBool (field "block_on_detection")
  let minFindingsToBlock ← optionalField readUsize (field "min_findings_to_block")
  let fieldAllowlist ← optionalField some (field "field_allowlist")
  let fieldDenylist ← optionalField some (field "field_denylist")
  return { enabled, redact, redactionText, blockOnDetection, minFindingsToBlock, fieldAllowlist, fieldDenylist }

/-- The derived `Deserialize`: a map by field names, with others ignored, or a sequence in declaration
order. -/
def deserialize : Value → Option RawSecretsDetectionConfig
  | .object entries => readFields (JsonObject.get? entries)
  | .array items => if items.length ≤ fieldNames.length then readFields fun name => items[fieldNames.idxOf name]?
    else none
  | _ => none

/-- What `from_value` reads. -/
def ofValue : Option Value → Option RawSecretsDetectionConfig
  | none => some {}
  | some .null => some {}
  | some value => deserialize value

end RawSecretsDetectionConfig

/-- `merge_enabled_map`. -/
def mergeEnabledMap (overrides : List (String × Bool)) : List (String × Bool) :=
  overrides ++ defaultEnabledMap.filter fun entry => (overrides.lookup entry.1).isNone

/-- `SecretsDetectionConfig::from_value`. -/
def SecretsDetectionConfig.fromValue (value : Option Value) : Except ConfigError SecretsDetectionConfig := do
  let some raw := RawSecretsDetectionConfig.ofValue value
    | throw ⟨s!"invalid secrets_detection config: {texts.serde (value.getD .null)}"⟩
  let fieldAllowlist ← parseFieldPaths texts "field_allowlist" raw.fieldAllowlist
  let fieldDenylist ← parseFieldPaths texts "field_denylist" raw.fieldDenylist
  return {
    enabled := match raw.enabled with
      | none => defaultEnabledMap
      | some overrides => mergeEnabledMap overrides
    redact := raw.redact.getD false
    redactionText := raw.redactionText.getD "***REDACTED***"
    blockOnDetection := raw.blockOnDetection.getD true
    minFindingsToBlock := raw.minFindingsToBlock.getD 1
    fieldAllowlist
    fieldDenylist }

/-- An accepted value was read, and its thresholds are those read or the defaults. -/
theorem fromValue_ok {value : Option Value} {config : SecretsDetectionConfig}
    (h : SecretsDetectionConfig.fromValue texts value = .ok config) :
    ∃ raw, RawSecretsDetectionConfig.ofValue value = some raw ∧
      config.blockOnDetection = raw.blockOnDetection.getD true ∧
        config.minFindingsToBlock = raw.minFindingsToBlock.getD 1 := by
  unfold SecretsDetectionConfig.fromValue at h
  split at h
  · rename_i raw hraw
    refine ⟨raw, hraw, ?_⟩
    rcases hallow : parseFieldPaths texts "field_allowlist" raw.fieldAllowlist with error | allowlist
    · rw [hallow] at h; cases h
    · rw [hallow] at h
      rcases hdeny : parseFieldPaths texts "field_denylist" raw.fieldDenylist with error | denylist
      · rw [hdeny] at h; cases h
      · rw [hdeny] at h
        cases h
        exact ⟨rfl, rfl⟩
  · cases h

/-! ## Payloads without a finding -/

section Clean

variable (patterns : Patterns)

theorem scanArguments_report (config : SecretsDetectionConfig) (arguments : JsonObject) :
    (scanArguments patterns config arguments).1.count = (scanArguments patterns config arguments).1.findings.length ∧
      ((scanArguments patterns config arguments).1.redacted = true →
        0 < (scanArguments patterns config arguments).1.count) := by
  refine ⟨count_scanJsonValue patterns config (.object arguments), ?_⟩
  simp [scanArguments]

/-- The report of one part counts its findings, and only a part with a finding is redacted. -/
theorem scanPart_report (handler : StageHandler) (part : ContentPart) :
    (handler.scanPart patterns part).1.count = (handler.scanPart patterns part).1.findings.length ∧
      ((handler.scanPart patterns part).1.redacted = true → 0 < (handler.scanPart patterns part).1.count) := by
  obtain ⟨config, stage⟩ := handler
  unfold StageHandler.scanPart
  cases stage with
  | promptPreFetch =>
    cases part with
    | promptRequest content => exact scanArguments_report patterns config content.arguments
    | _ => exact ⟨rfl, fun h => nomatch h⟩
  | toolPreInvoke =>
    cases part with
    | toolCall content => exact scanArguments_report patterns config content.arguments
    | _ => exact ⟨rfl, fun h => nomatch h⟩
  | toolPostInvoke =>
    cases part with
    | toolResult content =>
      refine ⟨count_scanJsonValue patterns config content.content, ?_⟩
      simp [scanContentPart]
    | _ => exact ⟨rfl, fun h => nomatch h⟩
  | resourcePostFetch =>
    cases part with
    | resource content =>
      simp only [scanContentPart]
      cases content.content with
      | none => exact ⟨rfl, fun h => nomatch h⟩
      | some text =>
        refine ⟨rfl, ?_⟩
        simp
    | _ => exact ⟨rfl, fun h => nomatch h⟩

theorem count_scanPayload_eq (handler : StageHandler) (payload : MessagePayload) :
    (handler.scanPayload patterns payload).count = (handler.scanPayload patterns payload).findings.length := by
  unfold StageHandler.scanPayload
  simp only [List.map_map, List.flatMap_map, List.length_flatMap]
  refine congrArg List.sum (List.map_congr_left fun part _ => ?_)
  exact (scanPart_report patterns handler part).1

theorem modifiedPayload_scanPayload (handler : StageHandler) (payload : MessagePayload)
    (h : (handler.scanPayload patterns payload).count = 0) :
    (handler.scanPayload patterns payload).modifiedPayload = none := by
  unfold StageHandler.scanPayload at h ⊢
  simp only [List.map_map, List.sum_eq_zero_iff, List.mem_map, Function.comp_apply, forall_exists_index, and_imp,
    forall_apply_eq_imp_iff₂] at h
  refine if_neg fun hany => ?_
  obtain ⟨scanned, hmem, hredacted⟩ := List.any_eq_true.mp hany
  obtain ⟨part, hpart, rfl⟩ := List.mem_map.mp hmem
  have hpos := (scanPart_report patterns handler part).2 (Bool.and_eq_true_iff.mp hredacted).2
  have hzero := h part hpart
  omega

/-- The payload goes on as it is, without a violation. -/
def PluginResult.Untouched (result : PluginResult) : Prop :=
  result.continueProcessing = true ∧ result.violation = none ∧ result.modifiedPayload = none

/-- A payload without a finding is denied or goes on as it is, as the threshold says for zero findings. -/
theorem untouched_handle_iff (handler : StageHandler) (payload : MessagePayload) (extensions : Extensions)
    (h : (handler.scanPayload patterns payload).findings = []) :
    (handler.handle patterns payload extensions).Untouched ↔ shouldBlock handler.config 0 = false := by
  have hcount : (handler.scanPayload patterns payload).count = 0 := by
    rw [count_scanPayload_eq, h]
    rfl
  have hdenied := denied_handle patterns handler payload extensions
  rw [hcount] at hdenied
  constructor
  · rintro ⟨hcontinue, -, -⟩
    rw [← hdenied, PluginResult.denied, hcontinue]
    rfl
  · intro hblock
    have hallow : handler.handle patterns payload extensions = {} := by
      unfold StageHandler.handle
      simp only [hcount, hblock, modifiedPayload_scanPayload patterns handler payload hcount]
      rfl
    rw [hallow]
    exact ⟨rfl, rfl, rfl⟩

theorem shouldBlock_zero_iff (config : SecretsDetectionConfig) :
    shouldBlock config 0 = false ↔ config.blockOnDetection = false ∨ 1 ≤ config.minFindingsToBlock := by
  rw [shouldBlock, Bool.and_eq_false_iff, decide_eq_false_iff_not, Nat.not_le]
  exact Iff.rfl

/-- Under an accepted configuration every payload without a finding goes on as it is, and none is
denied, exactly when the configuration does not ask to block or does not set the threshold to zero. -/
theorem clean_untouched_iff (value : Option Value) {config : SecretsDetectionConfig} {raw : RawSecretsDetectionConfig}
    (haccepted : SecretsDetectionConfig.fromValue texts value = .ok config)
    (hraw : RawSecretsDetectionConfig.ofValue value = some raw) (stage : Stage) (payload : MessagePayload)
    (extensions : Extensions) (hclean : (StageHandler.scanPayload patterns ⟨config, stage⟩ payload).findings = []) :
    ((StageHandler.handle patterns ⟨config, stage⟩ payload extensions).Untouched ↔
      raw.blockOnDetection = some false ∨ raw.minFindingsToBlock ≠ some 0) ∧
    ((StageHandler.handle patterns ⟨config, stage⟩ payload extensions).denied = false ↔
      raw.blockOnDetection = some false ∨ raw.minFindingsToBlock ≠ some 0) := by
  obtain ⟨raw', hraw', hblock, hmin⟩ := fromValue_ok texts haccepted
  obtain rfl : raw = raw' := Option.some.inj (hraw.symm.trans hraw')
  have hcondition : shouldBlock config 0 = false ↔
      raw.blockOnDetection = some false ∨ raw.minFindingsToBlock ≠ some 0 := by
    rw [shouldBlock_zero_iff, hblock, hmin]
    refine or_congr ?_ ?_
    · cases raw.blockOnDetection with
      | none => simp
      | some block => simp
    · cases raw.minFindingsToBlock with
      | none => simp
      | some threshold => simp only [Option.getD_some, ne_eq, Option.some.injEq]; omega
  refine ⟨(untouched_handle_iff patterns ⟨config, stage⟩ payload extensions hclean).trans hcondition, ?_⟩
  rw [denied_handle, count_scanPayload_eq, hclean]
  exact hcondition

/-- A tool call with the argument `hello`. -/
def helloCall : MessagePayload :=
  messagePayload .assistant [.toolCall ⟨"call", "tool", [("message", .string "hello")], none⟩]

/-- A configuration with the given threshold. -/
def thresholdValue (threshold : UInt64) : Value := .object [("min_findings_to_block", .number (.posInt threshold))]

theorem clean_untouched_hello :
    (StageHandler.handle (.compiled fun _ => false)
      ⟨{ SecretsDetectionConfig.default with minFindingsToBlock := 2 }, .toolPreInvoke⟩ helloCall ⟨none⟩).Untouched :=
  (clean_untouched_iff ⟨fun _ => "", id⟩ (.compiled fun _ => false) (some (thresholdValue 2)) rfl rfl
    .toolPreInvoke helloCall ⟨none⟩ (by decide +kernel)).1.mpr (.inr (by decide))

/-- With a threshold of zero a call without a finding is denied. -/
theorem hello_denied :
    ∃ config, SecretsDetectionConfig.fromValue ⟨fun _ => "", id⟩ (some (thresholdValue 0)) = .ok config ∧
      (StageHandler.scanPayload (.compiled fun _ => false) ⟨config, .toolPreInvoke⟩ helloCall).findings = [] ∧
        (StageHandler.handle (.compiled fun _ => false) ⟨config, .toolPreInvoke⟩ helloCall ⟨none⟩).denied = true := by
  refine ⟨_, rfl, ?_, ?_⟩
  · decide +kernel
  · decide +kernel

end Clean

end DataPlane.Secrets
