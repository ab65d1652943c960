/-
The secrets-detection plugin: at each stage it scans one kind of content part of the payload, and
denies, rewrites or allows the payload. The number of findings is a sum over the texts it scans.
-/
import DataPlane.Cpex.Cmf
import DataPlane.Secrets.Scanner

namespace DataPlane.Secrets

open DataPlane.Json DataPlane.Cpex

/-! ## The plugin -/

/-- `Stage`. -/
inductive Stage where
  | promptPreFetch
  | toolPreInvoke
  | toolPostInvoke
  | resourcePostFetch
  deriving DecidableEq

/-- `Stage::block_description`. -/
def Stage.blockDescription : Stage → String
  | promptPreFetch => "Potential secrets detected in prompt arguments"
  | toolPreInvoke => "Potential secrets detected in tool arguments"
  | toolPostInvoke => "Potential secrets detected in tool result"
  | resourcePostFetch => "Potential secrets detected in resource content"

/-- `PluginViolation`. -/
structure PluginViolation where
  code : String
  reason : String
  description : String
  details : JsonObject

/-- `PluginResult<MessagePayload>`, as far as it is set here. -/
structure PluginResult where
  continueProcessing : Bool := true
  modifiedPayload : Option MessagePayload := none
  violation : Option PluginViolation := none
  metadata : Option Value := none

/-- `RequestExtension`, as far as it is read here. -/
structure RequestExtension where
  traceId : Option String

/-- `Extensions`, as far as they are read here. -/
structure Extensions where
  request : Option RequestExtension

/-- `StageHandler`, with the core's scanner config. -/
structure StageHandler where
  config : SecretsDetectionConfig
  stage : Stage

/-- `SecretsDetectionCore::should_block`. -/
def shouldBlock (config : SecretsDetectionConfig) (count : Nat) : Bool :=
  config.blockOnDetection && config.minFindingsToBlock ≤ count

/-- `PartScanReport`. -/
structure PartScanReport where
  count : Nat
  findings : List Finding
  redacted : Bool

/-- `PayloadScan`. -/
structure PayloadScan where
  count : Nat
  findings : List Finding
  modifiedPayload : Option MessagePayload

/-- `DetectionOutcome`. -/
inductive DetectionOutcome where
  | masked
  | blocked
  | none

/-! ## Reports -/

def countValue (count : Nat) : Value := .number (.posInt (UInt64.ofNat count))

/-- `sanitized_findings`. -/
def sanitizedFindings (findings : List Finding) : Value :=
  .array (findings.map fun finding => .object [("type", .string finding.piiType.text)])

/-- `build_violation`. -/
def buildViolation (stage : Stage) (count : Nat) (findings : List Finding) : PluginViolation where
  code := "SECRETS_DETECTED"
  reason := "Secrets detected"
  description := stage.blockDescription
  details := [("count", countValue count), ("examples", sanitizedFindings findings)]

/-- `MAX_SECRET_TYPES`. -/
def maxSecretTypes : Nat := 32

/-- `build_metrics`. -/
def buildMetrics (extensions : Extensions) (count : Nat) (findings : List Finding) (outcome : DetectionOutcome) :
    Option Value := do
  let request ← extensions.request
  let traceId ← request.traceId
  if traceId.isEmpty || count == 0 then failure
  let secretTypes := (((findings.map (·.piiType.text)).insertionSort (· ≤ ·)).destutter (· ≠ ·)).take maxSecretTypes
  let (masked, blocked) := match outcome with
    | .masked => (count, 0)
    | .blocked => (0, count)
    | .none => (0, 0)
  return .object [("secrets_detection", .object
    [("total_detections", countValue count), ("total_masked", countValue masked),
      ("total_blocked", countValue blocked), ("secret_types", .array (secretTypes.map .string))])]

/-- `attach_metrics`. -/
def attachMetrics (result : PluginResult) (extensions : Extensions) (count : Nat) (findings : List Finding)
    (outcome : DetectionOutcome) : PluginResult :=
  match buildMetrics extensions count findings outcome with
  | none => result
  | some metadata => { result with metadata := some metadata }

/-! ## Scanning a payload -/

/-- A JSON object scanned as the arguments of a call: the report and the arguments after it. -/
def scanArguments (patterns : Patterns) (config : SecretsDetectionConfig) (arguments : JsonObject) :
    PartScanReport × JsonObject :=
  let report := scanJsonValue patterns config (.object arguments)
  let redacted := config.redact && report.count > 0
  (⟨report.count, report.findings, redacted⟩,
    match redacted, report.redacted with
    | true, .object arguments' => arguments'
    | _, _ => arguments)

/-- `StageHandler::scan_content_part`: the report and the part after it. -/
def scanContentPart (patterns : Patterns) (config : SecretsDetectionConfig) :
    Stage → ContentPart → Option (PartScanReport × ContentPart)
  | .promptPreFetch, .promptRequest content =>
    let (report, arguments) := scanArguments patterns config content.arguments
    some (report, .promptRequest { content with arguments })
  | .toolPreInvoke, .toolCall content =>
    let (report, arguments) := scanArguments patterns config content.arguments
    some (report, .toolCall { content with arguments })
  | .toolPostInvoke, .toolResult content =>
    let report := scanJsonValue patterns config content.content
    let redacted := config.redact && report.count > 0
    some (⟨report.count, report.findings, redacted⟩,
      .toolResult { content with content := if redacted then report.redacted else content.content })
  | .resourcePostFetch, .resource content => do
    let text ← content.content
    let report := scanDirectText patterns config text
    let redacted := config.redact && report.count > 0
    return (⟨report.count, report.findings, redacted⟩,
      .resource { content with content := match redacted, report.redacted with
        | true, .string redactedText => some redactedText
        | _, _ => content.content })
  | _, _ => none

/-- One part of `scan_payload`. -/
def StageHandler.scanPart (patterns : Patterns) (handler : StageHandler) (part : ContentPart) :
    PartScanReport × ContentPart :=
  (scanContentPart patterns handler.config handler.stage part).getD (⟨0, [], false⟩, part)

/-- `StageHandler::scan_payload`. -/
def StageHandler.scanPayload (patterns : Patterns) (handler : StageHandler) (payload : MessagePayload) : PayloadScan :=
  let scanned := payload.message.content.map (handler.scanPart patterns)
  let redactedAny := scanned.any fun (report, _) => handler.config.redact && report.redacted
  { count := (scanned.map (·.1.count)).sum
    findings := scanned.flatMap (·.1.findings)
    modifiedPayload := if redactedAny then some ⟨{ payload.message with content := scanned.map (·.2) }⟩ else none }

/-- `StageHandler::handle`. -/
def StageHandler.handle (patterns : Patterns) (handler : StageHandler) (payload : MessagePayload)
    (extensions : Extensions) : PluginResult :=
  let scan := handler.scanPayload patterns payload
  if shouldBlock handler.config scan.count then
    let violation := buildViolation handler.stage scan.count scan.findings
    let result : PluginResult :=
      { continueProcessing := false, violation := some violation, modifiedPayload := scan.modifiedPayload.or (some payload) }
    attachMetrics result extensions scan.count scan.findings .blocked
  else match scan.modifiedPayload with
    | some modifiedPayload =>
      attachMetrics { modifiedPayload := some modifiedPayload } extensions scan.count scan.findings .masked
    | none => if scan.count > 0 then attachMetrics {} extensions scan.count scan.findings .none else {}

/-! ## Denials -/

/-- The payload is denied. -/
def PluginResult.denied (result : PluginResult) : Bool := !result.continueProcessing

theorem continueProcessing_attachMetrics (result : PluginResult) (extensions : Extensions) (count : Nat)
    (findings : List Finding) (outcome : DetectionOutcome) :
    (attachMetrics result extensions count findings outcome).continueProcessing = result.continueProcessing := by
  unfold attachMetrics
  split <;> rfl

theorem denied_handle (patterns : Patterns) (handler : StageHandler) (payload : MessagePayload)
    (extensions : Extensions) : (handler.handle patterns payload extensions).denied =
      shouldBlock handler.config (handler.scanPayload patterns payload).count := by
  unfold StageHandler.handle PluginResult.denied
  simp only
  split
  · rename_i hb
    rw [continueProcessing_attachMetrics, hb]
    rfl
  · rename_i hb
    rw [Bool.not_eq_true] at hb
    rw [hb]
    split
    · rw [continueProcessing_attachMetrics]; rfl
    · split
      · rw [continueProcessing_attachMetrics]; rfl
      · rfl

end DataPlane.Secrets
