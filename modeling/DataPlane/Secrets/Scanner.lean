/-
Secrets detection in texts and JSON values: which fields are scanned, what the detectors find in a
text, and how overlapping finds are merged and redacted.
-/
import DataPlane.Json.Value
import DataPlane.Secrets.Patterns

namespace DataPlane.Secrets

open DataPlane.Json

/-! ## Configuration -/

/-- `FieldPath`. -/
structure FieldPath where
  segments : List String
  deriving DecidableEq

/-- `path_starts_with`. -/
def pathStartsWith (path start : List String) : Bool :=
  start.length ≤ path.length && (path.zip start).all fun (left, right) => left == right

namespace FieldPath

def matchesPathOrDescendant (field : FieldPath) (path : List String) : Bool := pathStartsWith path field.segments

def canBeReachedFrom (field : FieldPath) (path : List String) : Bool := pathStartsWith field.segments path

end FieldPath

/-- `SecretsDetectionConfig`. -/
structure SecretsDetectionConfig where
  enabled : List (String × Bool)
  redact : Bool
  redactionText : String
  blockOnDetection : Bool
  minFindingsToBlock : Nat
  fieldAllowlist : List FieldPath
  fieldDenylist : List FieldPath

/-- `BROAD_PATTERNS`. -/
def broadPatterns : List PatternName := [.genericApiKeyAssignment, .jwtLike, .hexSecret32, .base6424]

/-- `default_enabled_map`. -/
def defaultEnabledMap : List (String × Bool) :=
  PatternName.all.map fun name => (name.text, !broadPatterns.contains name)

namespace SecretsDetectionConfig

/-- `SecretsDetectionConfig::default`. -/
def default : SecretsDetectionConfig where
  enabled := defaultEnabledMap
  redact := false
  redactionText := "***REDACTED***"
  blockOnDetection := true
  minFindingsToBlock := 1
  fieldAllowlist := []
  fieldDenylist := []

def isEnabled (config : SecretsDetectionConfig) (name : PatternName) : Bool :=
  (config.enabled.lookup name.text).getD false

def pathIsDenied (config : SecretsDetectionConfig) (path : List String) : Bool :=
  config.fieldDenylist.any (·.matchesPathOrDescendant path)

def shouldScanFieldPath (config : SecretsDetectionConfig) (path : List String) (directScalarRoot : Bool) : Bool :=
  if directScalarRoot && path.isEmpty then true
  else if config.pathIsDenied path then false
  else config.fieldAllowlist.isEmpty || config.fieldAllowlist.any (·.matchesPathOrDescendant path)

def shouldTraverseFieldPath (config : SecretsDetectionConfig) (path : List String) : Bool :=
  if path.isEmpty then true
  else if config.pathIsDenied path then false
  else config.fieldAllowlist.isEmpty || config.fieldAllowlist.any fun allowPath =>
    allowPath.matchesPathOrDescendant path || allowPath.canBeReachedFrom path

end SecretsDetectionConfig

/-! ## Candidates -/

/-- `Finding`. -/
structure Finding where
  piiType : PatternName
  preview : String
  deriving DecidableEq

/-- `MatchCandidate`. -/
structure MatchCandidate where
  name : PatternName
  start : Nat
  stop : Nat
  text : List Char

namespace MatchCandidate

def span (candidate : MatchCandidate) : Span Nat := ⟨candidate.start, candidate.stop⟩

/-- A match in a text. -/
def of (name : PatternName) (text : List Char) (matched : Span Nat) : MatchCandidate :=
  ⟨name, matched.start, matched.stop, Utf8.slice text matched.start matched.stop⟩

/-- The comparison candidates are sorted by. -/
def cmp (left right : MatchCandidate) : Ordering :=
  (compare left.start right.start).then <|
    (compare left.name.specificity right.name.specificity).then <|
      (compare (right.stop - right.start) (left.stop - left.start)).then <|
        compare left.name.text right.name.text

end MatchCandidate

/-- `is_base64_boundary_char`. -/
def isBase64BoundaryChar (c : Option Char) : Bool := c.any (alphanumOr ['+', '/', '='])

/-- The candidates of one pattern. -/
def patternCandidates (patterns : Patterns) (text : List Char) (name : PatternName) : List MatchCandidate :=
  let found := patterns.findIter name text
  if name.isCapture then found.filterMap fun captures =>
    match captures.group with
    | none => none
    | some matched =>
      if isBase64BoundaryChar (Utf8.dropBytes matched.stop text).head? then none else some (.of name text matched)
  else found.map fun f => .of name text f.whole

/-- The candidates of the enabled patterns. -/
def collectCandidates (patterns : Patterns) (config : SecretsDetectionConfig) (text : List Char) :
    List MatchCandidate :=
  patterns.order.flatMap fun name => if config.isEnabled name then patternCandidates patterns text name else []

/-- `candidates.sort_by`. -/
def sortCandidates (candidates : List MatchCandidate) : List MatchCandidate :=
  candidates.insertionSort fun left right => (left.cmp right).isLE = true

/-- A candidate that overlaps the current one is merged into it. -/
def MatchCandidate.absorb (current candidate : MatchCandidate) : MatchCandidate :=
  let takes := candidate.name.specificity < current.name.specificity ||
    (candidate.name.specificity == current.name.specificity &&
      candidate.stop - candidate.start > current.stop - current.start)
  { name := if takes then candidate.name else current.name
    start := current.start
    stop := if candidate.stop > current.stop then candidate.stop else current.stop
    text := if takes then candidate.text else current.text }

/-- The merging loop, from the last selected candidate on. -/
def selectFrom (current : MatchCandidate) : List MatchCandidate → List MatchCandidate
  | [] => [current]
  | candidate :: candidates =>
    if candidate.start ≥ current.stop then current :: selectFrom candidate candidates
    else selectFrom (current.absorb candidate) candidates

/-- The merging loop. -/
def select : List MatchCandidate → List MatchCandidate
  | [] => []
  | candidate :: candidates => selectFrom candidate candidates

/-- The candidates that are reported and redacted. -/
def selected (patterns : Patterns) (config : SecretsDetectionConfig) (text : List Char) : List MatchCandidate :=
  select (sortCandidates (collectCandidates patterns config text))

/-! ## Texts -/

/-- The finding of a selected candidate. -/
def MatchCandidate.finding (matched : MatchCandidate) : Finding where
  piiType := matched.name
  preview := String.ofList (if matched.text.length > 8 then matched.text.take 8 ++ "...".toList else matched.text)

/-- The text from a cursor on with the selected candidates replaced. -/
def redactFrom (redactionText text : List Char) (cursor : Nat) : List MatchCandidate → List Char
  | [] => Utf8.dropBytes cursor text
  | matched :: rest =>
    Utf8.slice text cursor matched.start ++ (redactionText ++ redactFrom redactionText text matched.stop rest)

/-- `detect_and_redact`. -/
def detectAndRedact (patterns : Patterns) (config : SecretsDetectionConfig) (text : String) : List Finding × String :=
  let chosen := selected patterns config text.toList
  let redacted := if config.redact && !chosen.isEmpty then
    String.ofList (redactFrom config.redactionText.toList text.toList 0 chosen) else text
  (chosen.map (·.finding), redacted)

/-! ## JSON values -/

/-- `ScanReport`. -/
structure ScanReport where
  count : Nat
  redacted : Value
  findings : List Finding

/-- `clean_report`. -/
def cleanReport (value : Value) : ScanReport := ⟨0, value, []⟩

/-- `scan_direct_text`. -/
def scanDirectText (patterns : Patterns) (config : SecretsDetectionConfig) (text : String) : ScanReport :=
  let (findings, redacted) := detectAndRedact patterns config text
  ⟨findings.length, .string redacted, findings⟩

section Walk

variable (patterns : Patterns) (config : SecretsDetectionConfig)

mutual

/-- `scan_json_value_inner`. -/
def scanJsonValueInner (path : List String) (directScalarRoot : Bool) : Value → ScanReport
  | .string text =>
    if config.shouldScanFieldPath path directScalarRoot then scanDirectText patterns config text
    else cleanReport (.string text)
  | .array items =>
    if config.shouldTraverseFieldPath path then
      let reports := scanItems path items
      ⟨(reports.map (·.count)).sum, .array (reports.map (·.redacted)), reports.flatMap (·.findings)⟩
    else cleanReport (.array items)
  | .object entries =>
    if config.shouldTraverseFieldPath path then
      let reports := scanEntries path entries
      ⟨(reports.map (·.2.count)).sum, .object (reports.map fun (key, report) => (key, report.redacted)),
        reports.flatMap (·.2.findings)⟩
    else cleanReport (.object entries)
  | value => cleanReport value

def scanItems (path : List String) : List Value → List ScanReport
  | [] => []
  | item :: items => scanJsonValueInner path false item :: scanItems path items

def scanEntries (path : List String) : List (String × Value) → List (String × ScanReport)
  | [] => []
  | (key, value) :: entries => (key, scanJsonValueInner (path ++ [key]) false value) :: scanEntries path entries

end

/-- `scan_json_value`. -/
def scanJsonValue (value : Value) : ScanReport := scanJsonValueInner patterns config [] true value

end Walk

end DataPlane.Secrets
