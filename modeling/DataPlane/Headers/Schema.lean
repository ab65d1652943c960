/-
The schema walk of `mcp_standard_headers.rs`: `param_header_annotations` collects the
`x-mcp-header` annotations of a tool's input schema that stand on statically reachable
properties, and rejects the schema when one stands anywhere else, is malformed or repeats a name.
-/
import DataPlane.Json.Value

namespace DataPlane.Headers

open DataPlane.Json

inductive ParameterType where
  | boolean
  | integer
  | string
  deriving DecidableEq

structure ParamHeaderAnnotation where
  headerName : String
  headerNameDisplay : String
  parameterType : ParameterType
  propertyPath : List String
  deriving DecidableEq

/-- What the code takes from its HTTP and Base64 crates: `HeaderName::from_bytes` (the parsed,
lower-case name) and `BASE64_STANDARD.decode`. -/
structure Codecs where
  headerNameFromBytes : String → Option String
  base64Decode : List Char → Option (List UInt8)

/-- `HEADER_MCP_PARAM_PREFIX`. -/
def headerMcpParamPrefix : String := "Mcp-Param-"

/-- A byte of an HTTP token. -/
def isTchar (c : Char) : Bool :=
  c.isAlphanum || c ∈ ['!', '#', '$', '%', '&', '\x27', '*', '+', '-', '.', '^', '_', '\x60', '|', '~']

/-- `str::to_ascii_lowercase`. -/
def toAsciiLowercase (s : String) : String := s.map Char.toLower

def joinPath (path : List String) : String := ".".intercalate path

/-- The text of an `Option<&str>` in a `{:?}` field. -/
def debugOption : Option String → String
  | none => "None"
  | some s => "Some(" ++ s.quote ++ ")"

/-! ## Unreachable annotations -/

def unreachableError (schemaPath : String) : String :=
  s!"schema `{schemaPath}`: x-mcp-header is not on a statically reachable property"

mutual

def rejectUnreachableAnnotations (schemaPath : String) : Value → Except String Unit
  | .object o =>
    if o.lookup "x-mcp-header" |>.isSome then .error (unreachableError schemaPath)
    else rejectEntries schemaPath o
  | .array items => rejectItems schemaPath 0 items
  | _ => .ok ()

def rejectEntries (schemaPath : String) : List (String × Value) → Except String Unit
  | [] => .ok ()
  | (key, nested) :: rest => do
    rejectUnreachableAnnotations s!"{schemaPath}.{key}" nested
    rejectEntries schemaPath rest

def rejectItems (schemaPath : String) (index : Nat) : List Value → Except String Unit
  | [] => .ok ()
  | nested :: rest => do
    rejectUnreachableAnnotations s!"{schemaPath}[{index}]" nested
    rejectItems schemaPath (index + 1) rest

end

/-! ## The walk -/

/-- The set of header names seen so far, in lower case, and the annotations found. -/
structure Walk where
  seenHeaders : List String := []
  annotations : List ParamHeaderAnnotation := []

section
variable (codecs : Codecs)

def parameterTypeOf (schema : JsonObject) (display : String) : Except String ParameterType :=
  match (schema.get? "type").bind Value.asStr with
  | some "boolean" => .ok .boolean
  | some "integer" => .ok .integer
  | some "string" => .ok .string
  | other => .error
      s!"property `{display}`: x-mcp-header requires type string, integer, or boolean; got {debugOption other}"

/-- The annotation of one schema, the first half of `visit_schema`. -/
def visitAnnotation (schema : JsonObject) (schemaPath : String) (propertyPath : Option (List String))
    (walk : Walk) : Except String Walk :=
  match schema.get? "x-mcp-header" with
  | none => .ok walk
  | some rawHeader =>
    match propertyPath with
    | none => .error (unreachableError schemaPath)
    | some propertyPath => do
      let display := joinPath propertyPath
      let .string header := rawHeader
        | throw s!"property `{display}`: x-mcp-header must be a string"
      if header.isEmpty then
        throw s!"property `{display}`: x-mcp-header must not be empty"
      if !header.toList.all isTchar then
        throw s!"property `{display}`: x-mcp-header `{header}` is not a valid HTTP token"
      let lower := toAsciiLowercase header
      if walk.seenHeaders.contains lower then
        throw s!"property `{display}`: duplicate x-mcp-header `{header}` (case-insensitive)"
      let parameterType ← parameterTypeOf schema display
      let headerNameDisplay := headerMcpParamPrefix ++ header
      let some headerName := codecs.headerNameFromBytes headerNameDisplay
        | throw s!"property `{display}`: invalid header name `{headerNameDisplay}`"
      return { seenHeaders := lower :: walk.seenHeaders
               annotations := walk.annotations ++ [{ headerName, headerNameDisplay, parameterType, propertyPath }] }

mutual

/-- The loop over a schema's keywords, the second half of `visit_schema`. -/
def visitKeywords (schemaPath : String) (propertyPath : Option (List String)) :
    List (String × Value) → Walk → Except String Walk
  | [], walk => .ok walk
  | (keyword, value) :: rest, walk => do
    let walk ← visitKeyword schemaPath propertyPath keyword value walk
    visitKeywords schemaPath propertyPath rest walk

def visitKeyword (schemaPath : String) (propertyPath : Option (List String)) (keyword : String) :
    Value → Walk → Except String Walk
  | .object properties, walk =>
    if keyword = "properties" then visitProperties schemaPath (propertyPath.getD []) properties walk
    else if keyword = "x-mcp-header" then .ok walk
    else do
      rejectUnreachableAnnotations s!"{schemaPath}.{keyword}" (.object properties)
      return walk
  | value, walk =>
    if keyword = "x-mcp-header" then .ok walk
    else do
      rejectUnreachableAnnotations s!"{schemaPath}.{keyword}" value
      return walk

def visitProperties (schemaPath : String) (propertyPath : List String) :
    List (String × Value) → Walk → Except String Walk
  | [], walk => .ok walk
  | (property, propertySchema) :: rest, walk => do
    let walk ← visitProperty s!"{schemaPath}.properties.{property}" (propertyPath ++ [property]) propertySchema walk
    visitProperties schemaPath propertyPath rest walk

/-- `visit_schema` on an object, which is its two halves in a row. -/
def visitProperty (schemaPath : String) (propertyPath : List String) : Value → Walk → Except String Walk
  | .object schema, walk => do
    let walk ← visitAnnotation codecs schema schemaPath (some propertyPath) walk
    visitKeywords schemaPath (some propertyPath) schema walk
  | value, walk => do
    rejectUnreachableAnnotations schemaPath value
    return walk

end

def visitSchema (schema : JsonObject) (schemaPath : String) (propertyPath : Option (List String)) (walk : Walk) :
    Except String Walk := do
  let walk ← visitAnnotation codecs schema schemaPath propertyPath walk
  visitKeywords codecs schemaPath propertyPath schema walk

def paramHeaderAnnotations (inputSchema : JsonObject) : Except String (List ParamHeaderAnnotation) := do
  let walk ← visitSchema codecs inputSchema "$" none {}
  return walk.annotations

end

/-- Two fallible steps in a row both succeed. -/
theorem except_bind_eq_ok {ε α β : Type} {x : Except ε α} {f : α → Except ε β} {b : β} :
    (x >>= f) = .ok b ↔ ∃ a, x = .ok a ∧ f a = .ok b := by
  rcases x with e | a
  · simp [bind, Except.bind]
  · simp [bind, Except.bind]

end DataPlane.Headers
