/-
The data the plugin runtime works on: CMF messages (what plugins see), MCP results (what backends
send and clients receive), the outcome of a plugin pipeline, and the three hooked operations.
-/
import DataPlane.Json.Value

namespace DataPlane.Cpex

open DataPlane.Json

/-! ## CMF messages -/

/-- `cmf::Role`; the roles the gateway never names are kept by their text. -/
inductive Role where
  | assistant
  | user
  | tool
  | other (name : String)
  deriving DecidableEq

/-- `cmf::ResourceType`; the gateway only ever writes `Uri`. -/
inductive ResourceType where
  | uri
  | other (name : String)
  deriving DecidableEq

/-- `cmf::ToolCall`; a `HashMap` is kept by its entries in iteration order. -/
structure ToolCall where
  toolCallId : String
  name : String
  arguments : JsonObject
  namespace_ : Option String

/-- `cmf::ToolResult`. -/
structure ToolResult where
  toolCallId : String
  toolName : String
  content : Value
  isError : Bool

/-- `cmf::Resource`. -/
structure CmfResource where
  resourceRequestId : String := ""
  uri : String
  name : Option String := none
  description : Option String := none
  resourceType : ResourceType := .uri
  content : Option String := none
  blob : Option (List UInt8) := none
  mimeType : Option String := none
  sizeBytes : Option UInt64 := none
  annotations : JsonObject := []
  version : Option String := none

/-- `cmf::ResourceReference`. -/
structure ResourceReference where
  resourceRequestId : String
  uri : String
  name : Option String
  resourceType : ResourceType
  rangeStart : Option UInt64
  rangeEnd : Option UInt64
  selector : Option String

/-- `cmf::PromptRequest`. -/
structure PromptRequest where
  promptRequestId : String
  name : String
  arguments : JsonObject
  serverId : Option String

/-- `cmf::ImageSource`. -/
structure ImageSource where
  sourceType : String
  data : String
  mediaType : Option String

/-- `cmf::AudioSource`. -/
structure AudioSource where
  sourceType : String
  data : String
  mediaType : Option String
  durationMs : Option UInt64

mutual

/-- `cmf::Message`. -/
structure Message where
  schemaVersion : String
  role : Role
  content : List ContentPart
  channel : Option String

/-- `cmf::ContentPart`; the kinds the gateway never looks into are `other`. -/
inductive ContentPart where
  | text (text : String)
  | toolCall (content : ToolCall)
  | toolResult (content : ToolResult)
  | resource (content : CmfResource)
  | resourceRef (content : ResourceReference)
  | promptRequest (content : PromptRequest)
  | promptResult (content : PromptResult)
  | image (content : ImageSource)
  | audio (content : AudioSource)
  | other (kind : String) (content : Value)

/-- `cmf::PromptResult`. -/
structure PromptResult where
  promptRequestId : String
  promptName : String
  messages : List Message
  content : Option String
  isError : Bool
  errorMessage : Option String

end

/-- `cmf::MessagePayload`. -/
structure MessagePayload where
  message : Message

namespace Message

/-- `Message::get_tool_calls`. -/
def getToolCalls (m : Message) : List ToolCall :=
  m.content.filterMap fun | .toolCall c => some c | _ => none

/-- `Message::get_tool_results`. -/
def getToolResults (m : Message) : List ToolResult :=
  m.content.filterMap fun | .toolResult c => some c | _ => none

/-- `Message::get_prompt_requests`. -/
def getPromptRequests (m : Message) : List PromptRequest :=
  m.content.filterMap fun | .promptRequest c => some c | _ => none

/-- `Message::get_prompt_results`. -/
def getPromptResults (m : Message) : List PromptResult :=
  m.content.filterMap fun | .promptResult c => some c | _ => none

end Message

/-- `SCHEMA_VERSION`. -/
def schemaVersion : String := "2.0"

/-- `message_payload`. -/
def messagePayload (role : Role) (content : List ContentPart) : MessagePayload :=
  ⟨⟨schemaVersion, role, content, none⟩⟩

/-! ## MCP results -/

/-- `rmcp::model::ResourceContents`; it is `#[non_exhaustive]`, the kinds the gateway does not know
are `other`. -/
inductive ResourceContents where
  | text (uri : String) (mimeType : Option String) (text : String) (metadata : Option JsonObject)
  | blob (uri : String) (mimeType : Option String) (blob : String) (metadata : Option JsonObject)
  | other (content : Value)

/-- What every content block carries beside its data: `annotations` and `_meta`. -/
structure BlockExtras where
  annotations : Option Value := none
  metadata : Option JsonObject := none

/-- `rmcp::model::Resource`, the target of a resource link. -/
structure McpResource where
  uri : String
  name : String
  title : Option String := none
  description : Option String := none
  mimeType : Option String := none
  size : Option UInt64 := none
  icons : Option Value := none
  extras : BlockExtras := {}

/-- `rmcp::model::ContentBlock`, `#[non_exhaustive]` as well. -/
inductive ContentBlock where
  | text (text : String) (extras : BlockExtras)
  | image (data : String) (mimeType : String) (extras : BlockExtras)
  | audio (data : String) (mimeType : String) (extras : BlockExtras)
  | resource (resource : ResourceContents) (extras : BlockExtras)
  | resourceLink (link : McpResource)
  | other (content : Value)

/-- `rmcp::model::CallToolResult`. -/
structure CallToolResult where
  content : List ContentBlock
  structuredContent : Option Value := none
  isError : Option Bool := none
  metadata : Option JsonObject := none

/-- `rmcp::ErrorData`. -/
structure ErrorData where
  code : Int
  message : String
  data : Option Value := none

namespace ErrorData

def invalidRequestCode : Int := -32600

/-- `ErrorData::invalid_request`. -/
def invalidRequest (message : String) : ErrorData := { code := invalidRequestCode, message }

/-- `ErrorData::invalid_params`. -/
def invalidParams (message : String) : ErrorData := { code := -32602, message }

/-- `ErrorData::internal_error`. -/
def internalError (message : String) : ErrorData := { code := -32603, message }

end ErrorData

/-! ## Operations and pipelines -/

/-- `cmf::Operation`. -/
inductive Operation where
  | tool
  | prompt
  | resource
  deriving DecidableEq, Repr

namespace Operation

/-- `Operation::hooks`: the pre hook and the post hook. -/
def hooks : Operation → String × String
  | tool => ("cmf.tool_pre_invoke", "cmf.tool_post_invoke")
  | prompt => ("cmf.prompt_pre_fetch", "cmf.prompt_post_fetch")
  | resource => ("cmf.resource_pre_fetch", "cmf.resource_post_fetch")

/-- `Operation::subject`. -/
def subject : Operation → String
  | tool => "tool call"
  | prompt => "prompt"
  | resource => "resource"

/-- `Operation::id_prefix`. -/
def idPrefix : Operation → String
  | tool => "gateway-tool-call"
  | prompt => "gateway-prompt-request"
  | resource => "gateway-resource-request"

end Operation

/-- A plugin's `violation`. -/
structure Violation where
  code : String
  pluginName : Option String
  protoErrorCode : Option Int

/-- A plugin may hand back a payload of its own type, which is not a message. -/
inductive PluginPayload where
  | message (payload : MessagePayload)
  | foreign

/-- `executor::PipelineResult`, over the type `C` of plugin context tables. -/
structure PipelineResult (C : Type) where
  denied : Bool
  modifiedPayload : Option PluginPayload
  violation : Option Violation
  contextTable : C

variable {C : Type}

/-- `modified_message_payload`. -/
def modifiedMessagePayload (result : PipelineResult C) : Option MessagePayload :=
  result.modifiedPayload.bind fun | .message p => some p | .foreign => none

/-- `i32::try_from`. -/
def toI32 (n : Int) : Option Int := if -2147483648 ≤ n ∧ n ≤ 2147483647 then some n else none

/-- `plugin_denied_error`. -/
def pluginDeniedError (subject : String) (result : PipelineResult C) : ErrorData where
  code := ((result.violation.bind (·.protoErrorCode)).bind toI32).getD ErrorData.invalidRequestCode
  message := s!"Plugin denied {subject}"

/-- The projection of a response onto CMF and the application of a plugin's edit to it: the
`CmfResponse` contract. -/
structure CmfResponse (T : Type) where
  operation : Operation
  toPayload : T → String → String → Except ErrorData MessagePayload
  applyPayload : T → MessagePayload → String → String → Except ErrorData T

/-! ## Argument edits -/

/-- `hooks::ArgumentsUpdate`. -/
inductive ArgumentsUpdate where
  | unchanged
  | replace (arguments : Option JsonObject)

instance : Inhabited ArgumentsUpdate := ⟨.unchanged⟩

/-- `ArgumentsUpdate::from_modified`. -/
def ArgumentsUpdate.fromModified (original : Option JsonObject) (modified : JsonObject) : ArgumentsUpdate :=
  match original with
  | some o => if JsonObject.same o modified then .unchanged else .replace (some modified)
  | none => if modified.isEmpty then .unchanged else .replace (some modified)

/-- `ArgumentsUpdate::apply_to`. -/
def ArgumentsUpdate.applyTo (arguments : Option JsonObject) : ArgumentsUpdate → Option JsonObject
  | .unchanged => arguments
  | .replace replacement => replacement

end DataPlane.Cpex
