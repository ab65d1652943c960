/-
Tool calls under plugins: what a tool call, its result and its progress events look like to a
plugin, and how a plugin's edit is written back. The edit of a progress event is a function of the
edited payload alone. The edit of a tool result is so exactly when the payload still holds a tool
result; without one the backend's original goes back to the client.
-/
import DataPlane.Cpex.Cmf

namespace DataPlane.Cpex

open DataPlane.Json

/-! ## Conversions -/

/-- `rmcp::model::CallToolRequestParams`, as far as the hooks read it. -/
structure CallToolRequestParams where
  name : String
  arguments : Option JsonObject

/-- What the conversions take from `serde_json`, `rmcp` and `cpex_core`. -/
structure ToolLib where
  /-- `serde_json::to_value` of a tool result. -/
  toValue : CallToolResult → Option Value
  /-- `serde_json::from_value` to a tool result. -/
  fromValue : Value → Option CallToolResult
  /-- `Message::get_text_content`. -/
  getTextContent : Message → String
  /-- `CallToolResult::success`, `error`, `structured` and `structured_error`. -/
  success : List ContentBlock → CallToolResult
  error : List ContentBlock → CallToolResult
  structured : Value → CallToolResult
  structuredError : Value → CallToolResult

/-- `ContentBlock::text`. -/
def ContentBlock.ofText (text : String) : ContentBlock := .text text {}

/-- `tool_call_payload`. -/
def toolCallPayload (request : CallToolRequestParams) (toolName backendName toolCallId : String) : MessagePayload :=
  messagePayload .assistant
    [.toolCall ⟨toolCallId, toolName, request.arguments.getD [], some backendName⟩]

/-- `tool_json_result_payload`. -/
def toolJsonResultPayload (toolName : String) (content : Value) (isError : Bool) (toolCallId : String) :
    MessagePayload :=
  messagePayload .tool [.toolResult ⟨toolCallId, toolName, content, isError⟩]

/-- `tool_result_payload`. -/
def toolResultPayload (lib : ToolLib) (toolName : String) (response : CallToolResult) (toolCallId : String) :
    MessagePayload :=
  toolJsonResultPayload toolName ((lib.toValue response).getD .null) (response.isError.getD false) toolCallId

/-- `tool_result_content`. -/
def toolResultContent (payload : MessagePayload) : Option Value :=
  payload.message.getToolResults.head?.map (·.content)

/-- `tool_call_arguments`. -/
def toolCallArguments (payload : MessagePayload) : Option JsonObject :=
  payload.message.getToolCalls.head?.map (·.arguments)

/-- `raw_tool_result`. -/
def rawToolResult (lib : ToolLib) : Value → Bool → CallToolResult
  | .string text, false => lib.success [.ofText text]
  | .string text, true => lib.error [.ofText text]
  | value, false => lib.structured value
  | value, true => lib.structuredError value

/-- The tool result a plugin wrote into the payload, read back as an MCP result. -/
def editedToolResult (lib : ToolLib) (toolResult : ToolResult) : CallToolResult :=
  match lib.fromValue toolResult.content with
  | none => rawToolResult lib toolResult.content toolResult.isError
  | some result => { result with isError := some toolResult.isError }

/-- The text parts of the payload, pushed behind the content. -/
def pushText (text : String) (result : CallToolResult) : CallToolResult :=
  if text.isEmpty then result else { result with content := result.content ++ [.ofText text] }

/-- `tool_result_response`. -/
def toolResultResponse (lib : ToolLib) (original : CallToolResult) (payload : MessagePayload) : CallToolResult :=
  let result := match payload.message.getToolResults.head? with
    | none => original
    | some toolResult => editedToolResult lib toolResult
  pushText (lib.getTextContent payload.message) result

/-- `impl CmfResponse for CallToolResult`. -/
def callToolResultCmf (lib : ToolLib) : CmfResponse CallToolResult where
  operation := .tool
  toPayload response name id := .ok (toolResultPayload lib name response id)
  applyPayload response payload _ _ := .ok (toolResultResponse lib response payload)

/-- `impl CmfResponse for ToolEvent<T>`, for an event type with its own serialization; the parse
error of `from_value` is carried in the message. -/
def toolEventCmf {T : Type} (toValue : T → Option Value) (fromValue : Value → Except String T) : CmfResponse T where
  operation := .tool
  toPayload event name id := .ok (toolJsonResultPayload name ((toValue event).getD .null) false id)
  applyPayload _ payload _ _ := do
    let some content := toolResultContent payload
      | throw (.invalidParams "Plugin modified stream event payload without a tool result")
    match fromValue content with
    | .ok event => pure event
    | .error error =>
      throw (.invalidParams s!"Plugin modified stream event payload with invalid JSON: {error}")

/-! ## Whose content the client receives -/

/-- What the client receives after an edit depends on the edited payload alone: no two backend
responses can be told apart through it. -/
def Determined {T : Type} (cmf : CmfResponse T) (payload : MessagePayload) (name id : String) : Prop :=
  ∀ original original' : T, cmf.applyPayload original payload name id = cmf.applyPayload original' payload name id

theorem pushText_isError (text : String) (result : CallToolResult) :
    (pushText text result).isError = result.isError := by
  unfold pushText; split <;> rfl

theorem toolResultResponse_of_ne (lib : ToolLib) {payload : MessagePayload}
    (h : payload.message.getToolResults ≠ []) (original original' : CallToolResult) :
    toolResultResponse lib original payload = toolResultResponse lib original' payload := by
  unfold toolResultResponse
  cases hr : payload.message.getToolResults with
  | nil => exact absurd hr h
  | cons toolResult rest => rfl

theorem toolResultResponse_of_nil (lib : ToolLib) {payload : MessagePayload}
    (h : payload.message.getToolResults = []) (original : CallToolResult) :
    toolResultResponse lib original payload = pushText (lib.getTextContent payload.message) original := by
  unfold toolResultResponse; rw [h]; rfl

/-- The edit of a tool result is a function of the payload exactly when the payload still holds a
tool-result part. -/
theorem callToolResult_determined_iff (lib : ToolLib) (payload : MessagePayload) (name id : String) :
    Determined (callToolResultCmf lib) payload name id ↔ payload.message.getToolResults ≠ [] := by
  constructor
  · intro h hnil
    -- two originals that differ in the error flag, which no pushed text changes
    have he : (toolResultResponse lib ⟨[], none, none, none⟩ payload).isError =
        (toolResultResponse lib ⟨[], none, some true, none⟩ payload).isError := by
      rw [Except.ok.inj (h ⟨[], none, none, none⟩ ⟨[], none, some true, none⟩)]
    rw [toolResultResponse_of_nil lib hnil, toolResultResponse_of_nil lib hnil, pushText_isError,
      pushText_isError] at he
    cases he
  · intro h original original'
    exact congrArg Except.ok (toolResultResponse_of_ne lib h original original')

/-- Serialization left out; the text of a message is that of its text parts. -/
def plainToolLib : ToolLib where
  toValue _ := none
  fromValue _ := none
  getTextContent m := String.intercalate "\n" (m.content.filterMap fun | .text t => some t | _ => none)
  success content := { content, isError := some false }
  error content := { content, isError := some true }
  structured value := { content := [], structuredContent := some value, isError := some false }
  structuredError value := { content := [], structuredContent := some value, isError := some true }

/-- A plugin that drops the tool result from the payload: the unredacted original reaches the
client, and two backend results stay distinct. -/
theorem callToolResult_emptied_payload :
    (callToolResultCmf plainToolLib).applyPayload ⟨[.ofText "password=hunter2"], none, some false, none⟩
        (messagePayload .tool []) "sum" "gateway-tool-call-1" =
      .ok ⟨[.ofText "password=hunter2"], none, some false, none⟩ ∧
    ¬ ∀ (payload : MessagePayload) (name id : String),
      Determined (callToolResultCmf plainToolLib) payload name id := by
  refine ⟨rfl, fun h => ?_⟩
  have h' := Except.ok.inj (h (messagePayload .tool []) "sum" "gateway-tool-call-1"
    ⟨[.ofText "password=hunter2"], none, some false, none⟩ ⟨[], none, some false, none⟩)
  have hc : [ContentBlock.ofText "password=hunter2"] = [] := congrArg CallToolResult.content h'
  cases hc

end DataPlane.Cpex
