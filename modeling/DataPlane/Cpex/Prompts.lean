/-
Rendered prompts under plugins: a rendered prompt is shown to a plugin as one CMF message per MCP
message, and the plugin's edit is written back. Writing back is a well-behaved lens: an unedited
prompt comes back as the backend sent it, what is accepted is what the plugin sees on a second
look, unedited messages keep what CMF cannot express, and an edit is accepted exactly when MCP can
say it.
-/
import DataPlane.Cpex.Cmf
import DataPlane.Lib.Lens

namespace DataPlane.Cpex

open DataPlane.Json

/-! ## MCP prompts -/

/-- `rmcp::model::Role`. -/
inductive McpRole where
  | assistant
  | user
  deriving DecidableEq

/-- `rmcp::model::PromptMessage`. -/
structure PromptMessage where
  role : McpRole
  content : ContentBlock

/-- `rmcp::model::GetPromptResult`. -/
structure GetPromptResult where
  description : Option String
  messages : List PromptMessage
  metadata : Option JsonObject

/-- `rmcp::model::GetPromptRequestParams`, as far as the hooks read it. -/
structure GetPromptRequestParams where
  name : String
  arguments : Option JsonObject

/-! ## Conversions -/

/-- `prompt_request_payload`. -/
def promptRequestPayload (request : GetPromptRequestParams) (promptName backendName promptRequestId : String) :
    MessagePayload :=
  messagePayload .user
    [.promptRequest ⟨promptRequestId, promptName, request.arguments.getD [], some backendName⟩]

/-- `prompt_request_arguments`. -/
def promptRequestArguments (payload : MessagePayload) (promptName backendName promptRequestId : String) :
    Option JsonObject :=
  match payload.message.getPromptRequests with
  | [request] =>
    if request.name ≠ promptName ∨ request.promptRequestId ≠ promptRequestId ∨
        request.serverId ≠ some backendName then
      none
    else some request.arguments
  | _ => none

/-- The CMF resource that stands for an embedded one. -/
def embeddedResource (promptRequestId uri : String) (mimeType content : Option String) : ContentPart :=
  .resource { resourceRequestId := promptRequestId, uri, resourceType := .uri, content, mimeType }

/-- `cmf_content_part`. -/
def cmfContentPart (block : ContentBlock) (promptRequestId : String) : Option ContentPart :=
  match block with
  | .text text _ => some (.text text)
  | .image data mimeType _ => some (.image ⟨"base64", data, some mimeType⟩)
  | .audio data mimeType _ => some (.audio ⟨"base64", data, some mimeType, none⟩)
  | .resource (.text uri mimeType text _) _ => some (embeddedResource promptRequestId uri mimeType (some text))
  | .resource (.blob uri mimeType _ _) _ => some (embeddedResource promptRequestId uri mimeType none)
  | .resource (.other _) _ => none
  | .resourceLink link => some (.resourceRef ⟨promptRequestId, link.uri, some link.name, .uri, none, none, none⟩)
  | .other _ => none

/-- `cmf_prompt_message`. -/
def cmfPromptMessage (message : PromptMessage) (promptRequestId : String) : Message where
  schemaVersion := "2.0"
  role := match message.role with
    | .assistant => .assistant
    | .user => .user
  content := (cmfContentPart message.content promptRequestId).toList
  channel := none

/-- `prompt_result_payload`. -/
def promptResultPayload (response : GetPromptResult) (promptName promptRequestId : String) : MessagePayload :=
  messagePayload .assistant
    [.promptResult ⟨promptRequestId, promptName, response.messages.map (cmfPromptMessage · promptRequestId),
      none, false, none⟩]

/-- `prompt_result`. -/
def promptResult (payload : MessagePayload) : Option PromptResult :=
  match payload.message.getPromptResults with
  | [result] => some result
  | _ => none

/-- `prompt_result_rejection`. -/
def promptResultRejection (payload : MessagePayload) : Option String := do
  let result ← promptResult payload
  if result.isError then some (result.errorMessage.getD "Plugin rejected the rendered prompt") else none

/-- `inline_media_data`. -/
def inlineMediaData (sourceType data : String) : Option String :=
  if sourceType = "base64" then some data else none

/-- The role `mcp_prompt_message` reads. -/
def mcpRole : Role → Option McpRole
  | .assistant => some .assistant
  | .user => some .user
  | _ => none

/-- The block `mcp_prompt_message` reads. -/
def mcpContentBlock : ContentPart → Option ContentBlock
  | .text text => some (.text text {})
  | .image content => do
    some (.image (← inlineMediaData content.sourceType content.data) (← content.mediaType) {})
  | .audio content => do
    some (.audio (← inlineMediaData content.sourceType content.data) (← content.mediaType) {})
  | .resource content => do some (.resource (.text content.uri content.mimeType (← content.content) none) {})
  | .resourceRef content => do some (.resourceLink { uri := content.uri, name := ← content.name })
  | _ => none

/-- `mcp_prompt_message`. -/
def mcpPromptMessage (message : Message) : Option PromptMessage := do
  let role ← mcpRole message.role
  match message.content with
  | [part] => some ⟨role, ← mcpContentBlock part⟩
  | _ => none

section WriteBack

-- `V` stands for JSON values up to the equality the loop tests
variable {V : Type} [DecidableEq V] (toValue : Message → Option V)

/-- One round of the loop of `prompt_result_response`. -/
def writeBackMessage (promptRequestId : String) (message : PromptMessage) (edited : Message) :
    Option PromptMessage := do
  if (← toValue (cmfPromptMessage message promptRequestId)) = (← toValue edited) then
    some message
  else
    let rebuilt ← mcpPromptMessage edited
    if (← toValue (cmfPromptMessage rebuilt promptRequestId)) ≠ (← toValue edited) then none else some rebuilt

/-- `prompt_result_response`. -/
def promptResultResponse (original : GetPromptResult) (payload : MessagePayload)
    (promptName promptRequestId : String) : Option GetPromptResult := do
  let result ← promptResult payload
  if result.promptName ≠ promptName ∨ result.promptRequestId ≠ promptRequestId ∨ result.content.isSome ∨
      result.errorMessage.isSome then
    none
  else if result.messages.length ≠ original.messages.length then
    none
  else
    let messages ← Lens.putAll (writeBackMessage toValue promptRequestId) original.messages result.messages
    some { original with messages }

/-- `impl CmfResponse for GetPromptResult`. -/
def getPromptResultCmf : CmfResponse GetPromptResult where
  operation := .prompt
  toPayload response name id := .ok (promptResultPayload response name id)
  applyPayload response payload name id :=
    match promptResultRejection payload with
    | some message => .error (.invalidRequest message)
    | none => match promptResultResponse toValue response payload name id with
      | some response => .ok response
      | none => .error (.internalError "Plugin returned a prompt result the gateway cannot apply")

end WriteBack

/-! ## What MCP can say -/

/-- The blocks an edited message may be rebuilt to: text, image, audio, an embedded text resource or
a resource link. -/
inductive Expressible : ContentBlock → Prop where
  | text (text : String) (extras : BlockExtras) : Expressible (.text text extras)
  | image (data mimeType : String) (extras : BlockExtras) : Expressible (.image data mimeType extras)
  | audio (data mimeType : String) (extras : BlockExtras) : Expressible (.audio data mimeType extras)
  | resource (uri : String) (mimeType : Option String) (text : String) (metadata : Option JsonObject)
      (extras : BlockExtras) : Expressible (.resource (.text uri mimeType text metadata) extras)
  | resourceLink (link : McpResource) : Expressible (.resourceLink link)

theorem mcpContentBlock_expressible {part : ContentPart} {block : ContentBlock}
    (h : mcpContentBlock part = some block) : Expressible block := by
  cases part with
  | text =>
    cases h
    exact .text _ _
  | image =>
    simp only [mcpContentBlock, Option.bind_eq_bind, Option.bind_eq_some_iff, Option.some.injEq] at h
    obtain ⟨_, -, _, -, rfl⟩ := h
    exact .image _ _ _
  | audio =>
    simp only [mcpContentBlock, Option.bind_eq_bind, Option.bind_eq_some_iff, Option.some.injEq] at h
    obtain ⟨_, -, _, -, rfl⟩ := h
    exact .audio _ _ _
  | resource =>
    simp only [mcpContentBlock, Option.bind_eq_bind, Option.bind_eq_some_iff, Option.some.injEq] at h
    obtain ⟨_, -, rfl⟩ := h
    exact .resource _ _ _ _ _
  | resourceRef =>
    simp only [mcpContentBlock, Option.bind_eq_bind, Option.bind_eq_some_iff, Option.some.injEq] at h
    obtain ⟨_, -, rfl⟩ := h
    exact .resourceLink _
  | _ => cases h

theorem mcpPromptMessage_expressible {edited : Message} {message : PromptMessage}
    (h : mcpPromptMessage edited = some message) : Expressible message.content := by
  simp only [mcpPromptMessage, Option.bind_eq_bind, Option.bind_eq_some_iff] at h
  obtain ⟨role, -, h⟩ := h
  split at h
  · simp only [Option.bind_eq_some_iff, Option.some.injEq] at h
    obtain ⟨block, hb, rfl⟩ := h
    exact mcpContentBlock_expressible hb
  · cases h

/-- The two halves of the codec agree: the projection of an expressible message is rebuilt to a
message with that projection. -/
theorem mcpPromptMessage_projection {message : PromptMessage} (promptRequestId : String)
    (h : Expressible message.content) :
    ∃ rebuilt, mcpPromptMessage (cmfPromptMessage message promptRequestId) = some rebuilt ∧
      cmfPromptMessage rebuilt promptRequestId = cmfPromptMessage message promptRequestId := by
  obtain ⟨role, content⟩ := message
  cases role <;> cases h <;> exact ⟨_, rfl, rfl⟩

/-! ## The lens -/

/-- What the write-back relies on of `serde_json`: messages serialize, and a message that
serializes like the projection of a prompt message is that projection. -/
structure SerializeLaws {V : Type} (toValue : Message → Option V) : Prop where
  total : ∀ m, ∃ v, toValue m = some v
  faithful : ∀ (message : PromptMessage) (promptRequestId : String) (m : Message),
    toValue m = toValue (cmfPromptMessage message promptRequestId) → m = cmfPromptMessage message promptRequestId

section Laws

variable {V : Type} {toValue : Message → Option V}

theorem SerializeLaws.eq_iff (laws : SerializeLaws toValue) {message : PromptMessage} {promptRequestId : String}
    {m : Message} {v w : V} (hv : toValue (cmfPromptMessage message promptRequestId) = some v)
    (hw : toValue m = some w) : v = w ↔ cmfPromptMessage message promptRequestId = m := by
  constructor
  · rintro rfl; exact (laws.faithful _ _ _ (hw.trans hv.symm)).symm
  · intro h; rw [h, hw] at hv; exact (Option.some.inj hv).symm

variable [DecidableEq V]

theorem writeBackMessage_eq (laws : SerializeLaws toValue) (promptRequestId : String) (message : PromptMessage)
    (edited : Message) : writeBackMessage toValue promptRequestId message edited =
      Lens.put (cmfPromptMessage · promptRequestId) mcpPromptMessage message edited := by
  obtain ⟨v, hv⟩ := laws.total (cmfPromptMessage message promptRequestId)
  obtain ⟨w, hw⟩ := laws.total edited
  unfold writeBackMessage Lens.put
  simp only [hv, hw, Option.bind_eq_bind, Option.bind_some]
  by_cases hvw : v = w
  · rw [if_pos hvw, if_pos ((laws.eq_iff hv hw).mp hvw)]
  · rw [if_neg hvw, if_neg (fun h => hvw ((laws.eq_iff hv hw).mpr h))]
    cases mcpPromptMessage edited with
    | none => rfl
    | some rebuilt =>
      obtain ⟨u, hu⟩ := laws.total (cmfPromptMessage rebuilt promptRequestId)
      simp only [Option.bind_some, hu]
      by_cases huw : u = w
      · rw [if_neg (not_not.mpr huw), if_pos ((laws.eq_iff hu hw).mp huw)]
      · rw [if_pos huw, if_neg (fun h => huw ((laws.eq_iff hu hw).mpr h))]

/-- The envelope of an edit the write-back can apply. -/
structure Envelope (payload : MessagePayload) (promptName promptRequestId : String) (count : Nat)
    (result : PromptResult) : Prop where
  only : payload.message.getPromptResults = [result]
  name : result.promptName = promptName
  id : result.promptRequestId = promptRequestId
  content : result.content = none
  errorMessage : result.errorMessage = none
  count : result.messages.length = count

theorem promptResult_eq_some {payload : MessagePayload} {result : PromptResult} :
    promptResult payload = some result ↔ payload.message.getPromptResults = [result] := by
  unfold promptResult
  split
  · rename_i r h; simp [h]
  · rename_i h
    constructor
    · intro h'; cases h'
    · intro h'; exact absurd h' (h result)

theorem promptResultResponse_eq_some (laws : SerializeLaws toValue) {original response : GetPromptResult}
    {payload : MessagePayload} {promptName promptRequestId : String} :
    promptResultResponse toValue original payload promptName promptRequestId = some response ↔
      ∃ result, Envelope payload promptName promptRequestId original.messages.length result ∧
        ∃ messages, Lens.putAll (Lens.put (cmfPromptMessage · promptRequestId) mcpPromptMessage)
          original.messages result.messages = some messages ∧ response = { original with messages } := by
  have hput : writeBackMessage toValue promptRequestId =
      Lens.put (cmfPromptMessage · promptRequestId) mcpPromptMessage :=
    funext₂ (writeBackMessage_eq laws promptRequestId)
  simp only [promptResultResponse, hput, Option.bind_eq_bind, Option.bind_eq_some_iff, promptResult_eq_some]
  constructor
  · rintro ⟨result, honly, h⟩
    split at h
    · cases h
    · rename_i henv
      simp only [not_or, not_not, Option.not_isSome_iff_eq_none] at henv
      obtain ⟨hn, hi, hc, he⟩ := henv
      split at h
      · cases h
      · rename_i hlen
        simp only [Option.bind_eq_some_iff, Option.some.injEq] at h
        obtain ⟨messages, hm, rfl⟩ := h
        exact ⟨result, ⟨honly, hn, hi, hc, he, not_not.mp hlen⟩, messages, hm, rfl⟩
  · rintro ⟨result, env, messages, hm, rfl⟩
    refine ⟨result, env.only, ?_⟩
    simp [env.name, env.id, env.content, env.errorMessage, env.count, hm]

/-- A message can be put in place of another when it is the projection of that one or of some
expressible message. -/
theorem put_promptMessage_isSome (promptRequestId : String) (message : PromptMessage) (edited : Message) :
    (∃ t, Lens.put (cmfPromptMessage · promptRequestId) mcpPromptMessage message edited = some t) ↔
      edited = cmfPromptMessage message promptRequestId ∨
        ∃ other : PromptMessage, Expressible other.content ∧ edited = cmfPromptMessage other promptRequestId := by
  rw [Lens.put_isSome]
  apply or_congr_right
  constructor
  · rintro ⟨t, ht, rfl⟩
    exact ⟨t, mcpPromptMessage_expressible ht, rfl⟩
  · rintro ⟨other, hx, rfl⟩
    exact mcpPromptMessage_projection promptRequestId hx

/-- Writing a plugin's edit of a rendered prompt back is a well-behaved lens. An unedited prompt
comes back unchanged; an accepted edit is what a second projection shows, and keeps every message
the plugin left alone and everything of the result beside its messages; an edit is accepted exactly
when its envelope is that of the projection and each message is the projection of the original one
or of some expressible message. -/
theorem promptResultResponse_lens (laws : SerializeLaws toValue) (original : GetPromptResult)
    (promptName promptRequestId : String) :
    promptResultResponse toValue original (promptResultPayload original promptName promptRequestId)
        promptName promptRequestId = some original ∧
    (∀ payload response,
      promptResultResponse toValue original payload promptName promptRequestId = some response →
        ∃ result, promptResult payload = some result ∧
          response.messages.map (cmfPromptMessage · promptRequestId) = result.messages ∧
          (∀ (i : Nat) message, original.messages[i]? = some message →
            result.messages[i]? = some (cmfPromptMessage message promptRequestId) →
              response.messages[i]? = some message) ∧
          response = { original with messages := response.messages }) ∧
    (∀ payload,
      (∃ response, promptResultResponse toValue original payload promptName promptRequestId = some response) ↔
        ∃ result, Envelope payload promptName promptRequestId original.messages.length result ∧
          List.Forall₂ (fun message edited => edited = cmfPromptMessage message promptRequestId ∨
            ∃ other : PromptMessage, Expressible other.content ∧ edited = cmfPromptMessage other promptRequestId)
            original.messages result.messages) := by
  refine ⟨?_, ?_, ?_⟩
  · rw [promptResultResponse_eq_some laws]
    refine ⟨_, ⟨rfl, rfl, rfl, rfl, rfl, by simp⟩, original.messages, ?_, rfl⟩
    apply Lens.putAll_view
  · intro payload response h
    obtain ⟨result, env, messages, hm, rfl⟩ := (promptResultResponse_eq_some laws).mp h
    have hlen := env.count.symm
    refine ⟨result, promptResult_eq_some.mpr env.only, Lens.view_putAll hlen hm, ?_, rfl⟩
    intro i message ho he
    exact Lens.putAll_kept hlen hm i message ho he
  · intro payload
    have hedit := put_promptMessage_isSome promptRequestId
    constructor
    · rintro ⟨response, h⟩
      obtain ⟨result, env, messages, hm, -⟩ := (promptResultResponse_eq_some laws).mp h
      have := (Lens.putAll_isSome env.count.symm).mp ⟨messages, hm⟩
      exact ⟨result, env, this.imp fun _ _ => (hedit _ _).mp⟩
    · rintro ⟨result, env, hall⟩
      obtain ⟨messages, hm⟩ := (Lens.putAll_isSome env.count.symm).mpr (hall.imp fun _ _ => (hedit _ _).mpr)
      exact ⟨_, (promptResultResponse_eq_some laws).mpr ⟨result, env, messages, hm, rfl⟩⟩

end Laws

/-! ## A serializer -/

def optionJson {α : Type} (render : α → Value) : Option α → Value
  | none => .null
  | some a => .array [render a]

def Role.json : Role → Value
  | .assistant => .string "assistant"
  | .user => .string "user"
  | .tool => .string "tool"
  | .other name => .array [.string name]

def ResourceType.json : ResourceType → Value
  | .uri => .string "uri"
  | .other name => .array [.string name]

mutual

/-- A message as JSON, field by field. -/
def Message.json : Message → Value
  | ⟨version, role, content, channel⟩ => .object [("schema_version", .string version), ("role", role.json),
    ("content", .array (partsJson content)), ("channel", optionJson .string channel)]

def partsJson : List ContentPart → List Value
  | [] => []
  | part :: parts => part.json :: partsJson parts

def ContentPart.json : ContentPart → Value
  | .text text => .object [("text", .string text)]
  | .toolCall c => .object [("tool_call_id", .string c.toolCallId), ("name", .string c.name),
    ("arguments", .object c.arguments), ("namespace", optionJson .string c.namespace_)]
  | .toolResult c => .object [("tool_call_id", .string c.toolCallId), ("tool_name", .string c.toolName),
    ("content", c.content), ("is_error", .bool c.isError)]
  | .resource c => .object [("resource_request_id", .string c.resourceRequestId), ("uri", .string c.uri),
    ("name", optionJson .string c.name), ("description", optionJson .string c.description),
    ("resource_type", c.resourceType.json), ("content", optionJson .string c.content),
    ("blob", optionJson (fun b => .array (b.map fun x => .number (.posInt x.toUInt64))) c.blob),
    ("mime_type", optionJson .string c.mimeType), ("size_bytes", optionJson (.number ∘ .posInt) c.sizeBytes),
    ("annotations", .object c.annotations), ("version", optionJson .string c.version)]
  | .resourceRef c => .object [("resource_request_id", .string c.resourceRequestId), ("uri", .string c.uri),
    ("name", optionJson .string c.name), ("resource_type", c.resourceType.json),
    ("range_start", optionJson (.number ∘ .posInt) c.rangeStart),
    ("range_end", optionJson (.number ∘ .posInt) c.rangeEnd), ("selector", optionJson .string c.selector)]
  | .promptRequest c => .object [("prompt_request_id", .string c.promptRequestId), ("name", .string c.name),
    ("arguments", .object c.arguments), ("server_id", optionJson .string c.serverId)]
  | .promptResult c => .object [("prompt_result", c.json)]
  | .image c => .object [("source_type", .string c.sourceType), ("data", .string c.data),
    ("media_type", optionJson .string c.mediaType)]
  | .audio c => .object [("source_type", .string c.sourceType), ("data", .string c.data),
    ("media_type", optionJson .string c.mediaType), ("duration_ms", optionJson (.number ∘ .posInt) c.durationMs)]
  | .other kind content => .array [.string kind, content]

def PromptResult.json : PromptResult → Value
  | ⟨id, name, messages, content, isError, errorMessage⟩ => .object [("prompt_request_id", .string id),
    ("prompt_name", .string name), ("messages", .array (messagesJson messages)),
    ("content", optionJson .string content), ("is_error", .bool isError),
    ("error_message", optionJson .string errorMessage)]

def messagesJson : List Message → List Value
  | [] => []
  | message :: messages => message.json :: messagesJson messages

end

theorem optionJson_inj {α : Type} {render : α → Value} (h : ∀ a b, render a = render b → a = b) :
    ∀ {a b : Option α}, optionJson render a = optionJson render b → a = b
  | none, none, _ => rfl
  | some a, some b, e => by
    simp only [optionJson, Value.array.injEq, List.cons.injEq, and_true] at e
    rw [h a b e]

@[simp] theorem optionJson_string_inj {a b : Option String} :
    optionJson .string a = optionJson .string b ↔ a = b :=
  ⟨optionJson_inj fun _ _ => Value.string.inj, congrArg _⟩

@[simp] theorem optionJson_none {α : Type} {render : α → Value} : optionJson render none = .null := rfl

@[simp] theorem optionJson_eq_null {α : Type} {render : α → Value} {a : Option α} :
    optionJson render a = .null ↔ a = none := by
  cases a <;> simp [optionJson]

@[simp] theorem Role.json_inj {a b : Role} : a.json = b.json ↔ a = b := by
  cases a <;> cases b <;> simp [Role.json]

@[simp] theorem ResourceType.json_uri {a : ResourceType} : a.json = ResourceType.uri.json ↔ a = .uri := by
  cases a <;> simp [ResourceType.json]

theorem partsJson_eq_nil : ∀ {parts : List ContentPart}, partsJson parts = [] → parts = []
  | [], _ => rfl

theorem partsJson_eq_singleton : ∀ {parts : List ContentPart} {part : ContentPart},
    partsJson parts = partsJson [part] → ∃ p, parts = [p] ∧ p.json = part.json
  | [], _, h => by simp [partsJson] at h
  | p :: ps, _, h => by
    simp only [partsJson, List.cons.injEq] at h
    exact ⟨p, by rw [partsJson_eq_nil h.2], h.1⟩

/-- A part that renders like a projected one is that part. -/
theorem ContentPart.json_faithful {part other : ContentPart} {block : ContentBlock} {promptRequestId : String}
    (hp : cmfContentPart block promptRequestId = some part) (h : other.json = part.json) : other = part := by
  -- each kind of part has its own field names, so only the part of the same kind is left
  unfold cmfContentPart at hp
  split at hp <;> cases hp
  · cases other with
    | text _ => simpa [json] using h
    | _ => simp [json] at h
  · cases other with
    | image c => obtain ⟨_, _, _⟩ := c; simpa [json] using h
    | _ => simp [json] at h
  · cases other with
    | audio c => obtain ⟨_, _, _, _⟩ := c; simpa [json] using h
    | _ => simp [json] at h
  · cases other with
    | resource c => obtain ⟨_, _, _⟩ := c; simpa [json, embeddedResource] using h
    | _ => simp [json, embeddedResource] at h
  · cases other with
    | resource c => obtain ⟨_, _, _⟩ := c; simpa [json, embeddedResource] using h
    | _ => simp [json, embeddedResource] at h
  · cases other with
    | resourceRef c => obtain ⟨_, _, _, _⟩ := c; simpa [json] using h
    | _ => simp [json] at h

theorem Message.json_faithful (message : PromptMessage) (promptRequestId : String) :
    ∀ m : Message, m.json = (cmfPromptMessage message promptRequestId).json → m = cmfPromptMessage message promptRequestId
  | ⟨version, role, content, channel⟩, h => by
    unfold cmfPromptMessage at h ⊢
    simp only [json, Value.object.injEq, List.cons.injEq, Prod.mk.injEq, true_and, and_true, Value.string.injEq,
      Role.json_inj, Value.array.injEq, optionJson_none, optionJson_eq_null] at h
    obtain ⟨rfl, rfl, hc, rfl⟩ := h
    cases hp : cmfContentPart message.content promptRequestId with
    | none =>
      rw [hp] at hc
      rw [partsJson_eq_nil hc]; rfl
    | some part =>
      rw [hp] at hc
      obtain ⟨p, rfl, hj⟩ := partsJson_eq_singleton hc
      rw [ContentPart.json_faithful hp hj]; rfl

theorem serializeLaws_json : SerializeLaws fun m => some m.json where
  total m := ⟨m.json, rfl⟩
  faithful message id m h := Message.json_faithful message id m (Option.some.inj h)

open Classical in
/-- A prompt with an annotated image and a binary resource comes back whole when no plugin edits it. -/
theorem promptResultResponse_lens_image :
    let image : PromptMessage := ⟨.user, .image "aGk=" "image/png" ⟨some (.string "low"), none⟩⟩
    let binary : PromptMessage := ⟨.assistant, .resource (.blob "file:///a" none "AAE=" none) {}⟩
    let original : GetPromptResult := ⟨some "greeting", [image, binary], none⟩
    promptResultResponse (fun m => some m.json) original (promptResultPayload original "p" "id-1") "p" "id-1" =
      some original :=
  (promptResultResponse_lens serializeLaws_json _ "p" "id-1").1

end DataPlane.Cpex
