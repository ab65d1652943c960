/-
The common pre/post execution path of the plugin runtime: `before` of the three operations, and the
post hook on a response or a progress event. A function that awaits a plugin pipeline is given by
what it does up to the await and how it resumes with the pipeline's result.
-/
import DataPlane.Cpex.Tools
import DataPlane.Cpex.Prompts
import DataPlane.Cpex.Resources

namespace DataPlane.Cpex

open DataPlane.Json

/-! ## The runtime -/

/-- Which of the two hooks of an operation the configuration declares. -/
structure HookPair where
  pre : Bool := false
  post : Bool := false

/-- `GatewayPluginRuntime`, over the type `M` of plugin managers. -/
structure GatewayPluginRuntime (M : Type) where
  manager : M
  hooks : Operation → HookPair

/-- `registry::RuntimeState`. -/
inductive RuntimeState (M : Type) where
  | active (runtime : GatewayPluginRuntime M)
  | failed (error : String)

/-- `GatewayPluginRuntimeHandle::current`. -/
def RuntimeState.current {M : Type} : RuntimeState M → Except ErrorData (GatewayPluginRuntime M)
  | .active runtime => .ok runtime
  | .failed _ => .error (.internalError "Runtime plugin reload failed")

/-- The arguments of `PluginManager::invoke_named`, with the runtime it is called on. -/
structure Invocation (M C : Type) where
  runtime : GatewayPluginRuntime M
  hook : String
  payload : MessagePayload
  contextTable : Option C

/-- A function with at most one await: it returns, or it awaits a pipeline and resumes with its
result. -/
inductive Resumption (M C α : Type) where
  | done (a : α)
  | await (invocation : Invocation M C) (resume : PipelineResult C → α)

/-- `CallState`. -/
structure CallState (M C : Type) where
  runtime : GatewayPluginRuntime M
  contextTable : C
  name : String
  id : String

variable {M C : Type}

def Resumption.map {α β : Type} (f : α → β) : Resumption M C α → Resumption M C β
  | .done a => .done (f a)
  | .await invocation resume => .await invocation fun result => f (resume result)

/-- The correlation id drawn from the counter. -/
def correlationId (operation : Operation) (n : UInt64) : String := s!"{operation.idPrefix}-{n.toNat}"

namespace GatewayPluginRuntime

variable {U : Type} [Inhabited U] (runtime : GatewayPluginRuntime M) (operation : Operation) (name id : String)

/-- The call state `before` keeps for the post hook. -/
def callState (contextTable : C) : Option (CallState M C) :=
  if (runtime.hooks operation).post then some ⟨runtime, contextTable, name, id⟩ else none

/-- `before` from the result of the pre hook on. -/
def resumeBefore (update : MessagePayload → String → Except ErrorData U) (result : PipelineResult C) :
    Except ErrorData (U × Option (CallState M C)) :=
  if result.denied then
    .error (pluginDeniedError operation.subject result)
  else
    match modifiedMessagePayload result with
    | some payload => do .ok (← update payload id, runtime.callState operation name id result.contextTable)
    | none => .ok (default, runtime.callState operation name id result.contextTable)

/-- `GatewayPluginRuntime::before`, from the value of `CORRELATION_ID` to its value after. -/
def before [Inhabited C] (payload : String → MessagePayload)
    (update : MessagePayload → String → Except ErrorData U) (counter : UInt64) :
    Resumption M C (Except ErrorData (U × Option (CallState M C))) × UInt64 :=
  let hooks := runtime.hooks operation
  if !hooks.pre && !hooks.post then
    (.done (.ok (default, none)), counter)
  else
    let id := correlationId operation counter
    let task := if hooks.pre then
        .await ⟨runtime, operation.hooks.1, payload id, none⟩ (runtime.resumeBefore operation name id update)
      else
        .done (.ok (default, runtime.callState operation name id default))
    (task, counter + 1)

end GatewayPluginRuntime

namespace CallState

variable {T : Type}

/-- `CallState::invoke`; the state is passed through. -/
def invoke (cmf : CmfResponse T) (state : CallState M C) (response : T) :
    Resumption M C (Except ErrorData (PipelineResult C) × CallState M C) :=
  match cmf.toPayload response state.name state.id with
  | .error error => .done (.error error, state)
  | .ok payload =>
    .await ⟨state.runtime, cmf.operation.hooks.2, payload, some state.contextTable⟩ fun result =>
      (.ok result, if result.denied then state else { state with contextTable := result.contextTable })

/-- `CallState::apply`. -/
def apply (cmf : CmfResponse T) (state : CallState M C) (response : T) (result : PipelineResult C) :
    Except ErrorData T :=
  match modifiedMessagePayload result with
  | some payload => cmf.applyPayload response payload state.name state.id
  | none => .ok response

/-- `CallState::after`. -/
def after (cmf : CmfResponse T) (state : CallState M C) (response : T) :
    Resumption M C (Except ErrorData T × CallState M C) :=
  (invoke cmf state response).map fun (result, state) =>
    (result.bind fun result =>
      if result.denied then .error (pluginDeniedError cmf.operation.subject result)
      else apply cmf state response result, state)

/-- `ToolHookState::after_stream_event`, once it holds the lock; `none` is a denied event. -/
def afterStreamEvent (cmf : CmfResponse T) (state : CallState M C) (event : T) :
    Resumption M C (Except ErrorData (Option T) × CallState M C) :=
  (invoke cmf state event).map fun (result, state) =>
    (result.bind fun result =>
      if result.denied then .ok none else (apply cmf state event result).map some, state)

end CallState

/-! ## What an invocation leaves -/

theorem Resumption.map_map_except {α β γ : Type} (f : α → β) (g : β → γ) :
    ∀ task : Resumption M C (Except ErrorData α), (task.map (·.map f)).map (·.map g) = task.map (·.map (g ∘ f))
  | .done a => by cases a <;> rfl
  | .await _ resume => by
    simp only [Resumption.map, Resumption.await.injEq, true_and]
    funext result
    cases resume result <;> rfl

/-- The call state after an invocation: a denied one leaves it as it was. -/
def CallState.resumed (state : CallState M C) (result : PipelineResult C) : CallState M C :=
  if result.denied then state else { state with contextTable := result.contextTable }

theorem CallState.invoke_cases {T : Type} (cmf : CmfResponse T) (state : CallState M C) (response : T) :
    (∃ error, state.invoke cmf response = .done (.error error, state)) ∨
    ∃ payload, cmf.toPayload response state.name state.id = .ok payload ∧
      state.invoke cmf response = .await ⟨state.runtime, cmf.operation.hooks.2, payload, some state.contextTable⟩
        fun result => (.ok result, state.resumed result) := by
  unfold CallState.invoke
  cases cmf.toPayload response state.name state.id with
  | error error => exact .inl ⟨error, rfl⟩
  | ok payload => exact .inr ⟨payload, rfl, rfl⟩

/-! ## The three operations -/

/-- `hooks::PreHookResult`. -/
structure PreHookResult (S : Type) where
  arguments : ArgumentsUpdate
  state : Option S

/-- `ResourceHookState`. -/
structure ResourceHookState (M C : Type) where
  rewrittenUri : Option String
  call : Option (CallState M C)

section Before

variable [Inhabited C] (runtime : GatewayPluginRuntime M)

/-- `before_tool_call`, once the runtime is loaded. -/
def beforeToolCall (request : CallToolRequestParams) (toolName backendName : String) (counter : UInt64) :
    Resumption M C (Except ErrorData (PreHookResult (CallState M C))) × UInt64 :=
  let update (payload : MessagePayload) (_ : String) : Except ErrorData ArgumentsUpdate :=
    match toolCallArguments payload with
    | some arguments => .ok (.fromModified request.arguments arguments)
    | none => .error (.invalidParams "Plugin modified tool payload without a tool call")
  let (task, counter) := runtime.before .tool toolName (toolCallPayload request toolName backendName) update counter
  (task.map (·.map fun (arguments, state) => ⟨arguments, state⟩), counter)

/-- `before_get_prompt`, once the runtime is loaded. -/
def beforeGetPrompt (request : GetPromptRequestParams) (promptName backendName : String) (counter : UInt64) :
    Resumption M C (Except ErrorData (PreHookResult (CallState M C))) × UInt64 :=
  let update (payload : MessagePayload) (id : String) : Except ErrorData ArgumentsUpdate :=
    match promptRequestArguments payload promptName backendName id with
    | some arguments => .ok (.fromModified request.arguments arguments)
    | none => .error (.invalidParams "Plugin returned a prompt request the gateway cannot apply")
  let (task, counter) :=
    runtime.before .prompt promptName (promptRequestPayload request promptName backendName) update counter
  (task.map (·.map fun (arguments, state) => ⟨arguments, state⟩), counter)

/-- `before_read_resource`, once the runtime is loaded. -/
def beforeReadResource (resourceUri : String) (counter : UInt64) :
    Resumption M C (Except ErrorData (ResourceHookState M C)) × UInt64 :=
  let update (payload : MessagePayload) (_ : String) : Except ErrorData (Option String) :=
    match payload.message.content with
    | [.resourceRef content] => .ok (some content.uri)
    | _ => .error (.internalError "Plugin returned an invalid resource request")
  let (task, counter) := runtime.before .resource resourceUri (resourceRequestPayload resourceUri) update counter
  (task.map (·.map fun (rewrittenUri, call) => ⟨rewrittenUri, call⟩), counter)

end Before

end DataPlane.Cpex
