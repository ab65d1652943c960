/-
The four routed handlers of the gateway: `call_tool`, `get_prompt`, `read_resource` and `complete`.
Routing is default-deny: whatever the plugins return, a handler contacts a backend only along a
route published in the caller's virtual host, and the order in which a map iterates has no influence.
-/
import DataPlane.Cpex.Runtime
import DataPlane.Headers.Params
import DataPlane.Lib.Logged
import Mathlib.Data.List.AList

namespace DataPlane.Gateway

open DataPlane.Json DataPlane.Cpex DataPlane.Headers

/-! ## The published configuration -/

/-- A `HashMap`: unique keys, entries in iteration order. -/
abbrev HashMap (K V : Type) := AList fun _ : K => V

/-- `HashMap::values`. -/
def HashMap.values {K V : Type} (map : HashMap K V) : List V := map.entries.map (·.2)

/-- `BackendMCPGateway`, as far as the handlers read it. -/
structure BackendMCPGateway where
  name : String
  url : String
  toolSchemas : HashMap String JsonObject

/-- `ServiceRoute`. -/
structure ServiceRoute where
  backendName : String
  upstreamName : String
  deriving DecidableEq

/-- `VirtualHost`. -/
structure VirtualHost where
  backends : HashMap String BackendMCPGateway
  tools : HashMap String ServiceRoute
  resources : HashMap String ServiceRoute
  resourceTemplates : HashMap String ServiceRoute
  prompts : HashMap String ServiceRoute

/-- `UserConfig`. -/
structure UserConfig where
  virtualHosts : HashMap String VirtualHost

/-- The extensions of the HTTP request's `Parts`. -/
structure Parts where
  headers : HeaderMap
  userConfig : Option UserConfig
  claims : Option Value
  virtualHostId : Option String

/-- `RequestContext`, with whether its protocol version is at least `STANDARD_HEADERS`. -/
structure RequestContext where
  parts : Option Parts
  standardHeaders : Bool

/-! ## Requests -/

/-- `rmcp::model::ReadResourceRequestParams`. -/
structure ReadResourceRequestParams where
  uri : String
  metadata : Option JsonObject

/-- `rmcp::model::Reference`, `#[non_exhaustive]`. -/
inductive Reference where
  | prompt (name : String)
  | resource (uri : String)
  | other (content : Value)

/-- `rmcp::model::CompleteRequestParams`. -/
structure CompleteRequestParams where
  reference : Reference
  argument : Value
  context : Option Value

/-- `rmcp::model::CompleteResult`. -/
structure CompleteResult where
  values : List String
  total : Option UInt64
  hasMore : Option Bool

/-- `rmcp::service::ServiceError`. -/
inductive ServiceError where
  | mcpError (error : ErrorData)
  | other (text : String)

/-- A request to a backend, as the handlers write it. -/
inductive UpstreamRequest where
  | callTool (request : CallToolRequestParams)
  | getPrompt (request : GetPromptRequestParams)
  | readResource (request : ReadResourceRequestParams)
  | complete (request : CompleteRequestParams)

/-- The name or URI a request addresses at its backend. -/
def UpstreamRequest.target : UpstreamRequest → Option String
  | callTool request => some request.name
  | getPrompt request => some request.name
  | readResource request => some request.uri
  | complete request => match request.reference with
    | .prompt name => some name
    | .resource uri => some uri
    | .other _ => none

/-- What a handler does outside: it connects to a backend and sends it a request. -/
inductive BackendIo where
  | connect (backendName : String) (backend : BackendMCPGateway)
  | send (backendName : String) (backend : BackendMCPGateway) (request : UpstreamRequest)

abbrev Handler := Logged ErrorData BackendIo

/-- What a handler meets: the plugin runtime with its pipelines, and the backends. All of it is
arbitrary. -/
structure World (M C V : Type) where
  plugins : Option (RuntimeState M)
  counter : UInt64
  pipeline : Invocation M C → PipelineResult C
  toolLib : ToolLib
  messageValue : Message → Option V
  base64 : Base64
  codecs : Codecs
  connect : String → BackendMCPGateway → Except ErrorData Unit
  callTool : BackendMCPGateway → CallToolRequestParams → Except ServiceError CallToolResult
  getPrompt : BackendMCPGateway → GetPromptRequestParams → Except ServiceError GetPromptResult
  readResource : BackendMCPGateway → ReadResourceRequestParams → Except ServiceError ReadResourceResult
  complete : BackendMCPGateway → CompleteRequestParams → Except ServiceError CompleteResult

/-! ## Handlers -/

/-- `AuthorizedCallValidator::validate_stateless`, for its virtual host. -/
def RequestContext.validateStateless (cx : RequestContext) : Except ErrorData VirtualHost :=
  match cx.parts.bind (·.userConfig) with
  | none => .error (.internalError "Routing problem... user config not found")
  | some userConfig => match cx.parts.bind (·.virtualHostId) with
    | none => .error (.internalError "Routing problem... virtual host not known")
    | some virtualHostId => match userConfig.virtualHosts.lookup virtualHostId with
      | none => .error { code := -32002, message := "No configuration" }
      | some virtualHost => match cx.parts.bind (·.claims) with
        | none => .error (.internalError "Routing problem... claims not found")
        | some _ => .ok virtualHost

/-- A lookup that fails with `INVALID_PARAMS`. -/
def found {V : Type} (value : Option V) (message : String) : Except ErrorData V :=
  match value with
  | some v => .ok v
  | none => .error (.invalidParams message)

/-- `backend_forward_error`. -/
def backendForwardError : ServiceError → ErrorData
  | .mcpError error => error
  | .other _ => .internalError "Routing problem... got no responses from backends"

def backendNotFound : String := "Routing problem... backend not found"

/-- The parameter headers of a tool call, checked against the schema its backend published. -/
def checkToolParams (codecs : Codecs) (cx : RequestContext) (backend : BackendMCPGateway) (toolName : String)
    (request : CallToolRequestParams) : Except ErrorData Unit :=
  if cx.standardHeaders then
    match backend.toolSchemas.lookup toolName with
    | none => .ok ()
    | some toolSchema => match cx.parts with
      | none => .error (.internalError "Routing problem... request headers not found")
      | some parts => match validateToolParams codecs parts.headers request.arguments toolSchema with
        | .ok _ => .ok ()
        | .error message => .error { code := -32020, message }
  else .ok ()

section Handlers

variable {M C V : Type} [Inhabited C] (world : World M C V) (cx : RequestContext)

/-- Run a call to its end against the pipelines. -/
def World.resolve {α : Type} : Resumption M C α → α
  | .done a => a
  | .await invocation resume => resume (world.pipeline invocation)

def World.beforeToolCall (request : CallToolRequestParams) (toolName backendName : String) :
    Except ErrorData (PreHookResult (CallState M C)) :=
  match world.plugins with
  | none => .ok ⟨.unchanged, none⟩
  | some state => state.current.bind fun runtime =>
    world.resolve (Cpex.beforeToolCall runtime request toolName backendName world.counter).1

def World.beforeGetPrompt (request : GetPromptRequestParams) (promptName backendName : String) :
    Except ErrorData (PreHookResult (CallState M C)) :=
  match world.plugins with
  | none => .ok ⟨.unchanged, none⟩
  | some state => state.current.bind fun runtime =>
    world.resolve (Cpex.beforeGetPrompt runtime request promptName backendName world.counter).1

def World.beforeReadResource (resourceUri : String) : Except ErrorData (ResourceHookState M C) :=
  match world.plugins with
  | none => .ok ⟨none, none⟩
  | some state => state.current.bind fun runtime =>
    world.resolve (Cpex.beforeReadResource runtime resourceUri world.counter).1

/-- The post hook, when the pre hook left a state for one. -/
def World.after {T : Type} (cmf : CmfResponse T) (state : Option (CallState M C)) (response : T) :
    Except ErrorData T :=
  match state with
  | none => .ok response
  | some state => (world.resolve (state.after cmf response)).1

/-- `connect_backend_for_request`, then the request, and its result with the backend's errors
mapped by `backend_forward_error`. -/
def exchange {T : Type} (backendName : String) (backend : BackendMCPGateway) (request : UpstreamRequest)
    (response : Except ServiceError T) : Handler T := do
  Logged.emit (.connect backendName backend)
  Logged.ofExcept (world.connect backendName backend)
  Logged.emit (.send backendName backend request)
  Logged.ofExcept (response.mapError backendForwardError)

/-- `call_tool`. -/
def callTool (request : CallToolRequestParams) : Handler CallToolResult := do
  let virtualHost ← Logged.ofExcept cx.validateStateless
  let route ← Logged.ofExcept (found (virtualHost.tools.lookup request.name) "Routing problem... tool not found")
  let backend ← Logged.ofExcept (found (virtualHost.backends.lookup route.backendName) backendNotFound)
  Logged.ofExcept (checkToolParams world.codecs cx backend route.upstreamName request)
  let preResult ← Logged.ofExcept (world.beforeToolCall request route.upstreamName route.backendName)
  let routedRequest : CallToolRequestParams :=
    ⟨route.upstreamName, preResult.arguments.applyTo request.arguments⟩
  let response ← exchange world route.backendName backend (.callTool routedRequest)
    (world.callTool backend routedRequest)
  Logged.ofExcept (world.after (callToolResultCmf world.toolLib) preResult.state response)

/-- `get_prompt`. -/
def getPrompt [DecidableEq V] (request : GetPromptRequestParams) : Handler GetPromptResult := do
  let virtualHost ← Logged.ofExcept cx.validateStateless
  let route ← Logged.ofExcept (found (virtualHost.prompts.lookup request.name) "Routing problem... prompt not found")
  let backend ← Logged.ofExcept (found (virtualHost.backends.lookup route.backendName) backendNotFound)
  let preResult ← Logged.ofExcept (world.beforeGetPrompt request route.upstreamName route.backendName)
  let routedRequest : GetPromptRequestParams :=
    ⟨route.upstreamName, preResult.arguments.applyTo request.arguments⟩
  let response ← exchange world route.backendName backend (.getPrompt routedRequest)
    (world.getPrompt backend routedRequest)
  Logged.ofExcept (world.after (getPromptResultCmf world.messageValue) preResult.state response)

/-- The route of a rewritten URI: the first published resource with that upstream name, unless
another one with that name is at another backend. -/
def rewrittenRoute (resources : HashMap String ServiceRoute) (uri : String) : Except ErrorData ServiceRoute :=
  match resources.values.filter (·.upstreamName == uri) with
  | [] => .error (.invalidParams "Plugin resource target is not available in this virtual host")
  | rewritten :: candidates =>
    if candidates.any (·.backendName != rewritten.backendName) then
      .error (.invalidParams "Plugin resource target is ambiguous")
    else .ok rewritten

/-- The route `read_resource` takes after the pre hook. -/
def resourceRoute (resources : HashMap String ServiceRoute) (route : ServiceRoute) (rewrittenUri : Option String) :
    Except ErrorData ServiceRoute :=
  match rewrittenUri with
  | none => .ok route
  | some uri => if uri ≠ route.upstreamName then rewrittenRoute resources uri else .ok route

/-- `read_resource` once its route is settled. -/
def readAlong (virtualHost : VirtualHost) (request : ReadResourceRequestParams)
    (resourceHook : ResourceHookState M C) (route : ServiceRoute) : Handler ReadResourceResult := do
  let backend ← Logged.ofExcept (found (virtualHost.backends.lookup route.backendName) backendNotFound)
  let routedRequest : ReadResourceRequestParams := { request with uri := route.upstreamName }
  let response ← exchange world route.backendName backend (.readResource routedRequest)
    (world.readResource backend routedRequest)
  Logged.ofExcept (world.after (readResourceResultCmf world.base64) resourceHook.call response)

/-- `read_resource`. -/
def readResource (request : ReadResourceRequestParams) : Handler ReadResourceResult := do
  let virtualHost ← Logged.ofExcept cx.validateStateless
  let route ← Logged.ofExcept (found (virtualHost.resources.lookup request.uri)
    "Routing problem... resource not found")
  let resourceHook ← Logged.ofExcept (world.beforeReadResource route.upstreamName)
  let route ← Logged.ofExcept (resourceRoute virtualHost.resources route resourceHook.rewrittenUri)
  readAlong world virtualHost request resourceHook route

/-- The route of a completion: prompts by name, resource templates before resources by URI. -/
def completionRoute (virtualHost : VirtualHost) : Reference → Option ServiceRoute
  | .prompt name => virtualHost.prompts.lookup name
  | .resource uri => (virtualHost.resourceTemplates.lookup uri).or (virtualHost.resources.lookup uri)
  | .other _ => none

/-- The reference a completion is forwarded with. -/
def Reference.routed (completionName : String) : Reference → Reference
  | .prompt _ => .prompt completionName
  | .resource _ => .resource completionName
  | .other content => .other content

/-- `complete`. -/
def complete (request : CompleteRequestParams) : Handler CompleteResult := do
  let virtualHost ← Logged.ofExcept cx.validateStateless
  let route ← Logged.ofExcept (found (completionRoute virtualHost request.reference)
    "Routing problem... completion not found")
  let backend ← Logged.ofExcept (found (virtualHost.backends.lookup route.backendName) backendNotFound)
  let routedRequest := { request with reference := request.reference.routed route.upstreamName }
  exchange world route.backendName backend (.complete routedRequest) (world.complete backend routedRequest)

end Handlers

/-! ## Routes -/

/-- The outside actions of a call along a route: a connection to the route's backend, which the
virtual host has, and requests there for the route's upstream name. -/
inductive OnRoute (virtualHost : VirtualHost) (route : ServiceRoute) : BackendIo → Prop where
  | connect {backend : BackendMCPGateway} (known : virtualHost.backends.lookup route.backendName = some backend) :
      OnRoute virtualHost route (.connect route.backendName backend)
  | send {backend : BackendMCPGateway} {request : UpstreamRequest}
      (known : virtualHost.backends.lookup route.backendName = some backend)
      (named : request.target = some route.upstreamName) :
      OnRoute virtualHost route (.send route.backendName backend request)

/-- A published resource with the upstream name `uri`, when all of them name one backend. -/
structure Unambiguous (resources : HashMap String ServiceRoute) (uri : String) (route : ServiceRoute) : Prop where
  published : ∃ name, resources.lookup name = some route
  upstream : route.upstreamName = uri
  only : ∀ name other, resources.lookup name = some other → other.upstreamName = uri →
    other.backendName = route.backendName

theorem found_eq_ok {V : Type} {value : Option V} {message : String} {v : V} :
    found value message = .ok v ↔ value = some v := by
  cases value <;> simp [found]

theorem mem_values {K V : Type} [DecidableEq K] {map : HashMap K V} {v : V} :
    v ∈ map.values ↔ ∃ k, map.lookup k = some v := by
  unfold HashMap.values
  constructor
  · intro h
    obtain ⟨⟨k, w⟩, hm, rfl⟩ := List.mem_map.mp h
    exact ⟨k, AList.mem_lookup_iff.mpr hm⟩
  · rintro ⟨k, h⟩
    exact List.mem_map.mpr ⟨⟨k, v⟩, AList.mem_lookup_iff.mp h, rfl⟩

theorem ServiceRoute.eq_of_fields {a b : ServiceRoute} (h1 : a.backendName = b.backendName)
    (h2 : a.upstreamName = b.upstreamName) : a = b := by
  cases a; cases b; cases h1; cases h2; rfl

theorem rewrittenRoute_eq_ok {resources : HashMap String ServiceRoute} {uri : String} {route : ServiceRoute} :
    rewrittenRoute resources uri = .ok route ↔ Unambiguous resources uri route := by
  have hmem : ∀ r, r ∈ resources.values.filter (·.upstreamName == uri) ↔
      (∃ name, resources.lookup name = some r) ∧ r.upstreamName = uri := by
    intro r
    rw [List.mem_filter, mem_values, beq_iff_eq]
  unfold rewrittenRoute
  generalize resources.values.filter (·.upstreamName == uri) = candidates at hmem
  cases candidates with
  | nil =>
    constructor
    · intro h; cases h
    · intro h; exact absurd ((hmem route).mpr ⟨h.published, h.upstream⟩) List.not_mem_nil
  | cons first rest =>
    obtain ⟨hpub, hup⟩ := (hmem first).mp (List.mem_cons_self ..)
    constructor
    · intro h
      simp only at h
      split at h
      · cases h
      · rename_i hany
        cases h
        refine ⟨hpub, hup, fun name other ho hu => ?_⟩
        rcases List.mem_cons.mp ((hmem other).mpr ⟨⟨name, ho⟩, hu⟩) with rfl | hr
        · rfl
        · by_contra hne
          exact hany (List.any_eq_true.mpr ⟨other, hr, by simpa using hne⟩)
    · intro h
      obtain ⟨name, hn⟩ := hpub
      have hfirst : first = route :=
        ServiceRoute.eq_of_fields (h.only name first hn hup) (hup.trans h.upstream.symm)
      have hany : ¬ rest.any (·.backendName != first.backendName) = true := by
        rw [List.any_eq_true]
        rintro ⟨other, hr, hne⟩
        obtain ⟨⟨name', hn'⟩, hu'⟩ := (hmem other).mp (List.mem_cons_of_mem _ hr)
        rw [h.only name' other hn' hu', hfirst] at hne
        simp at hne
      simp only [if_neg hany]
      rw [hfirst]

theorem resourceRoute_rewritten {resources : HashMap String ServiceRoute} {route : ServiceRoute} {uri : String}
    (hne : uri ≠ route.upstreamName) :
    resourceRoute resources route (some uri) = rewrittenRoute resources uri := if_pos hne

theorem resourceRoute_published {resources : HashMap String ServiceRoute} {route target : ServiceRoute}
    {uri : Option String} {name : String} (hr : resources.lookup name = some route)
    (h : resourceRoute resources route uri = .ok target) : ∃ name, resources.lookup name = some target := by
  unfold resourceRoute at h
  split at h
  · cases h; exact ⟨name, hr⟩
  · split at h
    · exact (rewrittenRoute_eq_ok.mp h).published
    · cases h; exact ⟨name, hr⟩

section Handlers

variable {M C V : Type} {world : World M C V} {cx : RequestContext}

theorem exchange_within {T : Type} {virtualHost : VirtualHost} {route : ServiceRoute} {backend : BackendMCPGateway}
    {request : UpstreamRequest} {response : Except ServiceError T}
    (known : virtualHost.backends.lookup route.backendName = some backend)
    (named : request.target = some route.upstreamName) :
    Logged.Within (OnRoute virtualHost route) (exchange world route.backendName backend request response) := by
  unfold exchange
  apply Logged.within_emit_bind (OnRoute.connect known)
  apply Logged.within_ofExcept_bind
  intro _ _
  apply Logged.within_emit_bind (OnRoute.send known named)
  apply Logged.within_ofExcept

/-- An exchange whose result goes to a further silent step. -/
theorem exchange_bind_within {T T' : Type} {virtualHost : VirtualHost} {route : ServiceRoute}
    {backend : BackendMCPGateway} {request : UpstreamRequest} {response : Except ServiceError T}
    {f : T → Except ErrorData T'} (known : virtualHost.backends.lookup route.backendName = some backend)
    (named : request.target = some route.upstreamName) :
    Logged.Within (OnRoute virtualHost route)
      (exchange world route.backendName backend request response >>= fun r => Logged.ofExcept (f r)) := by
  apply Logged.within_bind (exchange_within known named)
  intro r
  apply Logged.within_ofExcept

/-- The log of an exchange whose result goes to a further silent step. -/
theorem exchange_bind_log {T T' : Type} {backendName : String} {backend : BackendMCPGateway}
    {upstream : UpstreamRequest} {response : Except ServiceError T} {f : T → Except ErrorData T'} :
    (exchange world backendName backend upstream response >>= fun r => Logged.ofExcept (f r)).log =
      .connect backendName backend :: match world.connect backendName backend with
        | .ok _ => [.send backendName backend upstream]
        | .error _ => [] := by
  unfold exchange
  cases world.connect backendName backend with
  | error error => rfl
  | ok _ => cases response <;> rfl

theorem routed_target {virtualHost : VirtualHost} {reference : Reference} {route : ServiceRoute}
    {request : CompleteRequestParams} (h : completionRoute virtualHost reference = some route) :
    (UpstreamRequest.complete { request with reference := reference.routed route.upstreamName }).target =
      some route.upstreamName := by
  cases reference with
  | prompt _ => rfl
  | resource _ => rfl
  | other _ => cases h

/-- A completion goes along the route of its reference. -/
theorem complete_within (request : CompleteRequestParams) :
    Logged.Within (fun io => ∃ virtualHost route, cx.validateStateless = .ok virtualHost ∧
      completionRoute virtualHost request.reference = some route ∧ OnRoute virtualHost route io)
      (complete world cx request) := by
  unfold complete
  apply Logged.within_ofExcept_bind
  intro virtualHost hv
  apply Logged.within_ofExcept_bind
  intro route hr
  apply Logged.within_ofExcept_bind
  intro backend hb
  refine Logged.Within.mono (exchange_within (found_eq_ok.mp hb) (routed_target (found_eq_ok.mp hr))) fun io hio => ?_
  exact ⟨virtualHost, route, hv, found_eq_ok.mp hr, hio⟩

variable [Inhabited C]

/-- A tool call goes along the route of the requested tool. -/
theorem callTool_within (request : CallToolRequestParams) :
    Logged.Within (fun io => ∃ virtualHost route, cx.validateStateless = .ok virtualHost ∧
      virtualHost.tools.lookup request.name = some route ∧ OnRoute virtualHost route io)
      (callTool world cx request) := by
  unfold callTool
  apply Logged.within_ofExcept_bind
  intro virtualHost hv
  apply Logged.within_ofExcept_bind
  intro route hr
  apply Logged.within_ofExcept_bind
  intro backend hb
  apply Logged.within_ofExcept_bind
  intro _ _
  apply Logged.within_ofExcept_bind
  intro preResult _
  refine Logged.Within.mono (exchange_bind_within (found_eq_ok.mp hb) rfl) fun io hio => ?_
  exact ⟨virtualHost, route, hv, found_eq_ok.mp hr, hio⟩

/-- A prompt is fetched along the route of the requested prompt. -/
theorem getPrompt_within [DecidableEq V] (request : GetPromptRequestParams) :
    Logged.Within (fun io => ∃ virtualHost route, cx.validateStateless = .ok virtualHost ∧
      virtualHost.prompts.lookup request.name = some route ∧ OnRoute virtualHost route io)
      (getPrompt world cx request) := by
  unfold getPrompt
  apply Logged.within_ofExcept_bind
  intro virtualHost hv
  apply Logged.within_ofExcept_bind
  intro route hr
  apply Logged.within_ofExcept_bind
  intro backend hb
  apply Logged.within_ofExcept_bind
  intro preResult _
  refine Logged.Within.mono (exchange_bind_within (found_eq_ok.mp hb) rfl) fun io hio => ?_
  exact ⟨virtualHost, route, hv, found_eq_ok.mp hr, hio⟩

/-- A resource is read along the route the pre hook's edit leads to. -/
theorem readResource_within (request : ReadResourceRequestParams) :
    Logged.Within (fun io => ∃ virtualHost route hook target, cx.validateStateless = .ok virtualHost ∧
      virtualHost.resources.lookup request.uri = some route ∧
      world.beforeReadResource route.upstreamName = .ok hook ∧
      resourceRoute virtualHost.resources route hook.rewrittenUri = .ok target ∧ OnRoute virtualHost target io)
      (readResource world cx request) := by
  unfold readResource
  apply Logged.within_ofExcept_bind
  intro virtualHost hv
  apply Logged.within_ofExcept_bind
  intro route hr
  apply Logged.within_ofExcept_bind
  intro hook hh
  apply Logged.within_ofExcept_bind
  intro target ht
  unfold readAlong
  apply Logged.within_ofExcept_bind
  intro backend hb
  refine Logged.Within.mono (exchange_bind_within (found_eq_ok.mp hb) rfl) fun io hio => ?_
  exact ⟨virtualHost, route, hook, target, hv, found_eq_ok.mp hr, hh, ht, hio⟩

/-! ## Rewritten resources -/

section Rewrite

variable {request : ReadResourceRequestParams} {virtualHost : VirtualHost} {route : ServiceRoute}
  {hook : ResourceHookState M C}

/-- `read_resource` from the pre hook on. -/
theorem readResource_eq (hv : cx.validateStateless = .ok virtualHost)
    (hr : virtualHost.resources.lookup request.uri = some route)
    (hh : world.beforeReadResource route.upstreamName = .ok hook) :
    readResource world cx request =
      (Logged.ofExcept (resourceRoute virtualHost.resources route hook.rewrittenUri) >>=
        readAlong world virtualHost request hook) := by
  unfold readResource
  rw [hv, Logged.ofExcept_ok_bind, hr]
  simp only [found, Logged.ofExcept_ok_bind, hh]

/-- A rewritten URI that no or more than one backend publishes is refused before any backend is
contacted. -/
theorem readResource_refused {uri : String} (hv : cx.validateStateless = .ok virtualHost)
    (hr : virtualHost.resources.lookup request.uri = some route)
    (hh : world.beforeReadResource route.upstreamName = .ok hook) (hu : hook.rewrittenUri = some uri)
    (hne : uri ≠ route.upstreamName) (hnone : ¬ ∃ target, Unambiguous virtualHost.resources uri target) :
    (readResource world cx request).log = [] ∧ ∃ error, (readResource world cx request).result = .error error := by
  rw [readResource_eq hv hr hh, hu, resourceRoute_rewritten hne]
  cases hrw : rewrittenRoute virtualHost.resources uri with
  | ok target => exact absurd ⟨target, rewrittenRoute_eq_ok.mp hrw⟩ hnone
  | error error => exact ⟨rfl, error, rfl⟩

/-- A rewritten URI that one backend publishes is read there. -/
theorem readResource_rewritten {uri : String} {target : ServiceRoute} {backend : BackendMCPGateway}
    (hv : cx.validateStateless = .ok virtualHost)
    (hr : virtualHost.resources.lookup request.uri = some route)
    (hh : world.beforeReadResource route.upstreamName = .ok hook) (hu : hook.rewrittenUri = some uri)
    (hne : uri ≠ route.upstreamName) (ht : Unambiguous virtualHost.resources uri target)
    (hb : virtualHost.backends.lookup target.backendName = some backend) :
    (readResource world cx request).log =
      .connect target.backendName backend :: match world.connect target.backendName backend with
        | .ok _ => [.send target.backendName backend (.readResource { request with uri })]
        | .error _ => [] := by
  rw [readResource_eq hv hr hh, hu, resourceRoute_rewritten hne, rewrittenRoute_eq_ok.mpr ht,
    Logged.ofExcept_ok_bind]
  unfold readAlong
  rw [hb]
  simp only [found, Logged.ofExcept_ok_bind]
  rw [exchange_bind_log, ht.upstream]

end Rewrite

end Handlers

/-! ## Iteration order -/

/-- The same map, in another iteration order. -/
def HashMap.Same {K V : Type} (map map' : HashMap K V) : Prop := map.entries.Perm map'.entries

/-- The same virtual host, its maps in other iteration orders. -/
structure VirtualHost.Same (host host' : VirtualHost) : Prop where
  backends : HashMap.Same host.backends host'.backends
  tools : HashMap.Same host.tools host'.tools
  resources : HashMap.Same host.resources host'.resources
  resourceTemplates : HashMap.Same host.resourceTemplates host'.resourceTemplates
  prompts : HashMap.Same host.prompts host'.prompts

/-- The same configuration, its maps in other iteration orders. -/
def UserConfig.Same (config config' : UserConfig) : Prop :=
  ∀ id, Option.Rel VirtualHost.Same (config.virtualHosts.lookup id) (config'.virtualHosts.lookup id)

/-- A request context with its user configuration replaced. -/
def RequestContext.withConfig (cx : RequestContext) (userConfig : UserConfig) : RequestContext :=
  { cx with parts := cx.parts.map fun parts => { parts with userConfig := some userConfig } }

theorem HashMap.Same.lookup {K V : Type} [DecidableEq K] {map map' : HashMap K V} (h : HashMap.Same map map') (k : K) :
    map'.lookup k = map.lookup k :=
  (AList.perm_lookup h).symm

theorem Unambiguous.same {resources resources' : HashMap String ServiceRoute} (h : HashMap.Same resources resources')
    {uri : String} {route : ServiceRoute} : Unambiguous resources' uri route ↔ Unambiguous resources uri route := by
  constructor
  · rintro ⟨hp, hu, ho⟩
    simp only [h.lookup] at hp ho
    exact ⟨hp, hu, ho⟩
  · rintro ⟨hp, hu, ho⟩
    simp only [← h.lookup] at hp ho
    exact ⟨hp, hu, ho⟩

/-- The first candidate depends on the iteration order, the outcome does not. -/
theorem rewrittenRoute_same {resources resources' : HashMap String ServiceRoute}
    (h : HashMap.Same resources resources') (uri : String) :
    rewrittenRoute resources' uri = rewrittenRoute resources uri := by
  have hok : ∀ route, rewrittenRoute resources' uri = .ok route ↔ rewrittenRoute resources uri = .ok route := by
    intro route
    rw [rewrittenRoute_eq_ok, rewrittenRoute_eq_ok, Unambiguous.same h]
  cases h1 : rewrittenRoute resources uri with
  | ok route => exact (hok route).mpr h1
  | error e1 =>
    cases h2 : rewrittenRoute resources' uri with
    | ok route => rw [(hok route).mp h2] at h1; cases h1
    | error e2 =>
      -- both refuse; which message depends only on whether there is a candidate
      have hperm : (resources.values.filter (·.upstreamName == uri)).Perm
          (resources'.values.filter (·.upstreamName == uri)) := (h.map _).filter _
      unfold rewrittenRoute at h1 h2
      generalize resources.values.filter (·.upstreamName == uri) = l at h1 hperm
      generalize resources'.values.filter (·.upstreamName == uri) = l' at h2 hperm
      cases l with
      | nil => rw [List.nil_perm.mp hperm] at h2; rw [← h1, ← h2]
      | cons a l =>
        cases l' with
        | nil => exact absurd hperm.symm (List.nil_perm.not.mpr (List.cons_ne_nil _ _))
        | cons a' l' =>
          simp only at h1 h2
          split at h1
          · split at h2
            · rw [← h1, ← h2]
            · cases h2
          · cases h1

theorem resourceRoute_same {resources resources' : HashMap String ServiceRoute}
    (h : HashMap.Same resources resources') (route : ServiceRoute) (uri : Option String) :
    resourceRoute resources' route uri = resourceRoute resources route uri := by
  unfold resourceRoute
  cases uri with
  | none => rfl
  | some uri => simp only [rewrittenRoute_same h]

/-- Validation finds the same virtual host, or fails alike. -/
theorem validateStateless_same {cx : RequestContext} {config config' : UserConfig}
    (hc : cx.parts.bind (·.userConfig) = some config) (h : UserConfig.Same config config') :
    (∃ error, cx.validateStateless = .error error ∧ (cx.withConfig config').validateStateless = .error error) ∨
    ∃ host host', cx.validateStateless = .ok host ∧ (cx.withConfig config').validateStateless = .ok host' ∧
      VirtualHost.Same host host' := by
  obtain ⟨parts, standardHeaders⟩ := cx
  cases parts with
  | none => cases hc
  | some parts =>
    obtain ⟨headers, userConfig, claims, virtualHostId⟩ := parts
    cases hc
    cases virtualHostId with
    | none => exact .inl ⟨_, rfl, rfl⟩
    | some id =>
      have hid := h id
      simp only [RequestContext.validateStateless, RequestContext.withConfig, Option.map_some, Option.bind_some]
      generalize config.virtualHosts.lookup id = found at hid
      generalize config'.virtualHosts.lookup id = found' at hid
      cases hid with
      | none => exact .inl ⟨_, rfl, rfl⟩
      | some hsame =>
        cases claims with
        | none => exact .inl ⟨_, rfl, rfl⟩
        | some _ => exact .inr ⟨_, _, rfl, rfl, hsame⟩

theorem checkToolParams_withConfig (codecs : Codecs) (cx : RequestContext) (config : UserConfig)
    (backend : BackendMCPGateway) (toolName : String) (request : CallToolRequestParams) :
    checkToolParams codecs (cx.withConfig config) backend toolName request =
      checkToolParams codecs cx backend toolName request := by
  obtain ⟨parts, standardHeaders⟩ := cx
  cases parts <;> rfl

section Order

variable {M C V : Type} [Inhabited C] (world : World M C V) {cx : RequestContext} {config config' : UserConfig}

theorem callTool_same (hc : cx.parts.bind (·.userConfig) = some config) (h : UserConfig.Same config config')
    (request : CallToolRequestParams) :
    callTool world (cx.withConfig config') request = callTool world cx request := by
  unfold callTool
  obtain ⟨error, he, he'⟩ | ⟨host, host', hh, hh', hs⟩ := validateStateless_same hc h
  · rw [he, he']; rfl
  · rw [hh, hh', Logged.ofExcept_ok_bind, Logged.ofExcept_ok_bind]
    simp only [hs.tools.lookup, hs.backends.lookup, checkToolParams_withConfig]

theorem getPrompt_same [DecidableEq V] (hc : cx.parts.bind (·.userConfig) = some config)
    (h : UserConfig.Same config config') (request : GetPromptRequestParams) :
    getPrompt world (cx.withConfig config') request = getPrompt world cx request := by
  unfold getPrompt
  obtain ⟨error, he, he'⟩ | ⟨host, host', hh, hh', hs⟩ := validateStateless_same hc h
  · rw [he, he']
  · rw [hh, hh', Logged.ofExcept_ok_bind, Logged.ofExcept_ok_bind]
    simp only [hs.prompts.lookup, hs.backends.lookup]

theorem readResource_same (hc : cx.parts.bind (·.userConfig) = some config) (h : UserConfig.Same config config')
    (request : ReadResourceRequestParams) :
    readResource world (cx.withConfig config') request = readResource world cx request := by
  unfold readResource
  obtain ⟨error, he, he'⟩ | ⟨host, host', hh, hh', hs⟩ := validateStateless_same hc h
  · rw [he, he']
  · rw [hh, hh', Logged.ofExcept_ok_bind, Logged.ofExcept_ok_bind]
    simp only [hs.resources.lookup, resourceRoute_same hs.resources, readAlong, hs.backends.lookup]

omit [Inhabited C] in
theorem complete_same (hc : cx.parts.bind (·.userConfig) = some config) (h : UserConfig.Same config config')
    (request : CompleteRequestParams) :
    complete world (cx.withConfig config') request = complete world cx request := by
  unfold complete
  obtain ⟨error, he, he'⟩ | ⟨host, host', hh, hh', hs⟩ := validateStateless_same hc h
  · rw [he, he']
  · rw [hh, hh', Logged.ofExcept_ok_bind, Logged.ofExcept_ok_bind]
    have hroute : completionRoute host' request.reference = completionRoute host request.reference := by
      cases request.reference with
      | prompt name => exact hs.prompts.lookup name
      | resource uri =>
        simp only [completionRoute, hs.resourceTemplates.lookup, hs.resources.lookup]
      | other content => rfl
    simp only [hroute, hs.backends.lookup]

/-- Routing is default-deny under arbitrary plugins. Tool calls, prompts and completions contact a
backend only along the published route of the requested name. Resource reads contact one only along
some published route; without a rewrite it is the route of the requested URI, and a rewritten URI is
read exactly where all published resources of that upstream name are, or else refused without
contacting a backend. The iteration order of the maps has no influence on what a handler does. -/
theorem routing_default_deny [DecidableEq V] (cx : RequestContext) :
    (∀ request : CallToolRequestParams, Logged.Within (fun io => ∃ virtualHost route,
      cx.validateStateless = .ok virtualHost ∧ virtualHost.tools.lookup request.name = some route ∧
      OnRoute virtualHost route io) (callTool world cx request)) ∧
    (∀ request : GetPromptRequestParams, Logged.Within (fun io => ∃ virtualHost route,
      cx.validateStateless = .ok virtualHost ∧ virtualHost.prompts.lookup request.name = some route ∧
      OnRoute virtualHost route io) (getPrompt world cx request)) ∧
    (∀ request : CompleteRequestParams, Logged.Within (fun io => ∃ virtualHost route,
      cx.validateStateless = .ok virtualHost ∧ completionRoute virtualHost request.reference = some route ∧
      OnRoute virtualHost route io) (complete world cx request)) ∧
    (∀ request : ReadResourceRequestParams, Logged.Within (fun io => ∃ virtualHost name route,
      cx.validateStateless = .ok virtualHost ∧ virtualHost.resources.lookup name = some route ∧
      OnRoute virtualHost route io) (readResource world cx request)) ∧
    (∀ (request : ReadResourceRequestParams) virtualHost route hook,
      cx.validateStateless = .ok virtualHost → virtualHost.resources.lookup request.uri = some route →
      world.beforeReadResource route.upstreamName = .ok hook →
      ((∀ uri, hook.rewrittenUri = some uri → uri = route.upstreamName) →
        Logged.Within (OnRoute virtualHost route) (readResource world cx request)) ∧
      ∀ uri, hook.rewrittenUri = some uri → uri ≠ route.upstreamName →
        (∀ target, Unambiguous virtualHost.resources uri target →
          Logged.Within (OnRoute virtualHost target) (readResource world cx request) ∧
          ∀ backend, virtualHost.backends.lookup target.backendName = some backend →
            (readResource world cx request).log =
              .connect target.backendName backend :: match world.connect target.backendName backend with
                | .ok _ => [.send target.backendName backend (.readResource { request with uri })]
                | .error _ => []) ∧
        ((¬ ∃ target, Unambiguous virtualHost.resources uri target) →
          (readResource world cx request).log = [] ∧
            ∃ error, (readResource world cx request).result = .error error)) ∧
    (∀ config config', cx.parts.bind (·.userConfig) = some config → UserConfig.Same config config' →
      (∀ request, callTool world (cx.withConfig config') request = callTool world cx request) ∧
      (∀ request, getPrompt world (cx.withConfig config') request = getPrompt world cx request) ∧
      (∀ request, readResource world (cx.withConfig config') request = readResource world cx request) ∧
      ∀ request, complete world (cx.withConfig config') request = complete world cx request) := by
  refine ⟨callTool_within, getPrompt_within, complete_within, ?_, ?_, ?_⟩
  · intro request
    refine (readResource_within request).mono fun io => ?_
    rintro ⟨virtualHost, route, hook, target, hv, hr, -, ht, hio⟩
    obtain ⟨name, hn⟩ := resourceRoute_published hr ht
    exact ⟨virtualHost, name, target, hv, hn, hio⟩
  · intro request virtualHost route hook hv hr hh
    -- every action is on the route the pre hook's edit leads to
    have hall : ∀ {target}, resourceRoute virtualHost.resources route hook.rewrittenUri = .ok target →
        Logged.Within (OnRoute virtualHost target) (readResource world cx request) := by
      intro target ht
      refine (readResource_within request).mono fun io => ?_
      rintro ⟨virtualHost', route', hook', target', hv', hr', hh', ht', hio⟩
      rw [hv] at hv'; cases hv'
      rw [hr] at hr'; cases hr'
      rw [hh] at hh'; cases hh'
      rw [ht] at ht'; cases ht'
      exact hio
    refine ⟨?_, ?_⟩
    · intro hkept
      apply hall
      unfold resourceRoute
      split
      · rfl
      · rename_i uri hu
        rw [if_neg (not_not.mpr (hkept uri hu))]
    · intro uri hu hne
      refine ⟨?_, readResource_refused hv hr hh hu hne⟩
      intro target ht
      refine ⟨hall ?_, fun backend hb => readResource_rewritten hv hr hh hu hne ht hb⟩
      rw [hu, resourceRoute_rewritten hne, rewrittenRoute_eq_ok]
      exact ht
  · intro config config' hc h
    exact ⟨callTool_same world hc h, getPrompt_same world hc h, readResource_same world hc h,
      complete_same world hc h⟩

end Order

/-! ## A host with one tool -/

def sumBackend : BackendMCPGateway := ⟨"math", "https://math", ∅⟩

def sumHost : VirtualHost := ⟨AList.singleton "math" sumBackend, AList.singleton "sum" ⟨"math", "add"⟩, ∅, ∅, ∅⟩

/-- Plugins that allow everything, and a backend that answers tool calls. -/
def sumWorld {M C V : Type} [Inhabited C] (plugins : Option (RuntimeState M)) : World M C V where
  plugins
  counter := 1
  pipeline _ := ⟨false, none, none, default⟩
  toolLib := plainToolLib
  messageValue _ := none
  base64 := base64Standard
  codecs := plainCodecs
  connect _ _ := .ok ()
  callTool _ _ := .ok ⟨[], none, none, none⟩
  getPrompt _ _ := .error (.other "")
  readResource _ _ := .error (.other "")
  complete _ _ := .error (.other "")

end DataPlane.Gateway
