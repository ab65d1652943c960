/-
The headers that a connection to a backend is opened with, and what they say about the call that goes over it. A tool
call that passed the check of its parameter headers is forwarded with these headers as they were, whatever the
backend's header configuration and the trace propagator add; so they agree with the arguments the client sent, and
the backend's own check passes exactly when the arguments it gets still hold the annotated values.
-/
import DataPlane.Gateway.UpstreamHeaders
import DataPlane.Headers.Annotations

namespace DataPlane.Gateway

open DataPlane.Headers DataPlane.Json DataPlane.Cpex
open DataPlane.Lib

/-! ## The headers of a connection -/

/-- `url::Url`, as far as a connection reads it; the port is `None` where it is the default of the scheme. -/
structure BackendUrl where
  scheme : String
  hostStr : Option String
  port : Option UInt16

section Connection

-- `HeaderName::from_bytes` and `HeaderValue::from_str` of the HTTP crate
variable (codecs : Codecs) (headerValueFromStr : String → Option HeaderValue)

/-- The `Host` of a connection over TLS. -/
def hostHeader (url : BackendUrl) : Option HeaderValue := do
  let host ← url.hostStr
  if url.scheme = "https" then
    headerValueFromStr (match url.port with
      | some port => s!"{host}:{port.toNat}"
      | none => host)
  else none

/-- The map `connect_backend_for_request` starts with. -/
def initialHeaders (url : BackendUrl) : UpstreamHeaders :=
  match hostHeader headerValueFromStr url with
  | some value => AList.singleton "host" value
  | none => ∅

/-- `HeaderInjector::set`. -/
def injectHeader (headers : UpstreamHeaders) (entry : String × String) : UpstreamHeaders :=
  match codecs.headerNameFromBytes entry.1, headerValueFromStr entry.2 with
  | some name, some value => headers.insert name value
  | _, _ => headers

/-- The map `connect_backend_for_request` hands to the transport; `propagated` is what the propagator sets for the
current trace context. -/
def connectionHeaders (url : BackendUrl) (backend : HeaderConfig) (downstream : Option HeaderMap)
    (propagated : List (String × String)) : UpstreamHeaders :=
  propagated.foldl (injectHeader codecs headerValueFromStr)
    (applyHeaderConfig codecs headerValueFromStr (initialHeaders headerValueFromStr url) backend downstream)

/-- The map on the wire. -/
def UpstreamHeaders.toHeaderMap (headers : UpstreamHeaders) : HeaderMap := ⟨headers.entries.map fun e => (e.1, e.2)⟩

/-- The trace propagator sets no parameter header. -/
def PropagatesNoParam (propagated : List (String × String)) : Prop :=
  ∀ entry ∈ propagated, ∀ name, codecs.headerNameFromBytes entry.1 = some name → isParam name = false

/-! ## One name -/

variable {codecs headerValueFromStr} {n : String}

theorem getAll_toHeaderMap (headers : UpstreamHeaders) (n : String) :
    headers.toHeaderMap.getAll n = (headers.lookup n).toList := by
  obtain ⟨entries, hkeys⟩ := headers
  unfold UpstreamHeaders.toHeaderMap HeaderMap.getAll AList.lookup
  dsimp only
  induction entries with
  | nil => rfl
  | cons entry rest ih =>
    obtain ⟨name, value⟩ := entry
    obtain ⟨hnew, hrest⟩ := List.nodupKeys_cons.mp hkeys
    by_cases h : name = n
    · subst h
      have hnone : rest.dlookup name = none := List.dlookup_eq_none.mpr hnew
      have ih := ih hrest
      rw [hnone] at ih
      simp [ih]
    · have hlookup : List.dlookup n (⟨name, value⟩ :: rest) = rest.dlookup n := List.dlookup_cons_ne _ _ (Ne.symm h)
      rw [hlookup, ← ih hrest]
      simp [h]

theorem injectHeader_lookup (headers : UpstreamHeaders) (entry : String × String) :
    (injectHeader codecs headerValueFromStr headers entry).lookup n =
      ((if codecs.headerNameFromBytes entry.1 = some n then headerValueFromStr entry.2 else none) <|>
        headers.lookup n) := by
  unfold injectHeader
  rcases codecs.headerNameFromBytes entry.1 with _ | name
  · simp
  · rcases headerValueFromStr entry.2 with _ | value
    · simp
    · by_cases h : name = n
      · simp [h]
      · simp [h, AList.lookup_insert_ne (Ne.symm h)]

/-- A parameter header of a connection is the client's last one. -/
theorem connectionHeaders_lookup_param {url : BackendUrl} {backend : HeaderConfig} {downstream : Option HeaderMap}
    {propagated : List (String × String)} (hpropagated : PropagatesNoParam codecs propagated) (h : isParam n = true) :
    (connectionHeaders codecs headerValueFromStr url backend downstream propagated).lookup n =
      downstream.bind (lastValue · n) := by
  have hinjected : propagated.filterMap (fun entry =>
      if codecs.headerNameFromBytes entry.1 = some n then headerValueFromStr entry.2 else none) = [] := by
    rw [List.filterMap_eq_nil_iff]
    intro entry hentry
    refine if_neg fun hname => ?_
    rw [hpropagated entry hentry n hname] at h
    cases h
  have hinitial : (initialHeaders headerValueFromStr url).lookup n = none := by
    unfold initialHeaders
    split
    · refine AList.lookup_eq_none.mpr ?_
      rw [AList.mem_keys, AList.keys_singleton, List.mem_singleton]
      rintro rfl
      exact absurd h (by rw [isParam, eqIgnoreAsciiCase_eq]; decide +kernel)
    · rfl
  unfold connectionHeaders
  rw [Passes.view_foldl_write (AList.lookup n) injectHeader_lookup, hinjected,
    applyHeaderConfig_lookup_protected _ _ _ (isProtectedHeader_of_isParam h), if_pos h, hinitial]
  simp

/-! ## The annotated headers -/

/-- The header of an annotation is a parameter header. -/
theorem isParam_of_mem_annotations {limit : Nat} (law : HeaderNameLaw codecs limit) {schema : JsonObject}
    {annotations : List ParamHeaderAnnotation} (h : paramHeaderAnnotations codecs schema = .ok annotations)
    {a : ParamHeaderAnnotation} (ha : a ∈ annotations) : isParam a.headerName = true := by
  obtain ⟨-, -, walk, ⟨⟨entries, hentries, hfound⟩, -, -, -⟩, rfl⟩ := (paramHeaderAnnotations_eq_ok law).mp h
  rw [show walk.annotations = entries from hentries.trans (List.nil_append entries)] at ha
  obtain ⟨found, header, ty, rfl⟩ : ∃ found header ty, a = entryFor found header ty := by
    obtain ⟨i, hi, rfl⟩ := List.getElem_of_mem ha
    obtain ⟨header, ty, -, heq⟩ := hfound.get (hfound.length_eq ▸ hi) hi
    exact ⟨_, header, ty, heq⟩
  have hlength : headerMcpParamPrefix.length = (headerMcpParamPrefix.toList.map Char.toLower).length := by
    rw [List.length_map, String.length_toList]
  have hlower : (headerMcpParamPrefix.toList.map Char.toLower).map Char.toLower =
      headerMcpParamPrefix.toList.map Char.toLower := by decide +kernel
  rw [isParam, eqIgnoreAsciiCase_eq, beq_iff_eq, entryFor, toAsciiLowercase, String.toList_map, String.toList_append,
    List.map_append, String.toList_ofList, hlength, List.take_left, hlower]

/-- Two bodies hold the same value of the annotated parameter, or neither has one. -/
def SameParam (a : ParamHeaderAnnotation) (arguments arguments' : Option JsonObject) : Prop :=
  ((∀ v, ¬ Present arguments a.propertyPath v) ∧ ∀ v, ¬ Present arguments' a.propertyPath v) ∨
    ∃ v v' p, Present arguments a.propertyPath v ∧ HasType a.parameterType v p ∧
      Present arguments' a.propertyPath v' ∧ HasType a.parameterType v' p

theorem hasType_unique {ty : ParameterType} {v : Value} {p q : ParameterValue} (h : HasType ty v p) (h' : HasType ty v q) :
    p = q := by
  cases h with
  | boolean b =>
    cases h'
    rfl
  | integer hn _ =>
    cases h' with
    | integer hm _ => rw [hn.unique hm]
  | string s =>
    cases h'
    rfl

/-- Headers that agree with a body agree with every body of the same parameter. -/
theorem SameParam.agrees {headers : HeaderMap} {arguments arguments' : Option JsonObject} {a : ParamHeaderAnnotation}
    (hsame : SameParam a arguments arguments') (h : Agrees codecs MachineDenotes headers arguments a) :
    Agrees codecs MachineDenotes headers arguments' a := by
  rcases h with ⟨hno, hempty⟩ | ⟨v, p, hv, hty, hne, hall⟩
  · rcases hsame with ⟨-, hno'⟩ | ⟨v, -, -, hv, -⟩
    · exact .inl ⟨hno', hempty⟩
    · exact absurd hv (hno v)
  · rcases hsame with ⟨hno, -⟩ | ⟨w, w', q, hw, hwty, hw', hwty'⟩
    · exact absurd hv (hno v)
    · obtain rfl := hv.unique hw
      obtain rfl := hasType_unique hty hwty
      exact .inr ⟨w', p, hw', hwty', hne, hall⟩

/-- Of the values of a header a connection keeps the last, so it agrees with every body that they all agree with. -/
theorem agrees_forwarded {headers : HeaderMap} {arguments : Option JsonObject} {a : ParamHeaderAnnotation}
    {url : BackendUrl} {backend : HeaderConfig} {propagated : List (String × String)}
    (hpropagated : PropagatesNoParam codecs propagated) (hparam : isParam a.headerName = true)
    (h : Agrees codecs MachineDenotes headers arguments a) :
    Agrees codecs MachineDenotes
      (connectionHeaders codecs headerValueFromStr url backend (some headers) propagated).toHeaderMap arguments a := by
  have hvalues : (connectionHeaders codecs headerValueFromStr url backend (some headers) propagated).toHeaderMap.getAll
      a.headerName = (headers.getAll a.headerName).getLast?.toList := by
    rw [getAll_toHeaderMap, connectionHeaders_lookup_param hpropagated hparam]
    rfl
  unfold Agrees
  rw [hvalues]
  rcases h with ⟨hno, hempty⟩ | ⟨v, p, hv, hty, hne, hall⟩
  · rw [hempty]
    exact .inl ⟨hno, rfl⟩
  · obtain ⟨last, hlast⟩ := Option.isSome_iff_exists.mp (List.getLast?_isSome.mpr hne)
    rw [hlast]
    refine .inr ⟨v, p, hv, hty, List.cons_ne_nil _ _, ?_⟩
    intro value hvalue
    rw [List.mem_singleton.mp hvalue]
    exact hall last (List.mem_of_getLast? hlast)

/-- What passes the check at the gateway passes it at the backend exactly when the arguments sent there hold the same
parameters. -/
theorem validateToolParams_forwarded {limit : Nat} (law : HeaderNameLaw codecs limit) {schema : JsonObject}
    {headers : HeaderMap} {arguments : Option JsonObject}
    (h : validateToolParams codecs headers arguments schema = .ok ()) {url : BackendUrl} {backend : HeaderConfig}
    {propagated : List (String × String)} (hpropagated : PropagatesNoParam codecs propagated) :
    let upstream := (connectionHeaders codecs headerValueFromStr url backend (some headers) propagated).toHeaderMap
    ∃ annotations, paramHeaderAnnotations codecs schema = .ok annotations ∧
      (∀ a ∈ annotations, Agrees codecs MachineDenotes upstream arguments a) ∧
      ∀ sent, validateToolParams codecs upstream sent schema = .ok () ↔ ∀ a ∈ annotations, SameParam a arguments sent := by
  intro upstream
  obtain ⟨annotations, hannotations, -⟩ := except_bind_eq_ok.mp h
  have hagrees : ∀ a ∈ annotations, Agrees codecs MachineDenotes upstream arguments a := by
    intro a ha
    exact agrees_forwarded hpropagated (isParam_of_mem_annotations law hannotations ha)
      ((validateToolParams_eq_ok hannotations).mp h a ha)
  refine ⟨annotations, hannotations, hagrees, fun sent => ?_⟩
  rw [validateToolParams_eq_ok hannotations]
  constructor
  · intro hsent a ha
    exact Agrees.bind (hagrees a ha) (hsent a ha)
  · intro hsame a ha
    exact (hsame a ha).agrees (hagrees a ha)

end Connection

/-! ## Tool calls -/

section Calls

variable {M C V : Type} [Inhabited C]

/-- For every tool call of a protocol version with standard headers, to a tool with a published schema, when the trace
propagator writes no parameter header: whatever the plugins did to the arguments, each parameter header of the
connection it is sent over is the client's last one and says the parameter the client sent, and a backend that makes the
gateway's check accepts the call exactly when the plugins left the annotated parameters as they were. -/
theorem callTool_params_forwarded (world : World M C V) {limit : Nat} (law : HeaderNameLaw world.codecs limit)
    (headerValueFromStr : String → Option HeaderValue) (parts : Parts) (request : CallToolRequestParams) :
    Logged.Within (fun io => ∀ backendName backend sent, io = .send backendName backend (.callTool sent) →
      ∀ schema, backend.toolSchemas.lookup sent.name = some schema →
      ∀ (url : BackendUrl) (config : HeaderConfig) (propagated : List (String × String)),
        PropagatesNoParam world.codecs propagated →
        let connection := connectionHeaders world.codecs headerValueFromStr url config (some parts.headers) propagated
        let upstream := connection.toHeaderMap
        (∀ name, isParam name = true → connection.lookup name = lastValue parts.headers name) ∧
        ∃ annotations, paramHeaderAnnotations world.codecs schema = .ok annotations ∧
          (∀ a ∈ annotations, Agrees world.codecs MachineDenotes upstream request.arguments a) ∧
          (validateToolParams world.codecs upstream sent.arguments schema = .ok () ↔
            ∀ a ∈ annotations, SameParam a request.arguments sent.arguments))
      (callTool world ⟨some parts, true⟩ request) := by
  unfold callTool
  refine Logged.within_ofExcept_bind fun virtualHost _ => Logged.within_ofExcept_bind fun route _ =>
    Logged.within_ofExcept_bind fun backend _ => Logged.within_ofExcept_bind fun _ hcheck =>
      Logged.within_ofExcept_bind fun preResult _ => ?_
  intro io hio backendName backend' sent heq schema hschema url config propagated hpropagated
  subst heq
  rw [exchange_bind_log] at hio
  rcases List.mem_cons.mp hio with hconnect | hsend
  · cases hconnect
  · split at hsend
    · cases List.mem_singleton.mp hsend
      have hvalid : validateToolParams world.codecs parts.headers request.arguments schema = .ok () := by
        unfold checkToolParams at hcheck
        dsimp only at hcheck hschema
        rw [if_pos rfl, hschema] at hcheck
        dsimp only at hcheck
        split at hcheck
        · assumption
        · cases hcheck
      obtain ⟨annotations, hannotations, hagrees, hiff⟩ := validateToolParams_forwarded law hvalid hpropagated
      exact ⟨fun name hname => connectionHeaders_lookup_param hpropagated hname, annotations, hannotations, hagrees,
        hiff _⟩
    · cases hsend

end Calls

/-! ## A counted tool -/

/-- A backend that publishes the schema of its one tool. -/
def countBackend : BackendMCPGateway := ⟨"b", "https://b", AList.singleton "tool" countSchema⟩

def countHost : VirtualHost where
  backends := AList.singleton "b" countBackend
  tools := AList.singleton "t" ⟨"b", "tool"⟩
  resources := ∅
  resourceTemplates := ∅
  prompts := ∅

def countParts : Parts := ⟨countHeaders, some ⟨AList.singleton "v" countHost⟩, some .null, some "v"⟩

/-- A gateway without plugins. -/
def countWorld : World Unit Unit Unit where
  plugins := none
  counter := 0
  pipeline _ := ⟨false, none, none, ()⟩
  toolLib := plainToolLib
  messageValue _ := none
  base64 := base64Standard
  codecs := tokenCodecs
  connect _ _ := .ok ()
  callTool _ _ := .ok ⟨[], none, none, none⟩
  getPrompt _ _ := .error (.other "")
  readResource _ _ := .error (.other "")
  complete _ _ := .error (.other "")

/-- Under a trace the call goes out with the client's header `4.2e1`, which the backend takes for the `42` of the
body. -/
theorem callTool_params_forwarded_count :
    BackendIo.send "b" countBackend (.callTool ⟨"tool", countArguments 42⟩) ∈
        (callTool countWorld ⟨some countParts, true⟩ ⟨"t", countArguments 42⟩).log ∧
      let connection := connectionHeaders tokenCodecs (fun _ => none) ⟨"https", some "b", none⟩ ⟨[], ∅, []⟩
        (some countHeaders) [("traceparent", "00")]
      connection.lookup "mcp-param-count" = lastValue countHeaders "mcp-param-count" ∧
        validateToolParams tokenCodecs connection.toHeaderMap (countArguments 42) countSchema = .ok () := by
  have hsend : BackendIo.send "b" countBackend (.callTool ⟨"tool", countArguments 42⟩) ∈
      (callTool countWorld ⟨some countParts, true⟩ ⟨"t", countArguments 42⟩).log := by
    have hroute : countHost.tools.lookup "t" = some ⟨"b", "tool"⟩ := rfl
    have hbackend : countHost.backends.lookup "b" = some countBackend := rfl
    have hvalid : validateToolParams tokenCodecs countHeaders (countArguments 42) countSchema = .ok () := by
      decide +kernel
    have hcheck : checkToolParams tokenCodecs ⟨some countParts, true⟩ countBackend "tool" ⟨"t", countArguments 42⟩ =
        .ok () := by
      unfold checkToolParams
      dsimp only [countParts]
      rw [if_pos rfl, show countBackend.toolSchemas.lookup "tool" = some countSchema from rfl]
      dsimp only
      rw [hvalid]
    have hhost : RequestContext.validateStateless ⟨some countParts, true⟩ = .ok countHost := rfl
    unfold callTool
    rw [hhost, Logged.ofExcept_ok_bind]
    dsimp only
    rw [hroute]
    unfold found
    dsimp only
    rw [Logged.ofExcept_ok_bind]
    dsimp only
    rw [hbackend]
    dsimp only
    rw [Logged.ofExcept_ok_bind, show countWorld.codecs = tokenCodecs from rfl, hcheck, Logged.ofExcept_ok_bind,
      show countWorld.beforeToolCall ⟨"t", countArguments 42⟩ "tool" "b" = .ok ⟨.unchanged, none⟩ from rfl,
      Logged.ofExcept_ok_bind, exchange_bind_log]
    exact List.mem_cons_of_mem _ (List.mem_singleton.mpr rfl)
  have hpropagated : PropagatesNoParam tokenCodecs [("traceparent", "00")] := by
    intro entry hentry name hname
    obtain rfl := List.mem_singleton.mp hentry
    have htoken : tokenCodecs.headerNameFromBytes "traceparent" = some (toAsciiLowercase "traceparent") :=
      tokenCodecs_law.accepts _ (by decide) (by decide +kernel) (by decide +kernel)
    obtain rfl := Option.some.inj (htoken.symm.trans hname)
    rw [isParam, eqIgnoreAsciiCase_eq]
    decide +kernel
  refine ⟨hsend, ?_⟩
  obtain ⟨hlookup, annotations, -, hagrees, hiff⟩ := callTool_params_forwarded countWorld tokenCodecs_law (fun _ => none)
    countParts ⟨"t", countArguments 42⟩ _ hsend _ _ _ rfl countSchema rfl ⟨"https", some "b", none⟩ ⟨[], ∅, []⟩ _
    hpropagated
  refine ⟨hlookup _ ?_, hiff.mpr fun a ha => ?_⟩
  · rw [isParam, eqIgnoreAsciiCase_eq]
    decide +kernel
  · exact Agrees.bind (hagrees a ha) (hagrees a ha)

end DataPlane.Gateway
