/-
`apply_header_config` of `gateway/mcp_service/initialization.rs`: the headers of the connection to a backend, from
the map the gateway starts with, the backend's configured header lists and the client's own request headers. The
four loops over the map are read one header name at a time, and together they are the documented policy: what
the gateway owns is out of the configuration's reach, `Mcp-Param-*` comes from the client alone, and of the rest
removal wins over addition and addition over passthrough.
-/
import DataPlane.Gateway.Routing
import DataPlane.Lib.Passes

namespace DataPlane.Gateway

open DataPlane.Headers
open DataPlane.Lib

/-! ## Header names -/

/-- `str::eq_ignore_ascii_case`. -/
def eqIgnoreAsciiCase (a b : String) : Bool := toAsciiLowercase a == toAsciiLowercase b

theorem eqIgnoreAsciiCase_eq (a b : String) :
    eqIgnoreAsciiCase a b = (a.toList.map Char.toLower == b.toList.map Char.toLower) := by
  unfold eqIgnoreAsciiCase toAsciiLowercase
  rw [Bool.eq_iff_iff, beq_iff_eq, beq_iff_eq, ← String.toList_inj, String.toList_map, String.toList_map]

/-- `HEADER_MCP_METHOD`, `HEADER_MCP_NAME` and `HEADER_MCP_PROTOCOL_VERSION`. -/
def headerMcpMethod : String := "Mcp-Method"
def headerMcpName : String := "Mcp-Name"
def headerMcpProtocolVersion : String := "MCP-Protocol-Version"

def isExact (name expected : String) : Bool := eqIgnoreAsciiCase name expected

/-- A name that starts with `HEADER_MCP_PARAM_PREFIX`, in any case. The cut is by characters: only ASCII
characters compare equal to the constant, so a cut by bytes finds the same names. -/
def isParam (name : String) : Bool :=
  eqIgnoreAsciiCase (String.ofList (name.toList.take headerMcpParamPrefix.length)) headerMcpParamPrefix

def isComputed (name : String) : Bool :=
  isExact name headerMcpMethod || isExact name headerMcpName || isExact name headerMcpProtocolVersion || isParam name

/-- `PROTECTED`: the gateway's own, body framing, hop by hop, and reserved for the transport. -/
def protectedNames : List String :=
  ["host", "content-length", "content-type", "connection", "keep-alive", "proxy-authenticate", "proxy-authorization",
    "te", "trailer", "trailers", "transfer-encoding", "upgrade", "proxy-connection", "mcp-session-id", "accept",
    "last-event-id"]

def isProtectedHeader (name : String) : Bool :=
  protectedNames.any (fun p => eqIgnoreAsciiCase name p) || isComputed name

theorem isProtectedHeader_of_isParam {name : String} (h : isParam name) : isProtectedHeader name := by
  simp [isProtectedHeader, isComputed, h]

/-! ## The loops -/

/-- The header fields of a `BackendMCPGateway`. -/
structure HeaderConfig where
  passthroughHeaders : List String
  addHeaders : HashMap String String
  removeHeaders : List String

/-- `HeaderMap::get`, the first value of a name. -/
def firstValue (headers : HeaderMap) (name : String) : Option HeaderValue := (headers.getAll name).head?

/-- The map the connection to the backend is opened with: `HashMap<HeaderName, HeaderValue>`. -/
abbrev UpstreamHeaders := HashMap String HeaderValue

section
-- `HeaderName::from_bytes` and `HeaderValue::from_str` of the HTTP crate
variable (codecs : Codecs) (headerValueFromStr : String → Option HeaderValue)

/-- How the loops over configured names begin: an invalid name is skipped, and so is a protected one. -/
def onConfigured (name : String) (headers : UpstreamHeaders) (act : String → UpstreamHeaders) : UpstreamHeaders :=
  match codecs.headerNameFromBytes name with
  | none => headers
  | some name => if isProtectedHeader name then headers else act name

/-- The body of the loop over `passthrough_headers`. -/
def passHeader (downstream : HeaderMap) (headers : UpstreamHeaders) (name : String) : UpstreamHeaders :=
  onConfigured codecs name headers fun name =>
    match firstValue downstream name with
    | some value => headers.insert name value
    | none => headers

/-- One pair of the client's request on its way to `extend`, which gets the parameter headers. -/
def forwardParam (headers : UpstreamHeaders) (entry : String × HeaderValue) : UpstreamHeaders :=
  if isParam entry.1 then headers.insert entry.1 entry.2 else headers

/-- The body of the loop over `add_headers`, which also skips an entry with an invalid value. -/
def addHeader (headers : UpstreamHeaders) (entry : Σ _ : String, String) : UpstreamHeaders :=
  match headerValueFromStr entry.2 with
  | none => headers
  | some value => onConfigured codecs entry.1 headers fun name => headers.insert name value

/-- The body of the loop over `remove_headers`. -/
def removeHeader (headers : UpstreamHeaders) (name : String) : UpstreamHeaders :=
  onConfigured codecs name headers fun name => headers.erase name

/-- The part that needs the client's request. -/
def forwardDownstream (passthroughHeaders : List String) (headers : UpstreamHeaders) :
    Option HeaderMap → UpstreamHeaders
  | none => headers
  | some downstream =>
    downstream.entries.foldl forwardParam (passthroughHeaders.foldl (passHeader codecs downstream) headers)

def applyHeaderConfig (headers : UpstreamHeaders) (backend : HeaderConfig) (downstream : Option HeaderMap) :
    UpstreamHeaders :=
  let headers := forwardDownstream codecs backend.passthroughHeaders headers downstream
  let headers := backend.addHeaders.entries.foldl (addHeader codecs headerValueFromStr) headers
  backend.removeHeaders.foldl (removeHeader codecs) headers

/-! ## One name through each loop -/

variable {codecs headerValueFromStr} {n : String}

/-- A configured name reaches `n` when it parses to `n` and `n` is not protected. -/
def reaches (codecs : Codecs) (name n : String) : Bool :=
  codecs.headerNameFromBytes name == some n && !isProtectedHeader n

/-- A loop body that touches its own name alone touches `n` when the configured name reaches it. -/
theorem onConfigured_lookup {name : String} {headers : UpstreamHeaders} {act : String → UpstreamHeaders}
    (hact : ∀ name, name ≠ n → (act name).lookup n = headers.lookup n) :
    (onConfigured codecs name headers act).lookup n =
      if reaches codecs name n then (act n).lookup n else headers.lookup n := by
  unfold onConfigured reaches
  rcases codecs.headerNameFromBytes name with _ | parsed
  · simp
  · by_cases h : parsed = n
    · subst h
      rcases hp : isProtectedHeader parsed with _ | _ <;> simp [hp]
    · rcases hp : isProtectedHeader parsed with _ | _ <;> simp [hp, h, hact parsed h]

theorem passHeader_lookup (downstream : HeaderMap) (headers : UpstreamHeaders) (name : String) :
    (passHeader codecs downstream headers name).lookup n =
      ((if reaches codecs name n then firstValue downstream n else none) <|> headers.lookup n) := by
  unfold passHeader
  rw [onConfigured_lookup]
  · rcases reaches codecs name n with _ | _
    · simp
    · rcases firstValue downstream n with _ | value <;> simp
  · intro name hne
    rcases firstValue downstream name with _ | value
    · rfl
    · exact AList.lookup_insert_ne (Ne.symm hne)

theorem forwardParam_lookup (headers : UpstreamHeaders) (entry : String × HeaderValue) :
    (forwardParam headers entry).lookup n =
      ((if isParam n ∧ entry.1 = n then some entry.2 else none) <|> headers.lookup n) := by
  unfold forwardParam
  by_cases h : entry.1 = n
  · rw [← h]
    rcases isParam entry.1 with _ | _ <;> simp
  · rcases isParam entry.1 with _ | _ <;> simp [AList.lookup_insert_ne (Ne.symm h), h]

theorem addHeader_lookup (headers : UpstreamHeaders) (entry : Σ _ : String, String) :
    (addHeader codecs headerValueFromStr headers entry).lookup n =
      ((if reaches codecs entry.1 n then headerValueFromStr entry.2 else none) <|> headers.lookup n) := by
  unfold addHeader
  rcases headerValueFromStr entry.2 with _ | value
  · simp
  · dsimp only
    rw [onConfigured_lookup fun name hne => AList.lookup_insert_ne (Ne.symm hne)]
    rcases reaches codecs entry.1 n with _ | _ <;> simp

theorem removeHeader_lookup (headers : UpstreamHeaders) (name : String) :
    (removeHeader codecs headers name).lookup n = if reaches codecs name n then none else headers.lookup n := by
  unfold removeHeader
  rw [onConfigured_lookup fun name hne => AList.lookup_erase_ne (Ne.symm hne), AList.lookup_erase]

/-! ## The policy -/

/-- Some configured name of a list parses to `n`. -/
def NamedBy (codecs : Codecs) (names : List String) (n : String) : Prop :=
  ∃ name ∈ names, codecs.headerNameFromBytes name = some n

/-- A valid entry of `add_headers` gives `value` to `n`. -/
def HeaderConfig.Adds (codecs : Codecs) (headerValueFromStr : String → Option HeaderValue) (backend : HeaderConfig)
    (n : String) (value : HeaderValue) : Prop :=
  ∃ entry ∈ backend.addHeaders.entries,
    codecs.headerNameFromBytes entry.1 = some n ∧ headerValueFromStr entry.2 = some value

/-- The last value of a name in the client's request. -/
def lastValue (headers : HeaderMap) (name : String) : Option HeaderValue := (headers.getAll name).getLast?

/-- The documented policy for the headers of a backend connection, name by name. -/
structure FollowsPolicy (codecs : Codecs) (headerValueFromStr : String → Option HeaderValue)
    (initial : UpstreamHeaders) (backend : HeaderConfig) (downstream : Option HeaderMap) (result : UpstreamHeaders) :
    Prop where
  /-- What the gateway and its transport own is as it was. -/
  owned : ∀ n, isProtectedHeader n → ¬ isParam n → result.lookup n = initial.lookup n
  /-- A parameter header is the client's last one. -/
  param : ∀ n, isParam n → result.lookup n = (downstream.bind (lastValue · n) <|> initial.lookup n)
  removed : ∀ n, ¬ isProtectedHeader n → NamedBy codecs backend.removeHeaders n → result.lookup n = none
  added : ∀ n, ¬ isProtectedHeader n → ¬ NamedBy codecs backend.removeHeaders n →
    (∃ value, backend.Adds codecs headerValueFromStr n value) →
    ∃ value, backend.Adds codecs headerValueFromStr n value ∧ result.lookup n = some value
  passed : ∀ n, ¬ isProtectedHeader n → ¬ NamedBy codecs backend.removeHeaders n →
    (¬ ∃ value, backend.Adds codecs headerValueFromStr n value) → NamedBy codecs backend.passthroughHeaders n →
    ∀ value, downstream.bind (firstValue · n) = some value → result.lookup n = some value
  kept : ∀ n, ¬ isProtectedHeader n → ¬ NamedBy codecs backend.removeHeaders n →
    (¬ ∃ value, backend.Adds codecs headerValueFromStr n value) →
    ¬ (NamedBy codecs backend.passthroughHeaders n ∧ (downstream.bind (firstValue · n)).isSome) →
    result.lookup n = initial.lookup n

theorem any_reaches_of_protected (names : List String) (h : isProtectedHeader n) :
    names.any (reaches codecs · n) = false := by
  simp [reaches, h]

theorem any_reaches_iff {names : List String} (h : ¬ isProtectedHeader n) :
    names.any (reaches codecs · n) ↔ NamedBy codecs names n := by
  simp [reaches, NamedBy, h]

/-! ### Whole loops -/

theorem foldl_passHeader_lookup (downstream : HeaderMap) (names : List String) (headers : UpstreamHeaders) :
    (names.foldl (passHeader codecs downstream) headers).lookup n =
      ((if names.any (reaches codecs · n) then firstValue downstream n else none) <|> headers.lookup n) := by
  rw [Passes.view_foldl_write (AList.lookup n) (passHeader_lookup downstream), Passes.getLast_filterMap_const]

theorem foldl_forwardParam_lookup (downstream : HeaderMap) (headers : UpstreamHeaders) :
    (downstream.entries.foldl forwardParam headers).lookup n =
      ((if isParam n then lastValue downstream n else none) <|> headers.lookup n) := by
  rw [Passes.view_foldl_write (AList.lookup n) forwardParam_lookup]
  rcases isParam n with _ | _
  · simp
  · simp [lastValue, HeaderMap.getAll]

theorem forwardDownstream_lookup (names : List String) (headers : UpstreamHeaders) (downstream : Option HeaderMap) :
    (forwardDownstream codecs names headers downstream).lookup n =
      ((if isParam n then downstream.bind (lastValue · n) else none) <|>
        (if names.any (reaches codecs · n) then downstream.bind (firstValue · n) else none) <|> headers.lookup n) := by
  rcases downstream with _ | downstream
  · simp [forwardDownstream]
  · unfold forwardDownstream
    rw [foldl_forwardParam_lookup, foldl_passHeader_lookup]
    rfl

/-- The last value that a valid entry of `add_headers` gives to `n`, in the map's iteration order. -/
def lastAdded (codecs : Codecs) (headerValueFromStr : String → Option HeaderValue) (backend : HeaderConfig)
    (n : String) : Option HeaderValue :=
  (backend.addHeaders.entries.filterMap fun entry =>
    if reaches codecs entry.1 n then headerValueFromStr entry.2 else none).getLast?

theorem lastAdded_of_protected (backend : HeaderConfig) (h : isProtectedHeader n) :
    lastAdded codecs headerValueFromStr backend n = none := by
  simp [lastAdded, reaches, h]

theorem adds_of_lastAdded {backend : HeaderConfig} {value : HeaderValue}
    (h : lastAdded codecs headerValueFromStr backend n = some value) :
    backend.Adds codecs headerValueFromStr n value := by
  obtain ⟨entry, hm, hv⟩ := List.mem_filterMap.mp (List.mem_of_getLast? h)
  rcases hr : reaches codecs entry.1 n with _ | _
  · simp [hr] at hv
  · simp only [reaches, Bool.and_eq_true, beq_iff_eq] at hr
    exact ⟨entry, hm, hr.1, by simpa [reaches, hr] using hv⟩

theorem lastAdded_eq_none {backend : HeaderConfig} (h : ¬ isProtectedHeader n)
    (hnone : lastAdded codecs headerValueFromStr backend n = none) (value : HeaderValue) :
    ¬ backend.Adds codecs headerValueFromStr n value := by
  rintro ⟨entry, hm, hname, hvalue⟩
  unfold lastAdded at hnone
  rw [List.getLast?_eq_none_iff, List.filterMap_eq_nil_iff] at hnone
  have := hnone entry hm
  simp [reaches, hname, h, hvalue] at this

/-- Any name after all four loops. -/
theorem applyHeaderConfig_lookup (initial : UpstreamHeaders) (backend : HeaderConfig) (downstream : Option HeaderMap)
    (n : String) :
    (applyHeaderConfig codecs headerValueFromStr initial backend downstream).lookup n =
      if backend.removeHeaders.any (reaches codecs · n) then none
      else
        (lastAdded codecs headerValueFromStr backend n <|>
          (if isParam n then downstream.bind (lastValue · n) else none) <|>
          (if backend.passthroughHeaders.any (reaches codecs · n) then downstream.bind (firstValue · n) else none) <|>
          initial.lookup n) := by
  unfold applyHeaderConfig
  dsimp only
  rw [Passes.view_foldl_clear (AList.lookup n) removeHeader_lookup,
    Passes.view_foldl_write (AList.lookup n) addHeader_lookup, forwardDownstream_lookup]
  rfl

/-- A protected name is out of the configuration's reach. -/
theorem applyHeaderConfig_lookup_protected (initial : UpstreamHeaders) (backend : HeaderConfig)
    (downstream : Option HeaderMap) (h : isProtectedHeader n) :
    (applyHeaderConfig codecs headerValueFromStr initial backend downstream).lookup n =
      ((if isParam n then downstream.bind (lastValue · n) else none) <|> initial.lookup n) := by
  rw [applyHeaderConfig_lookup, any_reaches_of_protected _ h, any_reaches_of_protected _ h, lastAdded_of_protected _ h]
  simp

/-- A name that is neither protected, removed nor added is the client's if it is passed through. -/
theorem applyHeaderConfig_lookup_passed (initial : UpstreamHeaders) {backend : HeaderConfig}
    (downstream : Option HeaderMap) (hprot : ¬ isProtectedHeader n)
    (hremoved : ¬ NamedBy codecs backend.removeHeaders n)
    (hadds : ¬ ∃ value, backend.Adds codecs headerValueFromStr n value) :
    (applyHeaderConfig codecs headerValueFromStr initial backend downstream).lookup n =
      ((if backend.passthroughHeaders.any (reaches codecs · n) then downstream.bind (firstValue · n) else none) <|>
        initial.lookup n) := by
  have hparam : ¬ isParam n := fun h => hprot (isProtectedHeader_of_isParam h)
  have hlast : lastAdded codecs headerValueFromStr backend n = none := by
    rcases hl : lastAdded codecs headerValueFromStr backend n with _ | value
    · rfl
    · exact absurd ⟨value, adds_of_lastAdded hl⟩ hadds
  rw [applyHeaderConfig_lookup, if_neg fun h => hremoved ((any_reaches_iff hprot).mp h), hlast, if_neg hparam]
  rfl

/-- The headers of a backend connection follow the documented policy, and what the policy protects is the same
whatever the backend's configuration. -/
theorem applyHeaderConfig_followsPolicy (codecs : Codecs) (headerValueFromStr : String → Option HeaderValue)
    (initial : UpstreamHeaders) (backend : HeaderConfig) (downstream : Option HeaderMap) :
    FollowsPolicy codecs headerValueFromStr initial backend downstream
        (applyHeaderConfig codecs headerValueFromStr initial backend downstream) ∧
      ∀ other n, isProtectedHeader n →
        (applyHeaderConfig codecs headerValueFromStr initial backend downstream).lookup n =
          (applyHeaderConfig codecs headerValueFromStr initial other downstream).lookup n := by
  refine ⟨⟨?owned, ?param, ?removed, ?added, ?passed, ?kept⟩, ?frame⟩
  case owned =>
    intro n hprot hparam
    rw [applyHeaderConfig_lookup_protected _ _ _ hprot]
    simp [hparam]
  case param =>
    intro n hparam
    rw [applyHeaderConfig_lookup_protected _ _ _ (isProtectedHeader_of_isParam hparam)]
    simp [hparam]
  case frame =>
    intro other n hprot
    rw [applyHeaderConfig_lookup_protected _ _ _ hprot, applyHeaderConfig_lookup_protected _ _ _ hprot]
  case removed =>
    intro n hprot hremoved
    rw [applyHeaderConfig_lookup, if_pos ((any_reaches_iff hprot).mpr hremoved)]
  case added =>
    intro n hprot hremoved hadds
    rw [applyHeaderConfig_lookup, if_neg fun h => hremoved ((any_reaches_iff hprot).mp h)]
    obtain ⟨value, hvalue⟩ := hadds
    rcases hl : lastAdded codecs headerValueFromStr backend n with _ | last
    · exact absurd hvalue (lastAdded_eq_none hprot hl value)
    · exact ⟨last, adds_of_lastAdded hl, by simp⟩
  case passed =>
    intro n hprot hremoved hadds hnamed value hvalue
    rw [applyHeaderConfig_lookup_passed initial downstream hprot hremoved hadds,
      if_pos ((any_reaches_iff hprot).mpr hnamed), hvalue]
    rfl
  case kept =>
    intro n hprot hremoved hadds hpassed
    rw [applyHeaderConfig_lookup_passed initial downstream hprot hremoved hadds]
    by_cases hnamed : NamedBy codecs backend.passthroughHeaders n
    · rcases hv : downstream.bind (firstValue · n) with _ | value
      · simp
      · exact absurd ⟨hnamed, by rw [hv]; rfl⟩ hpassed
    · rw [if_neg fun h => hnamed ((any_reaches_iff hprot).mp h)]
      rfl

end

end DataPlane.Gateway
