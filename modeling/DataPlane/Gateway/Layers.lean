/-
The layers of `into_router` in front of the MCP service, and the configuration they run with: the header limits, the
virtual host id, the claims of the token, the principal of the claims, the configuration of the user and the check of
the virtual host. The limits that are in force come from the stored global configuration at startup. The whole stack
is exact: a request is served exactly when every layer passes it, and else the first layer that does not answers it.
-/
import DataPlane.Auth.Jwks
import DataPlane.Gateway.UpstreamHeaders
import DataPlane.Gateway.VirtualHosts
import DataPlane.Store.Redis

namespace DataPlane.Gateway

open DataPlane.Headers DataPlane.Json
open DataPlane.Store (ConfigStoreError User)
open Rust

/-! ## Header limits -/

/-- `HEADER_SESSION_ID`. -/
def headerSessionId : String := "Mcp-Session-Id"

def isLimited (name : String) : Bool :=
  isExact name headerMcpMethod || isExact name headerMcpName || isExact name headerMcpProtocolVersion ||
    isExact name headerSessionId || isParam name

/-- A `usize`. -/
abbrev Usize := { n : Nat // n ≤ usizeMax }

structure StandardHeaderLimits where
  count : Usize
  valueBytes : Usize
  totalBytes : Usize

structure StandardHeaderUsage where
  count : Nat
  valueBytes : Nat
  totalBytes : Nat
  deriving DecidableEq

/-- One header of the loop of `mcp_standard_header_usage`. -/
def StandardHeaderUsage.count1 (usage : StandardHeaderUsage) (entry : String × HeaderValue) : StandardHeaderUsage where
  count := saturatingAdd usage.count 1
  valueBytes := max usage.valueBytes entry.2.bytes.length
  totalBytes := saturatingAdd (saturatingAdd usage.totalBytes entry.1.utf8ByteSize) entry.2.bytes.length

def mcpStandardHeaderUsage (headers : HeaderMap) : StandardHeaderUsage :=
  (headers.entries.filter (isLimited ·.1)).foldl .count1 ⟨0, 0, 0⟩

def StandardHeaderUsage.exceeds (usage : StandardHeaderUsage) (limits : StandardHeaderLimits) : Bool :=
  usage.count > limits.count || usage.valueBytes > limits.valueBytes || usage.totalBytes > limits.totalBytes

def exceededLimits (headers : HeaderMap) (limits : StandardHeaderLimits) : Option StandardHeaderUsage :=
  let usage := mcpStandardHeaderUsage headers
  if usage.exceeds limits then some usage else none

def mcpHeaderLimitsLayer (limits : StandardHeaderLimits) (request : Request) (next : Request → Except Fault Reply) :
    Except Fault Reply :=
  match exceededLimits request.parts.headers limits with
  | some _ => .ok (.answered (customError 431 "MCP standard header limits exceeded"))
  | none => next request

/-! ## Startup -/

/-- `GlobalConfig`; hosts are `hostname:port`. -/
structure GlobalConfig (U : Type) where
  mcpStandardHeaderMaxCount : Option Usize
  mcpStandardHeaderMaxValueBytes : Option Usize
  mcpStandardHeaderMaxTotalBytes : Option Usize
  mcpAllowedOrigins : Option (List U)
  mcpAllowedHosts : Option (List (String × UInt16))

/-- The fields of `Config` that the stored configuration decides. -/
structure Config (U A : Type) where
  mcpStandardHeaderMaxCount : Usize
  mcpStandardHeaderMaxValueBytes : Usize
  mcpStandardHeaderMaxTotalBytes : Usize
  mcpAllowedOrigins : Option (List U)
  mcpAllowedHosts : Option (List A)

/-- `DEFAULT_MCP_STANDARD_HEADER_MAX_COUNT`, `_VALUE_BYTES` and `_TOTAL_BYTES`. -/
def defaultMaxCount : Usize := ⟨32, by decide⟩
def defaultMaxValueBytes : Usize := ⟨8 * 1024, by decide⟩
def defaultMaxTotalBytes : Usize := ⟨64 * 1024, by decide⟩

section Startup

-- URLs, authorities and the error of `Authority::try_from`
variable {U A E : Type}

/-- `Config::try_from` of the command line, for these fields. -/
def Config.ofCli : Config U A := ⟨defaultMaxCount, defaultMaxValueBytes, defaultMaxTotalBytes, none, none⟩

/-- The allowed hosts in `Config::merge`, each parsed from its text. -/
def mergedHosts (authority : String → Except E A) : Option (List (String × UInt16)) → Except E (Option (List A))
  | some hosts => (hosts.mapM fun host => authority s!"{host.1}:{host.2.toNat}").map some
  | none => .ok none

/-- `Config::merge`. -/
def Config.merge (authority : String → Except E A) (config : Config U A) (rhs : GlobalConfig U) :
    Except E (Config U A) := do
  let hosts ← mergedHosts authority rhs.mcpAllowedHosts
  return { config with
    mcpStandardHeaderMaxCount := rhs.mcpStandardHeaderMaxCount.getD defaultMaxCount
    mcpStandardHeaderMaxTotalBytes := rhs.mcpStandardHeaderMaxTotalBytes.getD defaultMaxTotalBytes
    mcpStandardHeaderMaxValueBytes := rhs.mcpStandardHeaderMaxValueBytes.getD defaultMaxValueBytes
    mcpAllowedHosts := hosts
    mcpAllowedOrigins := rhs.mcpAllowedOrigins }

/-- How `main` gets its configuration from what the store holds; `none` is a start that is given up. -/
def startup (authority : String → Except E A) (config : Config U A) :
    Except ConfigStoreError (GlobalConfig U) → Option (Config U A)
  | .ok globalConfig => (config.merge authority globalConfig).toOption
  | .error .noDataForKey => some config
  | .error _ => none

def configuredOrDefault (configured fallback : Usize) : Usize := if configured.1 = 0 then fallback else configured

/-- `StandardHeaderLimits::from`. -/
def StandardHeaderLimits.ofConfig (config : Config U A) : StandardHeaderLimits where
  count := configuredOrDefault config.mcpStandardHeaderMaxCount defaultMaxCount
  valueBytes := configuredOrDefault config.mcpStandardHeaderMaxValueBytes defaultMaxValueBytes
  totalBytes := configuredOrDefault config.mcpStandardHeaderMaxTotalBytes defaultMaxTotalBytes

end Startup

/-! ## Principals -/

/-- `AuthorizedPrincipal`. -/
structure AuthorizedPrincipal where
  userId : String
  tenantId : String
  scopes : List String
  deriving DecidableEq

/-- `User::from`: the key is the user id alone. -/
def AuthorizedPrincipal.user (principal : AuthorizedPrincipal) : User := ⟨.userConfig, principal.userId⟩

/-- `PrincipalExtractor::extract`; what it refuses is only logged. -/
abbrev PrincipalExtractor := Value → Option AuthorizedPrincipal

/-- `Value::get` with a key. -/
def claimOf (claims : Value) (claim : String) : Option Value := claims.asObject.bind (·.get? claim)

/-- `DefaultPrincipalExtractor`: the first of the names that the claims have decides, string or not. -/
def defaultPrincipalExtractor : PrincipalExtractor := fun claims => do
  let userId ← (["sub", "user_id", "UserId"].findSome? (claimOf claims)).bind Value.asStr
  let tenantId ← (["tenantId", "tenant_id"].findSome? (claimOf claims)).bind Value.asStr
  return ⟨userId, tenantId, []⟩

/-- `cel::objects::Key`. -/
inductive CelKey where
  | int (n : Int)
  | uint (n : Nat)
  | bool (b : Bool)
  | string (s : String)
  deriving DecidableEq

/-- `cel::Value`, as far as the extractor looks at one. -/
inductive CelValue where
  | map (entries : List (CelKey × CelValue))
  | string (s : String)
  | other

/-- `AuthorizedPrincipal::try_from` a `cel::Value`. -/
def AuthorizedPrincipal.ofCel : CelValue → Option AuthorizedPrincipal
  | .map entries => match entries.lookup (.string "user_id"), entries.lookup (.string "tenant_id") with
    | some (.string userId), some (.string tenantId) => some ⟨userId, tenantId, []⟩
    | _, _ => none
  | _ => none

/-- `CelPrincipalExtractor`, with what its program evaluates to on the claims. -/
def celPrincipalExtractor (execute : Value → Option CelValue) : PrincipalExtractor := fun claims =>
  (execute claims).bind AuthorizedPrincipal.ofCel

/-! ## The layers -/

def unauthorizedResponse (message : String) : Response := customError 401 message

def internalServerError (message : String) : Response := customError 500 message

def bearerPrefix : List UInt8 := asBytes "Bearer ".toList

/-- `JwtAuthorizationService::authorize` as far as the token, which is UTF-8 behind `Bearer `. -/
def bearerToken (authorization : HeaderValue) : Option String :=
  if bearerPrefix.isPrefixOf authorization.bytes then fromUtf8 (authorization.bytes.drop bearerPrefix.length) else none

section Stack

variable {α : Type}

/-- `claims_layer`; the header name is lower-case in the map. -/
def claimsLayer (authorize : HeaderValue → Option Value) (request : Request) (next : Request → Response ⊕ α) :
    Response ⊕ α :=
  match firstValue request.parts.headers "authorization" with
  | none => .inl (unauthorizedResponse "No header")
  | some authorization => match authorize authorization with
    | none => .inl (unauthorizedResponse "Invalid token")
    | some claims => next { request with parts := { request.parts with claims := some claims } }

/-- `PrincipalExtractorMiddleware::call`; the principal goes to the layer behind. -/
def principalExtractorLayer (extract : PrincipalExtractor) (request : Request)
    (next : AuthorizedPrincipal → Request → Response ⊕ α) : Response ⊕ α :=
  match request.parts.claims.bind extract with
  | none => .inl (unauthorizedResponse "Invalid token. Unable to extract the principal from claims")
  | some principal => next principal request

def userConfigStoreLayer (getConfig : User → Except ConfigStoreError UserConfig) (principal : Option AuthorizedPrincipal)
    (request : Request) (next : Request → Response ⊕ α) : Response ⊕ α :=
  match principal with
  | none => .inl (badRequest "No claims in the token")
  | some principal => match getConfig principal.user with
    | .ok userConfig => next { request with parts := { request.parts with userConfig := some userConfig } }
    | .error .noDataForKey => .inl (badRequest "Problem occurred retrieving the configuration")
    | .error _ => .inl (internalServerError "Problem occurred retrieving the configuration")

/-- What the layers in the middle of the stack ask: whose token it is, and what the user's configuration is. -/
structure Services where
  authorize : HeaderValue → Option Value
  getConfig : User → Except ConfigStoreError UserConfig

/-- The three layers that authenticate a request and load its configuration. -/
def Services.authorization (services : Services) (extract : PrincipalExtractor) : Authorization := fun request =>
  claimsLayer services.authorize request fun request =>
    principalExtractorLayer extract request fun principal request =>
      userConfigStoreLayer services.getConfig (some principal) request fun request =>
        .inr (request.parts.userConfig, request.parts.claims)

/-- The stack of `into_router`, behind its routes. -/
def Services.gateway (services : Services) (limits : StandardHeaderLimits) (extract : PrincipalExtractor)
    (request : Request) : Except Fault Reply :=
  mcpHeaderLimitsLayer limits request (router (services.authorization extract))

end Stack

/-! ## Limits are exact -/

/-- The headers of a request that count. -/
def limitedHeaders (headers : HeaderMap) : List (String × HeaderValue) := headers.entries.filter (isLimited ·.1)

/-- The bytes of a header as they are counted. -/
def headerBytes (entry : String × HeaderValue) : Nat := entry.1.utf8ByteSize + entry.2.bytes.length

/-- A limit of the stored configuration, unless it is missing or zero. -/
def storedOrDefault {U : Type} (stored : Except ConfigStoreError (GlobalConfig U))
    (field : GlobalConfig U → Option Usize) (fallback : Usize) : Nat :=
  match stored.toOption.bind field with
  | some limit => if limit.1 = 0 then fallback else limit
  | none => fallback

/-- A request keeps to the limits that the stored configuration sets. A counter stops at the largest `usize`, so a
limit of that size is none. -/
structure WithinLimits {U : Type} (stored : Except ConfigStoreError (GlobalConfig U)) (headers : HeaderMap) : Prop where
  count : (limitedHeaders headers).length ≤ storedOrDefault stored (·.mcpStandardHeaderMaxCount) defaultMaxCount ∨
    storedOrDefault stored (·.mcpStandardHeaderMaxCount) defaultMaxCount = usizeMax
  value : ∀ entry ∈ limitedHeaders headers,
    entry.2.bytes.length ≤ storedOrDefault stored (·.mcpStandardHeaderMaxValueBytes) defaultMaxValueBytes
  total : ((limitedHeaders headers).map headerBytes).sum ≤
      storedOrDefault stored (·.mcpStandardHeaderMaxTotalBytes) defaultMaxTotalBytes ∨
    storedOrDefault stored (·.mcpStandardHeaderMaxTotalBytes) defaultMaxTotalBytes = usizeMax

theorem foldl_count1 : ∀ (entries : List (String × HeaderValue)) (count value total : Nat),
    entries.foldl .count1 (⟨min count usizeMax, value, min total usizeMax⟩ : StandardHeaderUsage) =
      ⟨min (count + entries.length) usizeMax, (entries.map (·.2.bytes.length)).foldl max value,
        min (total + (entries.map headerBytes).sum) usizeMax⟩
  | [], count, value, total => rfl
  | entry :: entries, count, value, total => by
    rw [List.foldl_cons, StandardHeaderUsage.count1]
    dsimp only
    rw [saturatingAdd_min, saturatingAdd_min, saturatingAdd_min, foldl_count1 entries]
    simp only [List.length_cons, List.map_cons, List.foldl_cons, List.sum_cons, headerBytes]
    congr 2 <;> omega

theorem mcpStandardHeaderUsage_eq (headers : HeaderMap) :
    mcpStandardHeaderUsage headers =
      ⟨min (limitedHeaders headers).length usizeMax, ((limitedHeaders headers).map (·.2.bytes.length)).foldl max 0,
        min ((limitedHeaders headers).map headerBytes).sum usizeMax⟩ := by
  have h := foldl_count1 (limitedHeaders headers) 0 0 0
  rw [Nat.zero_add, Nat.zero_add] at h
  exact h

theorem foldl_max_le {limit : Nat} : ∀ {values : List Nat} {value : Nat},
    values.foldl max value ≤ limit ↔ value ≤ limit ∧ ∀ v ∈ values, v ≤ limit
  | [], value => by simp
  | v :: values, value => by
    rw [List.foldl_cons, foldl_max_le, List.forall_mem_cons, Nat.max_le, and_assoc]

theorem min_usizeMax_le {n : Nat} (limit : Usize) : min n usizeMax ≤ limit.1 ↔ n ≤ limit.1 ∨ limit.1 = usizeMax := by
  have := limit.2
  omega

/-- The limits in force are those stored, and the defaults for what is not stored. -/
theorem limits_ofConfig {U A E : Type} {authority : String → Except E A}
    {stored : Except ConfigStoreError (GlobalConfig U)} {config : Config U A}
    (h : startup authority .ofCli stored = some config) :
    (StandardHeaderLimits.ofConfig config).count.1 =
        storedOrDefault stored (·.mcpStandardHeaderMaxCount) defaultMaxCount ∧
      (StandardHeaderLimits.ofConfig config).valueBytes.1 =
        storedOrDefault stored (·.mcpStandardHeaderMaxValueBytes) defaultMaxValueBytes ∧
      (StandardHeaderLimits.ofConfig config).totalBytes.1 =
        storedOrDefault stored (·.mcpStandardHeaderMaxTotalBytes) defaultMaxTotalBytes := by
  have hlimit : ∀ (field : GlobalConfig U → Option Usize) (globalConfig : GlobalConfig U) (fallback : Usize),
      (configuredOrDefault ((field globalConfig).getD fallback) fallback).1 =
        storedOrDefault (.ok globalConfig) field fallback := by
    intro field globalConfig fallback
    have hsome : (Except.ok globalConfig : Except ConfigStoreError _).toOption.bind field = field globalConfig := rfl
    unfold storedOrDefault configuredOrDefault
    rw [hsome]
    cases field globalConfig with
    | none => split <;> rfl
    | some limit => simp only [Option.getD_some]; split <;> rfl
  rcases stored with error | globalConfig
  · -- without stored data the defaults of the command line stay
    cases error with
    | noDataForKey =>
      cases h
      exact ⟨rfl, rfl, rfl⟩
    | _ => cases h
  · unfold startup Config.merge at h
    dsimp only at h
    rcases hhosts : mergedHosts authority globalConfig.mcpAllowedHosts with error | hosts
    · rw [hhosts] at h
      cases h
    · rw [hhosts] at h
      cases h
      exact ⟨hlimit (·.mcpStandardHeaderMaxCount) .., hlimit (·.mcpStandardHeaderMaxValueBytes) ..,
        hlimit (·.mcpStandardHeaderMaxTotalBytes) ..⟩

/-- A gateway that has started lets a request past its limits layer exactly when the limited headers keep to the
limits of the stored configuration, with the default for a limit that is missing or zero; no other header counts. -/
theorem headerLimits_exact {U A E : Type} (authority : String → Except E A)
    (stored : Except ConfigStoreError (GlobalConfig U)) (config : Config U A)
    (h : startup authority .ofCli stored = some config) (request : Request) (next : Request → Except Fault Reply) :
    (WithinLimits stored request.parts.headers →
      mcpHeaderLimitsLayer (.ofConfig config) request next = next request) ∧
    (¬ WithinLimits stored request.parts.headers →
      mcpHeaderLimitsLayer (.ofConfig config) request next =
        .ok (.answered (customError 431 "MCP standard header limits exceeded"))) := by
  obtain ⟨hcount, hvalue, htotal⟩ := limits_ofConfig h
  have hwithin : (mcpStandardHeaderUsage request.parts.headers).exceeds (.ofConfig config) = false ↔
      WithinLimits stored request.parts.headers := by
    rw [mcpStandardHeaderUsage_eq, StandardHeaderUsage.exceeds]
    simp only [Bool.or_eq_false_iff, decide_eq_false_iff_not, not_lt, gt_iff_lt, and_assoc]
    rw [min_usizeMax_le, min_usizeMax_le, foldl_max_le, hcount, hvalue, htotal]
    simp only [List.forall_mem_map, Nat.zero_le, true_and]
    exact ⟨fun ⟨hc, hv, ht⟩ => ⟨hc, hv, ht⟩, fun h => ⟨h.count, h.value, h.total⟩⟩
  unfold mcpHeaderLimitsLayer exceededLimits
  dsimp only
  refine ⟨fun hw => ?_, fun hw => ?_⟩
  · rw [hwithin.mpr hw]
    rfl
  · rw [Bool.eq_true_of_not_eq_false (mt hwithin.mp hw)]
    rfl

/-- Two limited headers and one that is not. -/
def twoLimitedHeaders : HeaderMap :=
  ⟨[("mcp-method", ⟨[97], by decide +kernel⟩), ("x-one", ⟨[98, 99], by decide +kernel⟩),
    ("mcp-param-user", ⟨[], by decide +kernel⟩)]⟩

/-- A stored count of one refuses them; a stored zero leaves the default. -/
theorem headerLimits_exact_count :
    mcpHeaderLimitsLayer (.ofConfig (⟨⟨1, by decide⟩, ⟨0, by decide⟩, defaultMaxTotalBytes, none, none⟩ : Config Unit Unit))
        ⟨"/", ⟨twoLimitedHeaders, none, none, none⟩⟩ (fun request => .ok (.served request.parts)) =
      .ok (.answered (customError 431 "MCP standard header limits exceeded")) ∧
    mcpHeaderLimitsLayer (.ofConfig (⟨⟨2, by decide⟩, ⟨0, by decide⟩, defaultMaxTotalBytes, none, none⟩ : Config Unit Unit))
        ⟨"/", ⟨twoLimitedHeaders, none, none, none⟩⟩ (fun request => .ok (.served request.parts)) =
      .ok (.served ⟨twoLimitedHeaders, none, none, none⟩) := by
  have hlimited : limitedHeaders twoLimitedHeaders =
      [("mcp-method", ⟨[97], by decide +kernel⟩), ("mcp-param-user", ⟨[], by decide +kernel⟩)] := by
    have hnames : isLimited "mcp-method" = true ∧ isLimited "x-one" = false ∧ isLimited "mcp-param-user" = true := by
      simp only [isLimited, isExact, isParam, eqIgnoreAsciiCase_eq, String.toList_ofList]
      decide +kernel
    obtain ⟨hmethod, hone, huser⟩ := hnames
    unfold limitedHeaders twoLimitedHeaders
    simp only [List.filter_cons, hmethod, hone, huser, if_true, Bool.false_eq_true, if_false, List.filter_nil]
  refine ⟨?_, ?_⟩
  · refine (headerLimits_exact (fun _ => (.error () : Except Unit Unit))
      (.ok ⟨some ⟨1, by decide⟩, some ⟨0, by decide⟩, none, none, none⟩) _ rfl _ _).2 ?_
    rintro ⟨hcount, -, -⟩
    dsimp only at hcount
    rw [hlimited] at hcount
    revert hcount
    decide
  · refine (headerLimits_exact (fun _ => (.error () : Except Unit Unit))
      (.ok ⟨some ⟨2, by decide⟩, some ⟨0, by decide⟩, none, none, none⟩) _ rfl _ _).1 ⟨?_, ?_, ?_⟩
    all_goals
      dsimp only
      rw [hlimited]
      decide

/-! ## The stack is exact -/

section Stack

variable {services : Services} {limits : StandardHeaderLimits} {extract : PrincipalExtractor}

/-- What every layer has to find for a request to be served, and the extensions it is served with. -/
structure Passes (services : Services) (limits : StandardHeaderLimits) (extract : PrincipalExtractor)
    (request : Request) (id : String) (authorization : HeaderValue) (claims : Value) (principal : AuthorizedPrincipal)
    (userConfig : UserConfig) : Prop where
  limits : exceededLimits request.parts.headers limits = none
  path : (extractVirtualHostId request.path).run = .ok (some id)
  header : firstValue request.parts.headers "authorization" = some authorization
  token : services.authorize authorization = some claims
  extracted : extract claims = some principal
  config : services.getConfig principal.user = .ok userConfig
  host : hasVirtualHost userConfig id = true

theorem authorization_eq_inr {request : Request} {config : Option UserConfig} {claims : Option Value} :
    services.authorization extract request = .inr (config, claims) ↔
      ∃ authorization value principal userConfig,
        firstValue request.parts.headers "authorization" = some authorization ∧
        services.authorize authorization = some value ∧ extract value = some principal ∧
        services.getConfig principal.user = .ok userConfig ∧ config = some userConfig ∧ claims = some value := by
  unfold Services.authorization claimsLayer principalExtractorLayer userConfigStoreLayer
  constructor
  · intro h
    split at h
    · cases h
    · rename_i authorization hauthorization
      split at h
      · cases h
      · rename_i value hvalue
        dsimp only at h
        rw [Option.bind_some] at h
        split at h
        · cases h
        · rename_i principal hprincipal
          split at h
          · rename_i userConfig hconfig
            cases h
            exact ⟨authorization, value, principal, userConfig, hauthorization, hvalue, hprincipal, hconfig, rfl, rfl⟩
          · cases h
          · cases h
  · rintro ⟨authorization, value, principal, userConfig, hauthorization, hvalue, hprincipal, hconfig, rfl, rfl⟩
    rw [hauthorization]
    dsimp only
    rw [hvalue]
    dsimp only
    rw [Option.bind_some, hprincipal]
    dsimp only
    rw [hconfig]

/-- A request is served exactly when every layer passes it, with what the layers found. -/
theorem gateway_served_iff {request : Request} {parts : Parts} :
    services.gateway limits extract request = .ok (.served parts) ↔
      ∃ id authorization claims principal userConfig,
        Passes services limits extract request id authorization claims principal userConfig ∧
        parts = ⟨request.parts.headers, some userConfig, some claims, some id⟩ := by
  unfold Services.gateway mcpHeaderLimitsLayer router virtualHostIdLayer virtualHostConfigLayer
  constructor
  · intro h
    split at h
    · cases h
    · rename_i hlimits
      dsimp only at h
      split at h
      · cases h
      · rename_i id hpath
        split at h
        · cases h
        · rename_i config claims hauth
          obtain ⟨authorization, value, principal, userConfig, hheader, htoken, hprincipal, hconfig, rfl, rfl⟩ :=
            authorization_eq_inr.mp hauth
          dsimp only at h
          split at h
          · rename_i hhost
            cases h
            exact ⟨id, authorization, value, principal, userConfig,
              ⟨hlimits, hpath, hheader, htoken, hprincipal, hconfig, hhost⟩, rfl⟩
          · cases h
      · cases h
  · rintro ⟨id, authorization, claims, principal, userConfig, h, rfl⟩
    have hauth : services.authorization extract
        { request with parts := { request.parts with virtualHostId := some id } } =
          .inr (some userConfig, some claims) :=
      authorization_eq_inr.mpr ⟨authorization, claims, principal, userConfig, h.header, h.token, h.extracted, h.config,
        rfl, rfl⟩
    rw [h.limits]
    dsimp only
    rw [h.path]
    dsimp only
    rw [hauth]
    dsimp only
    rw [h.host]
    rfl

end Stack

end DataPlane.Gateway
