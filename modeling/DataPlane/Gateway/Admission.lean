/-
The gateway as a system: any number of requests on their way through the layers, the token verification and the
user-config store they share, the JWKS endpoint, Redis and its other writers, and the clock, in any order. A request
waits twice, for `validate` and for `get_config`, and everything else may happen in between: the stack of layers is
cut into the segment in front of the first wait, the one between the two and the one behind the second, and the three
together are the stack.
-/
import DataPlane.Auth.Verification
import DataPlane.Gateway.Layers
import DataPlane.Store.Freshness

namespace DataPlane.Gateway.Admission

open DataPlane.Headers DataPlane.Json
open DataPlane.Store (User ConfigStoreError)
open Rust

/-! ## The machine -/

/-- What the gateway is started with, and what it takes from the JWT and MessagePack crates. -/
structure Env (P K : Type) where
  limits : StandardHeaderLimits
  extract : PrincipalExtractor
  jwt : Auth.JwtLib P K
  /-- `jsonwebtoken::decode_header`. -/
  decodeHeader : String → Option Auth.Header
  codec : Store.Codec UserConfig

/-- Where a request stands, or a `set_config` that another handler makes. -/
inductive Phase where
  | authorizing (arrived : Request) (parts : Parts) (token : String) (header : Auth.Header)
  | loading (arrived : Request) (parts : Parts) (principal : AuthorizedPrincipal)
  | ended (arrived : Request) (reply : Except Fault Reply)
  | configuring

structure State (K : Type) where
  jwks : Auth.State K
  store : Store.State UserConfig
  phase : Nat → Option Phase

/-- Requests arrive and go on when what they wait for is there; the services and what is behind them make steps of
their own. -/
inductive Label where
  | arrive (r : Nat) (path : String) (headers : HeaderMap)
  | authorized (r : Nat)
  | loaded (r : Nat)
  | configure (r : Nat) (user : User) (config : UserConfig)
  | jwks (label : Auth.Label)
  | store (label : Store.Label UserConfig)
  | advance (duration : Nat)

/-- The result of the `validate` call of a request. -/
def validated {K : Type} (log : List (Auth.Event K)) (r : Nat) : Option (Option Auth.AuthorizationClaims) :=
  log.findSome? fun
    | .returned call _ _ _ claims => if call = r then some claims else none
    | _ => none

/-- The result of the `get_config` call of a request. -/
def fetched (log : List (Store.Event UserConfig)) (r : Nat) : Option (Except ConfigStoreError UserConfig) :=
  log.findSome? fun
    | .got call _ config _ => if call = r then some (.ok config) else none
    | .failed call error => if call = r then some (.error error) else none
    | _ => none

/-- Hand a request to what is behind the layers. -/
def passOn (request : Request) : Except Fault Reply := .ok (.served request.parts)

/-- A request as it comes in, without extensions. -/
def arrival (path : String) (headers : HeaderMap) : Request := ⟨path, ⟨headers, none, none, none⟩⟩

section Segments

variable {P K : Type} (env : Env P K)

/-- The layers in front of the first wait. -/
def Env.front (request : Request) : Except Fault Reply :=
  mcpHeaderLimitsLayer env.limits request fun request => virtualHostIdLayer request passOn

/-- The token of an `Authorization` header with its own header, as far as `authorize` gets without the keys. -/
def Env.tokenOf (authorization : HeaderValue) : Option (String × Auth.Header) := do
  let token ← bearerToken authorization
  let header ← env.decodeHeader token
  return (token, header)

/-- The layers between the two waits. -/
def Env.middle (claims : Option Value) (request : Request) : Response ⊕ (AuthorizedPrincipal × Request) :=
  claimsLayer (fun _ => claims) request fun request =>
    principalExtractorLayer env.extract request fun principal request => .inr (principal, request)

/-- The layers behind the second wait. -/
def back (config : Except ConfigStoreError UserConfig) (principal : AuthorizedPrincipal) (request : Request) :
    Except Fault Reply :=
  match userConfigStoreLayer (fun _ => config) (some principal) request .inr with
  | .inl response => .ok (.answered response)
  | .inr request => virtualHostConfigLayer request passOn

end Segments

namespace State

variable {P K : Type}

def init (cacheExpiry : Nat) (redis : Store.Bytes → Option Store.Bytes) : State K :=
  ⟨.init, .init cacheExpiry redis, fun _ => none⟩

def move (s : State K) (r : Nat) (phase : Phase) : State K :=
  { s with phase := fun i => if i = r then some phase else s.phase i }

/-- A request goes on with the claims of its token. -/
def resume (env : Env P K) (s : State K) (r : Nat) (arrived : Request) (parts : Parts) (claims : Option Value) :
    Option (State K) :=
  match env.middle claims ⟨arrived.path, parts⟩ with
  | .inl response => some (s.move r (.ended arrived (.ok (.answered response))))
  | .inr (principal, request) =>
    (Store.step env.codec s.store (.call r (.get principal.user))).map fun store =>
      { s with store }.move r (.loading arrived request.parts principal)

end State

/-- The steps of the key cache that no request makes by arriving. -/
def jwksBackground : Auth.Label → Bool
  | .fetch _ _ | .insert _ | .expire => true
  | .call _ _ _ | .advance _ => false

/-- The steps of the store that no handler makes by calling it. -/
def storeBackground : Store.Label UserConfig → Bool
  | .query _ _ | .write _ _ _ | .insert _ | .external _ _ | .evict _ => true
  | .call _ _ | .advance _ => false

def step {P K : Type} (env : Env P K) (s : State K) : Label → Option (State K)
  | .arrive r path headers =>
    match s.phase r with
    | some _ => none
    | none =>
      match env.front (arrival path headers) with
      | .ok (.served parts) =>
        match (firstValue parts.headers "authorization").bind env.tokenOf with
        | none => s.resume env r (arrival path headers) parts none
        | some (token, header) =>
          (Auth.step env.jwt .build s.jwks (.call r token header)).map fun jwks =>
            { s with jwks }.move r (.authorizing (arrival path headers) parts token header)
      | reply => some (s.move r (.ended (arrival path headers) reply))
  | .authorized r =>
    match s.phase r with
    | some (.authorizing arrived parts _ _) =>
      (validated s.jwks.log r).bind fun claims => s.resume env r arrived parts (claims.map (·.value))
    | _ => none
  | .loaded r =>
    match s.phase r with
    | some (.loading arrived parts principal) =>
      (fetched s.store.log r).map fun config =>
        s.move r (.ended arrived (back config principal ⟨arrived.path, parts⟩))
    | _ => none
  | .configure r user config =>
    match s.phase r with
    | some _ => none
    | none => (Store.step env.codec s.store (.call r (.set user config))).map fun store =>
        { s with store }.move r .configuring
  | .jwks label =>
    if jwksBackground label then (Auth.step env.jwt .build s.jwks label).map fun jwks => { s with jwks } else none
  | .store label =>
    if storeBackground label then (Store.step env.codec s.store label).map fun store => { s with store } else none
  | .advance duration =>
    some { s with
      jwks := { s.jwks with now := s.jwks.now + duration }
      store := { s.store with now := s.store.now + duration } }

/-! ## The segments make up the stack -/

section Segments

variable {P K : Type} {env : Env P K} {services : Services} {arrived request request' : Request} {parts : Parts}
  {claims : Option Value} {principal : AuthorizedPrincipal} {response : Response}

theorem front_eq_served : env.front request = .ok (.served parts) ↔
    exceededLimits request.parts.headers env.limits = none ∧
      ∃ id, (extractVirtualHostId request.path).run = .ok (some id) ∧
        parts = { request.parts with virtualHostId := some id } := by
  unfold Env.front mcpHeaderLimitsLayer virtualHostIdLayer passOn
  constructor
  · intro h
    split at h
    · cases h
    · rename_i hlimits
      dsimp only at h
      split at h
      · cases h
      · rename_i id hid
        cases h
        exact ⟨hlimits, id, hid, rfl⟩
      · cases h
  · rintro ⟨hlimits, id, hid, rfl⟩
    rw [hlimits]
    dsimp only
    rw [hid]

/-- A request that does not get past the front ends there. -/
theorem gateway_of_front (h : ∀ parts, env.front arrived ≠ .ok (.served parts)) :
    services.gateway env.limits env.extract arrived = env.front arrived := by
  unfold Services.gateway Env.front mcpHeaderLimitsLayer router virtualHostIdLayer at *
  rcases hlimits : exceededLimits arrived.parts.headers env.limits with _ | usage
  · rw [hlimits] at h
    dsimp only at h ⊢
    rcases hid : (extractVirtualHostId arrived.path).run with fault | id
    · rfl
    · cases id with
      | none => rfl
      | some id =>
        rw [hid] at h
        exact absurd rfl (h _)
  · rfl

theorem middle_eq_inr (h : env.middle claims request = .inr (principal, request')) :
    ∃ authorization value, firstValue request.parts.headers "authorization" = some authorization ∧
      claims = some value ∧ env.extract value = some principal ∧
      request' = { request with parts := { request.parts with claims := some value } } := by
  unfold Env.middle claimsLayer principalExtractorLayer at h
  split at h
  · cases h
  · rename_i authorization hheader
    split at h
    · cases h
    · rename_i value hvalue
      dsimp only at h
      split at h
      · cases h
      · rename_i own hown
        cases h
        exact ⟨authorization, value, hheader, hvalue, hown, rfl⟩

theorem middle_of_extract (request : Request) {authorization : HeaderValue} {value : Value}
    (hheader : firstValue request.parts.headers "authorization" = some authorization)
    (hextract : env.extract value = some principal) :
    env.middle (some value) request =
      .inr (principal, { request with parts := { request.parts with claims := some value } }) := by
  unfold Env.middle claimsLayer principalExtractorLayer
  rw [hheader]
  dsimp only
  rw [Option.bind_some, hextract]

/-- The stack asks for the claims and the principal as the middle segment does. -/
theorem authorization_eq_of_middle (env : Env P K) (services : Services) (request : Request) (hclaims : ∀ authorization,
      firstValue request.parts.headers "authorization" = some authorization → services.authorize authorization = claims) :
    services.authorization env.extract request = (env.middle claims request).elim .inl fun next =>
      userConfigStoreLayer services.getConfig (some next.1) next.2 fun request =>
        .inr (request.parts.userConfig, request.parts.claims) := by
  unfold Services.authorization Env.middle claimsLayer principalExtractorLayer
  rcases hheader : firstValue request.parts.headers "authorization" with _ | authorization
  · rfl
  · dsimp only
    rw [hclaims authorization hheader]
    rcases claims with _ | value
    · rfl
    · dsimp only
      rw [Option.bind_some]
      rcases env.extract value with _ | principal <;> rfl

theorem gateway_of_served (h : env.front arrived = .ok (.served parts)) (hclaims : ∀ authorization,
      firstValue arrived.parts.headers "authorization" = some authorization → services.authorize authorization = claims) :
    services.gateway env.limits env.extract arrived =
      (env.middle claims ⟨arrived.path, parts⟩).elim (fun response => .ok (.answered response)) fun next =>
        back (services.getConfig next.1.user) next.1 next.2 := by
  obtain ⟨hlimits, id, hid, rfl⟩ := front_eq_served.mp h
  have hauth := authorization_eq_of_middle env services
    ⟨arrived.path, { arrived.parts with virtualHostId := some id }⟩ hclaims
  unfold Services.gateway mcpHeaderLimitsLayer router virtualHostIdLayer
  rw [hlimits]
  dsimp only
  rw [hid]
  dsimp only
  rw [hauth]
  rcases hmiddle : env.middle claims ⟨arrived.path, { arrived.parts with virtualHostId := some id }⟩ with
    response | ⟨principal, request⟩
  · rfl
  · obtain ⟨-, value, -, -, -, rfl⟩ := middle_eq_inr hmiddle
    unfold back userConfigStoreLayer
    dsimp only [Sum.elim_inr]
    rcases services.getConfig principal.user with error | userConfig
    · cases error <;> rfl
    · rfl

end Segments

end DataPlane.Gateway.Admission
