/-
Token verification against a remote key set. `validate` looks into the cached keys, and fetches the
key set when none of them fits the token. The machine interleaves any number of calls with the
replies of the key server, expiry of the cache and the clock. Whatever is accepted was decoded under
a key that the key set offers for verification, of the family of the token's algorithm.
-/
import DataPlane.Json.Value
import DataPlane.Lib.Machine

namespace DataPlane.Auth

open DataPlane.Json

abbrev Bytes := List UInt8

/-! ## Keys and tokens -/

/-- `jsonwebtoken::AlgorithmFamily`. -/
inductive AlgorithmFamily where
  | hmac
  | rsa
  | ec
  | ed
  deriving DecidableEq

/-- `jsonwebtoken::Algorithm`. -/
inductive Algorithm where
  | hs256
  | hs384
  | hs512
  | es256
  | es384
  | rs256
  | rs384
  | rs512
  | ps256
  | ps384
  | ps512
  | edDSA
  deriving DecidableEq

/-- `Algorithm::family`. -/
def Algorithm.family : Algorithm → AlgorithmFamily
  | hs256 | hs384 | hs512 => .hmac
  | es256 | es384 => .ec
  | rs256 | rs384 | rs512 | ps256 | ps384 | ps512 => .rsa
  | edDSA => .ed

/-- `jsonwebtoken::Header`, as far as keys are chosen by it. -/
structure Header where
  alg : Algorithm
  kid : Option String

/-- `jwk::PublicKeyUse`. -/
inductive PublicKeyUse where
  | signature
  | encryption
  | other (text : String)
  deriving DecidableEq

/-- `jwk::KeyOperations`. -/
inductive KeyOperations where
  | sign
  | verify
  | encrypt
  | decrypt
  | wrapKey
  | unwrapKey
  | deriveKey
  | deriveBits
  | other (text : String)
  deriving DecidableEq

/-- `jwk::Jwk`: the common parameters that are read here, and the key itself. -/
structure Jwk (P : Type) where
  publicKeyUse : Option PublicKeyUse
  keyOperations : Option (List KeyOperations)
  keyId : Option String
  algorithm : P

/-- `jsonwebtoken::Validation`. -/
structure Validation where
  requiredSpecClaims : List String
  leeway : Nat
  rejectTokensExpiringInLessThan : Nat
  validateExp : Bool
  validateNbf : Bool
  validateAud : Bool
  aud : Option (List String)
  iss : Option (List String)
  sub : Option String
  algorithms : List Algorithm

/-- `Validation::new`. -/
def Validation.new (alg : Algorithm) : Validation where
  requiredSpecClaims := ["exp"]
  leeway := 60
  rejectTokensExpiringInLessThan := 0
  validateExp := true
  validateNbf := false
  validateAud := true
  aud := none
  iss := none
  sub := none
  algorithms := [alg]

/-- What is taken from `serde_json` and `jsonwebtoken`. A decoding may depend on the time. -/
structure JwtLib (P K : Type) where
  /-- `serde_json::from_slice::<JwkSet>`. -/
  parseJwkSet : Bytes → Option (List (Jwk P))
  /-- `DecodingKey::from_jwk`. -/
  fromJwk : Jwk P → Option K
  /-- `DecodingKey::family`. -/
  family : K → AlgorithmFamily
  /-- `decode::<Value>`. -/
  decode : Nat → String → K → Validation → Option Value

/-- `AuthorizationError`, as far as a fetch raises it, less the sources it carries. -/
inductive AuthorizationError where
  | noSupportedKeys
  | invalidJson
  | invalidKey
  | jwksRequest
  | jwksResponseTooLarge
  deriving DecidableEq

/-- `AuthorizationClaims`. -/
structure AuthorizationClaims where
  value : Value

/-! ## Verification keys -/

variable {P K : Type}

/-- `VerificationKey`. -/
structure VerificationKey (K : Type) where
  keyId : Option String
  decodingKey : K

/-- `VerificationKey::from_jwk`. -/
def VerificationKey.fromJwk (lib : JwtLib P K) (jwk : Jwk P) :
    Except AuthorizationError (Option (VerificationKey K)) :=
  if jwk.publicKeyUse.any (· ≠ .signature) || jwk.keyOperations.any (! ·.contains .verify) then .ok none
  else match lib.fromJwk jwk with
    | none => .error .invalidKey
    | some decodingKey => match lib.family decodingKey with
      | .rsa | .ec => .ok (some ⟨jwk.keyId, decodingKey⟩)
      | _ => .ok none

/-- `VerificationKey::matches`. -/
def VerificationKey.matches (lib : JwtLib P K) (key : VerificationKey K) (header : Header) : Bool :=
  lib.family key.decodingKey == header.alg.family &&
    header.kid.all fun headerKeyId => key.keyId.all (· == headerKeyId)

/-- The loop of `validated_json_web_keys`. -/
def collectKeys (lib : JwtLib P K) : List (Jwk P) → Except AuthorizationError (List (VerificationKey K))
  | [] => .ok []
  | jwk :: jwks => do
    let key ← VerificationKey.fromJwk lib jwk
    let keys ← collectKeys lib jwks
    pure (key.toList ++ keys)

/-- `validated_json_web_keys`. -/
def validatedJsonWebKeys (lib : JwtLib P K) (jwks : List (Jwk P)) :
    Except AuthorizationError (List (VerificationKey K)) := do
  let keys ← collectKeys lib jwks
  if keys.isEmpty then throw .noSupportedKeys else pure keys

/-! ## Fetching -/

/-- `JWKS_MAX_RESPONSE_BYTES`. -/
def jwksMaxResponseBytes : Nat := 1024 * 1024

/-- `reqwest::Response` past its status: the announced length and the chunks of the body, of which
each may be a read error. -/
structure Response where
  contentLength : Option Nat
  chunks : List (Option Bytes)

/-- The read loop of `fetch_jwks`. -/
def readBody : Bytes → List (Option Bytes) → Except AuthorizationError Bytes
  | body, [] => .ok body
  | _, none :: _ => .error .jwksRequest
  | body, some chunk :: chunks =>
    if chunk.length > jwksMaxResponseBytes - body.length then .error .jwksResponseTooLarge
    else readBody (body ++ chunk) chunks

/-- `fetch_jwks` up to the parsed document; `none` stands for a request that failed or was answered
with an error status. -/
def fetchDocument (lib : JwtLib P K) : Option Response → Except AuthorizationError (List (Jwk P))
  | none => .error .jwksRequest
  | some response => do
    if response.contentLength.any (· > jwksMaxResponseBytes) then throw .jwksResponseTooLarge
    let body ← readBody [] response.chunks
    match lib.parseJwkSet body with
    | none => throw .invalidJson
    | some jwks => pure jwks

/-- The end of `fetch_jwks`: the keys of a document. -/
def documentKeys (lib : JwtLib P K) (jwks : List (Jwk P)) : Except AuthorizationError (List (VerificationKey K)) :=
  if jwks.isEmpty then .ok [] else validatedJsonWebKeys lib jwks

/-- `fetch_jwks`. -/
def fetchJwks (lib : JwtLib P K) (response : Option Response) :
    Except AuthorizationError (List (VerificationKey K)) := do
  documentKeys lib (← fetchDocument lib response)

/-! ## Validation -/

/-- `Jwks`, less its client, URL and cache; the defaults are those of the builder. -/
structure Jwks where
  validateAudience : Bool := false
  validateExpiry : Bool := true
  validateNotBefore : Bool := true

/-- `Jwks::builder().build()`, as the service makes it. -/
def Jwks.build : Jwks := {}

/-- `Jwks::validation`. -/
def Jwks.validation (jwks : Jwks) (alg : Algorithm) : Validation :=
  { Validation.new alg with
    requiredSpecClaims := []
    validateAud := jwks.validateAudience
    validateExp := jwks.validateExpiry
    validateNbf := jwks.validateNotBefore }

/-- `Jwks::validate_and_decode_claims`. -/
def validateAndDecodeClaims (lib : JwtLib P K) (now : Nat) (token : String) (key : K) (validation : Validation) :
    Option AuthorizationClaims :=
  (lib.decode now token key validation).map .mk

/-- `Jwks::validate_with_keys`. -/
def validateWithKeys (lib : JwtLib P K) (now : Nat) (keys : List (VerificationKey K)) (token : String)
    (header : Header) (validation : Validation) : Option AuthorizationClaims :=
  (keys.filter (·.matches lib header)).findSome? fun key =>
    validateAndDecodeClaims lib now token key.decodingKey validation

/-! ## The machine -/

/-- Where a call of `validate` stands: before its fetch, before its cache insert, or returned. -/
inductive Phase (K : Type) where
  | fetching (token : String) (header : Header)
  | inserting (token : String) (header : Header) (keys : List (VerificationKey K)) (decodedAt : Nat)
      (claims : Option AuthorizationClaims)
  | returned

/-- What happened to the cache, and what the calls returned with the time of the decoding. -/
inductive Event (K : Type) where
  | fetched (call : Nat) (response : Option Response) (keys : List (VerificationKey K))
  | rejected (call : Nat) (error : AuthorizationError)
  | inserted (call : Nat) (keys : List (VerificationKey K))
  | expired
  | returned (call : Nat) (token : String) (header : Header) (decodedAt : Nat) (claims : Option AuthorizationClaims)

structure State (K : Type) where
  cache : Option (List (VerificationKey K))
  now : Nat
  phase : Nat → Option (Phase K)
  log : List (Event K)

inductive Label where
  | call (id : Nat) (token : String) (header : Header)
  | fetch (id : Nat) (response : Option Response)
  | insert (id : Nat)
  | expire
  | advance (duration : Nat)

namespace State

def init : State K := ⟨none, 0, fun _ => none, []⟩

/-- Move one call and record what happened, newest event first. -/
def move (s : State K) (id : Nat) (phase : Phase K) (events : List (Event K)) : State K :=
  { s with phase := fun i => if i = id then some phase else s.phase i, log := events ++ s.log }

end State

def step (lib : JwtLib P K) (jwks : Jwks) (s : State K) : Label → Option (State K)
  | .call id token header =>
    match s.phase id with
    | none =>
      -- under the read lock
      match s.cache.filter (·.any (·.matches lib header)) with
      | some keys =>
        let claims := validateWithKeys lib s.now keys token header (jwks.validation header.alg)
        some (s.move id .returned [.returned id token header s.now claims])
      | none => some (s.move id (.fetching token header) [])
    | some _ => none
  | .fetch id response =>
    match s.phase id with
    | some (.fetching token header) =>
      match fetchJwks lib response with
      | .ok keys =>
        let claims := validateWithKeys lib s.now keys token header (jwks.validation header.alg)
        some (s.move id (.inserting token header keys s.now claims) [.fetched id response keys])
      | .error error => some (s.move id .returned [.returned id token header s.now none, .rejected id error])
    | _ => none
  | .insert id =>
    match s.phase id with
    | some (.inserting token header keys decodedAt claims) =>
      some { s.move id .returned [.returned id token header decodedAt claims, .inserted id keys] with cache := some keys }
    | _ => none
  | .expire => some { s with cache := none, log := .expired :: s.log }
  | .advance duration => some { s with now := s.now + duration }

/-! ## What is accepted -/

/-- A JWK that may be used to verify. -/
def Jwk.Verifies (jwk : Jwk P) : Prop :=
  (jwk.publicKeyUse = none ∨ jwk.publicKeyUse = some .signature) ∧
    (jwk.keyOperations = none ∨ ∃ operations, jwk.keyOperations = some operations ∧ .verify ∈ operations)

/-- The verification key of a supported JWK. -/
structure Supported (lib : JwtLib P K) (jwk : Jwk P) (key : VerificationKey K) : Prop where
  verifies : jwk.Verifies
  keyId : key.keyId = jwk.keyId
  decodingKey : lib.fromJwk jwk = some key.decodingKey
  family : lib.family key.decodingKey = .rsa ∨ lib.family key.decodingKey = .ec

/-- The keys are those of the supported JWKs of a document, in its order. -/
inductive SupportedKeys (lib : JwtLib P K) : List (Jwk P) → List (VerificationKey K) → Prop
  | nil : SupportedKeys lib [] []
  | keep {jwk jwks key keys} : Supported lib jwk key → SupportedKeys lib jwks keys →
      SupportedKeys lib (jwk :: jwks) (key :: keys)
  | drop {jwk jwks keys} : (∀ key, ¬ Supported lib jwk key) → SupportedKeys lib jwks keys →
      SupportedKeys lib (jwk :: jwks) keys

theorem verifies_iff {jwk : Jwk P} : jwk.Verifies ↔
    (jwk.publicKeyUse.any (· ≠ .signature) || jwk.keyOperations.any (! ·.contains .verify)) = false := by
  unfold Jwk.Verifies
  cases jwk.publicKeyUse <;> cases jwk.keyOperations <;> simp

theorem supported_of_fromJwk {lib : JwtLib P K} {jwk : Jwk P} {key : VerificationKey K}
    (h : VerificationKey.fromJwk lib jwk = .ok (some key)) : Supported lib jwk key := by
  unfold VerificationKey.fromJwk at h
  split at h
  · cases h
  · rename_i hv
    have hverifies : jwk.Verifies := verifies_iff.mpr (Bool.eq_false_iff.mpr hv)
    split at h
    · cases h
    · rename_i decodingKey hk
      split at h
      · rename_i hf; cases h; exact ⟨hverifies, rfl, hk, .inl hf⟩
      · rename_i hf; cases h; exact ⟨hverifies, rfl, hk, .inr hf⟩
      · cases h

theorem not_supported_of_fromJwk {lib : JwtLib P K} {jwk : Jwk P} (h : VerificationKey.fromJwk lib jwk = .ok none)
    (key : VerificationKey K) : ¬ Supported lib jwk key := by
  rintro ⟨hv, -, hk, hf⟩
  unfold VerificationKey.fromJwk at h
  rw [verifies_iff.mp hv, hk] at h
  rcases hf with hf | hf
  · simp [hf] at h
  · simp [hf] at h

theorem supportedKeys_of_collectKeys {lib : JwtLib P K} : ∀ {jwks : List (Jwk P)} {keys : List (VerificationKey K)},
    collectKeys lib jwks = .ok keys → SupportedKeys lib jwks keys
  | [], _, h => by cases h; exact .nil
  | jwk :: jwks, _, h => by
    unfold collectKeys at h
    cases hk : VerificationKey.fromJwk lib jwk with
    | error error => rw [hk] at h; cases h
    | ok key =>
      cases hks : collectKeys lib jwks with
      | error error => rw [hk, hks] at h; cases h
      | ok keys =>
        rw [hk, hks] at h
        cases h
        have ih := supportedKeys_of_collectKeys hks
        cases key with
        | none => exact .drop (not_supported_of_fromJwk hk) ih
        | some key => exact .keep (supported_of_fromJwk hk) ih

/-- A fetch that succeeds has read one document, and its keys are the supported ones of it. -/
theorem fetchJwks_eq_ok {lib : JwtLib P K} {response : Option Response} {keys : List (VerificationKey K)}
    (h : fetchJwks lib response = .ok keys) :
    ∃ document, fetchDocument lib response = .ok document ∧ SupportedKeys lib document keys := by
  unfold fetchJwks at h
  cases hd : fetchDocument lib response with
  | error error => rw [hd] at h; cases h
  | ok document =>
    rw [hd] at h
    refine ⟨document, rfl, ?_⟩
    change documentKeys lib document = .ok keys at h
    unfold documentKeys validatedJsonWebKeys at h
    split at h
    · rename_i he
      cases h
      rw [List.isEmpty_iff.mp he]
      exact .nil
    · cases hc : collectKeys lib document with
      | error error => rw [hc] at h; cases h
      | ok collected =>
        rw [hc] at h
        change (if collected.isEmpty then _ else _) = _ at h
        split at h
        · cases h
        · cases h; exact supportedKeys_of_collectKeys hc

theorem SupportedKeys.exists {lib : JwtLib P K} {jwks : List (Jwk P)} {keys : List (VerificationKey K)}
    (h : SupportedKeys lib jwks keys) {key : VerificationKey K} (hk : key ∈ keys) :
    ∃ jwk ∈ jwks, Supported lib jwk key := by
  induction h with
  | nil => cases hk
  | keep hs _ ih =>
    rcases List.mem_cons.mp hk with rfl | hk
    · exact ⟨_, List.mem_cons_self .., hs⟩
    · obtain ⟨jwk, hm, hs⟩ := ih hk
      exact ⟨jwk, List.mem_cons_of_mem _ hm, hs⟩
  | drop _ _ ih =>
    obtain ⟨jwk, hm, hs⟩ := ih hk
    exact ⟨jwk, List.mem_cons_of_mem _ hm, hs⟩

theorem matches_iff {lib : JwtLib P K} {key : VerificationKey K} {header : Header} :
    key.matches lib header = true ↔ lib.family key.decodingKey = header.alg.family ∧
      (header.kid = none ∨ key.keyId = none ∨ key.keyId = header.kid) := by
  unfold VerificationKey.matches
  cases header.kid <;> cases key.keyId <;> simp

/-- Claims come from a decoding under a key that matches the header. -/
theorem validateWithKeys_eq_some {lib : JwtLib P K} {now : Nat} {keys : List (VerificationKey K)} {token : String}
    {header : Header} {validation : Validation} {claims : AuthorizationClaims}
    (h : validateWithKeys lib now keys token header validation = some claims) :
    ∃ key ∈ keys, key.matches lib header = true ∧
      lib.decode now token key.decodingKey validation = some claims.value := by
  unfold validateWithKeys at h
  obtain ⟨key, hk, hd⟩ := List.exists_of_findSome?_eq_some h
  obtain ⟨hm, hmatch⟩ := List.mem_filter.mp hk
  refine ⟨key, hm, hmatch, ?_⟩
  unfold validateAndDecodeClaims at hd
  obtain ⟨value, hv, rfl⟩ := Option.map_eq_some_iff.mp hd
  exact hv

end DataPlane.Auth
