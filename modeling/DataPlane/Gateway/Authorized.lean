/-
Whatever the order of events, a request ends as the plain stack of layers would end it with the answers its own two
calls got. So no handler runs and no backend is contacted without a verified token and a configuration that Redis
held for that token's user.
-/
import DataPlane.Gateway.AdmissionCalls

namespace DataPlane.Gateway.Admission

open DataPlane.Headers DataPlane.Json
open DataPlane.Store (User ConfigStoreError)
open Rust

/-! ## The invariant -/

section Invariant

variable {P K : Type} {env : Env P K} {expiry : Nat} {redis : Store.Bytes → Option Store.Bytes}

/-- `validate` accepted the token of a header for a request. -/
def Accepted (env : Env P K) (s : State K) (r : Nat) (authorization : HeaderValue) (claims : Value) : Prop :=
  ∃ token header decodedAt, env.tokenOf authorization = some (token, header) ∧
    .returned r token header decodedAt (some ⟨claims⟩) ∈ s.jwks.log

/-- A header holds no token, or `validate` refused it for a request. -/
def Rejected (env : Env P K) (s : State K) (r : Nat) (authorization : HeaderValue) : Prop :=
  env.tokenOf authorization = none ∨ ∃ token header decodedAt, env.tokenOf authorization = some (token, header) ∧
    .returned r token header decodedAt none ∈ s.jwks.log

/-- Services that answer a request, as far as it asks them, as its own calls were answered. -/
structure Answers (env : Env P K) (s : State K) (r : Nat) (arrived : Request) (services : Services) : Prop where
  accepted : ∀ authorization claims, firstValue arrived.parts.headers "authorization" = some authorization →
    services.authorize authorization = some claims → Accepted env s r authorization claims
  rejected : ∀ parts authorization, env.front arrived = .ok (.served parts) →
    firstValue arrived.parts.headers "authorization" = some authorization →
    services.authorize authorization = none → Rejected env s r authorization
  found : ∀ authorization claims principal config, firstValue arrived.parts.headers "authorization" = some authorization →
    services.authorize authorization = some claims → env.extract claims = some principal →
    services.getConfig principal.user = .ok config → ∃ source, .got r principal.user config source ∈ s.store.log
  failed : ∀ authorization claims principal error,
    firstValue arrived.parts.headers "authorization" = some authorization →
    services.authorize authorization = some claims → env.extract claims = some principal →
    services.getConfig principal.user = .error error → .failed r error ∈ s.store.log

/-- A request has ended as the stack ends it with its answers. -/
def Explained (env : Env P K) (s : State K) (r : Nat) (arrived : Request) (reply : Except Fault Reply) : Prop :=
  ∃ services, Answers env s r arrived services ∧ reply = services.gateway env.limits env.extract arrived

def PhaseInv (env : Env P K) (s : State K) (r : Nat) : Option Phase → Prop
  | none => s.jwks.phase r = none ∧ s.store.phase r = none
  | some (.authorizing arrived parts token header) =>
      env.front arrived = .ok (.served parts) ∧
      (∃ authorization, firstValue arrived.parts.headers "authorization" = some authorization ∧
        env.tokenOf authorization = some (token, header)) ∧
      Validates s.jwks r token header ∧ s.store.phase r = none
  | some (.loading arrived parts principal) =>
      ∃ fronted authorization claims, env.front arrived = .ok (.served fronted) ∧
        firstValue arrived.parts.headers "authorization" = some authorization ∧
        Accepted env s r authorization claims ∧
        env.middle (some claims) ⟨arrived.path, fronted⟩ = .inr (principal, ⟨arrived.path, parts⟩) ∧
        Gets s.store r principal.user
  | some (.ended arrived reply) => Explained env s r arrived reply
  | some .configuring => True

structure Inv (env : Env P K) (expiry : Nat) (redis : Store.Bytes → Option Store.Bytes) (s : State K) : Prop where
  jwks : Auth.TraceInv env.jwt .build s.jwks
  store : Store.TraceInv env.codec expiry redis s.store
  phase : ∀ r, PhaseInv env s r (s.phase r)

/-! ### What a step leaves alone -/

/-- A step in which the services move by steps of theirs, and begin no call for a request that has none. -/
structure Frame (env : Env P K) (r : Nat) (s t : State K) : Prop where
  jwks : t.jwks = s.jwks ∨ ∃ label, Auth.step env.jwt .build s.jwks label = some t.jwks
  store : t.store = s.store ∨ ∃ label, Store.step env.codec s.store label = some t.store
  jwksIdle : s.jwks.phase r = none → t.jwks.phase r = none
  storeIdle : s.store.phase r = none → t.store.phase r = none

variable {s t : State K} {r : Nat}

theorem Frame.jwksLog (h : Frame env r s t) : ∃ events, t.jwks.log = events ++ s.jwks.log := by
  rcases h.jwks with heq | ⟨label, hstep⟩
  · exact ⟨[], congrArg Auth.State.log heq⟩
  · obtain ⟨events, hlog, -⟩ := jwks_frame hstep
    exact ⟨events, hlog⟩

theorem Frame.storeLog (h : Frame env r s t) : ∃ events, t.store.log = events ++ s.store.log := by
  rcases h.store with heq | ⟨label, hstep⟩
  · exact ⟨[], congrArg Store.State.log heq⟩
  · obtain ⟨events, hlog, -⟩ := store_frame hstep
    exact ⟨events, hlog⟩

theorem Accepted.frame {authorization : HeaderValue} {claims : Value} (h : Accepted env s r authorization claims)
    (hf : Frame env r s t) : Accepted env t r authorization claims := by
  obtain ⟨token, header, decodedAt, htoken, hm⟩ := h
  obtain ⟨events, hlog⟩ := hf.jwksLog
  exact ⟨token, header, decodedAt, htoken, hlog ▸ List.mem_append_right events hm⟩

theorem Rejected.frame {authorization : HeaderValue} (h : Rejected env s r authorization) (hf : Frame env r s t) :
    Rejected env t r authorization := by
  rcases h with hnone | ⟨token, header, decodedAt, htoken, hm⟩
  · exact .inl hnone
  · obtain ⟨events, hlog⟩ := hf.jwksLog
    exact .inr ⟨token, header, decodedAt, htoken, hlog ▸ List.mem_append_right events hm⟩

theorem Answers.frame {arrived : Request} {services : Services} (h : Answers env s r arrived services)
    (hf : Frame env r s t) : Answers env t r arrived services := by
  obtain ⟨events, hlog⟩ := hf.storeLog
  refine ⟨?_, ?_, ?_, ?_⟩
  · intro authorization claims hheader haccepted
    exact (h.accepted _ _ hheader haccepted).frame hf
  · intro parts authorization hfront hheader hrejected
    exact (h.rejected _ _ hfront hheader hrejected).frame hf
  · intro authorization claims principal config hheader haccepted hprincipal hconfig
    obtain ⟨source, hm⟩ := h.found _ _ _ _ hheader haccepted hprincipal hconfig
    exact ⟨source, hlog ▸ List.mem_append_right events hm⟩
  · intro authorization claims principal error hheader haccepted hprincipal herror
    exact hlog ▸ List.mem_append_right events (h.failed _ _ _ _ hheader haccepted hprincipal herror)

theorem Validates.frame {token : String} {header : Auth.Header} (h : Validates s.jwks r token header)
    (hf : Frame env r s t) : Validates t.jwks r token header := by
  rcases hf.jwks with heq | ⟨label, hstep⟩
  · exact heq ▸ h
  · exact h.step hstep

theorem Gets.frame {user : User} (h : Gets s.store r user) (hf : Frame env r s t) : Gets t.store r user := by
  rcases hf.store with heq | ⟨label, hstep⟩
  · exact heq ▸ h
  · exact h.step hstep

theorem PhaseInv.frame : ∀ {phase : Option Phase}, PhaseInv env s r phase → Frame env r s t → PhaseInv env t r phase
  | none, ⟨hjwks, hstore⟩, hf => ⟨hf.jwksIdle hjwks, hf.storeIdle hstore⟩
  | some (.authorizing _ _ _ _), ⟨hfront, hheader, hvalidates, hidle⟩, hf =>
    ⟨hfront, hheader, hvalidates.frame hf, hf.storeIdle hidle⟩
  | some (.loading _ _ _), ⟨fronted, authorization, claims, hfront, hheader, haccepted, hmiddle, hgets⟩, hf =>
    ⟨fronted, authorization, claims, hfront, hheader, haccepted.frame hf, hmiddle, hgets.frame hf⟩
  | some (.ended _ _), ⟨services, hanswers, hreply⟩, hf => ⟨services, hanswers.frame hf, hreply⟩
  | some .configuring, _, _ => trivial

theorem frame_jwks {label : Auth.Label} {jwks : Auth.State K} (hstep : Auth.step env.jwt .build s.jwks label = some jwks)
    (hactor : s.jwks.phase r = none → jwksActor label ≠ some r) : Frame env r s { s with jwks } where
  jwks := .inr ⟨label, hstep⟩
  store := .inl rfl
  jwksIdle hnone := by
    obtain ⟨-, -, -, hphase⟩ := jwks_frame hstep
    exact (hphase r (hactor hnone)).trans hnone
  storeIdle hnone := hnone

theorem frame_store {label : Store.Label UserConfig} {store : Store.State UserConfig}
    (hstep : Store.step env.codec s.store label = some store)
    (hactor : s.store.phase r = none → storeActor label ≠ some r) : Frame env r s { s with store } where
  jwks := .inl rfl
  store := .inr ⟨label, hstep⟩
  jwksIdle hnone := hnone
  storeIdle hnone := by
    obtain ⟨-, -, -, hphase⟩ := store_frame hstep
    exact (hphase r (hactor hnone)).trans hnone

/-- A background step is made by a call that has begun. -/
theorem jwksActor_ne {label : Auth.Label} {jwks jwks' : Auth.State K} (hb : jwksBackground label = true)
    (hstep : Auth.step env.jwt .build jwks label = some jwks') (hnone : jwks.phase r = none) :
    jwksActor label ≠ some r := by
  rintro hactor
  cases label with
  | call id token header => cases hb
  | fetch id response =>
    cases hactor
    simp only [Auth.step, hnone] at hstep
    cases hstep
  | insert id =>
    cases hactor
    simp only [Auth.step, hnone] at hstep
    cases hstep
  | expire => cases hactor
  | advance duration => cases hactor

theorem storeActor_ne {label : Store.Label UserConfig} {store store' : Store.State UserConfig}
    (hb : storeBackground label = true) (hstep : Store.step env.codec store label = some store')
    (hnone : store.phase r = none) : storeActor label ≠ some r := by
  rintro hactor
  cases label with
  | call id call => cases hb
  | query id answered =>
    cases hactor
    simp only [Store.step, hnone] at hstep
    cases hstep
  | write id applied reported =>
    cases hactor
    simp only [Store.step, hnone] at hstep
    cases hstep
  | insert id =>
    cases hactor
    simp only [Store.step, hnone] at hstep
    cases hstep
  | external key value => cases hactor
  | advance duration => cases hactor
  | evict subject => cases hactor

/-- A call that the store begins for one request does not touch the others. -/
theorem Inv.others_store (hi : Inv env expiry redis s) {call : Store.Call UserConfig} {store : Store.State UserConfig}
    (hstep : Store.step env.codec s.store (.call r call) = some store) {i : Nat} (hne : i ≠ r) :
    PhaseInv env { s with store } i (s.phase i) := by
  refine (hi.phase i).frame (frame_store hstep fun _ hactor => ?_)
  exact hne (Option.some.inj hactor).symm

/-- Moving one request, when the others are as they were. -/
theorem Inv.move {phase : Phase} (hjwks : Auth.TraceInv env.jwt .build s.jwks)
    (hstore : Store.TraceInv env.codec expiry redis s.store) (hothers : ∀ i, i ≠ r → PhaseInv env s i (s.phase i))
    (hown : PhaseInv env s r (some phase)) : Inv env expiry redis (s.move r phase) where
  jwks := hjwks
  store := hstore
  phase i := by
    have hf : ∀ i, Frame env i s (s.move r phase) := fun i => ⟨.inl rfl, .inl rfl, id, id⟩
    change PhaseInv env (s.move r phase) i (if i = r then some phase else s.phase i)
    by_cases hi : i = r
    · rw [if_pos hi, hi]
      exact hown.frame (hf r)
    · rw [if_neg hi]
      exact (hothers i hi).frame (hf i)

/-! ### Every step keeps it -/

/-- A request goes on with what its token gave. -/
theorem Inv.resume (laws : Store.CodecLaws env.codec) (hi : Inv env expiry redis s) {arrived : Request} {parts : Parts}
    {claims : Option Value} (hfront : env.front arrived = .ok (.served parts)) (hidle : s.store.phase r = none)
    (hclaims : ∀ authorization, firstValue arrived.parts.headers "authorization" = some authorization →
      (∀ value, claims = some value → Accepted env s r authorization value) ∧
        (claims = none → Rejected env s r authorization))
    (h : s.resume env r arrived parts claims = some t) : Inv env expiry redis t := by
  have hheaders : parts.headers = arrived.parts.headers := by
    obtain ⟨-, id, -, rfl⟩ := front_eq_served.mp hfront
    rfl
  unfold State.resume at h
  rcases hmiddle : env.middle claims ⟨arrived.path, parts⟩ with response | ⟨principal, request⟩
  · rw [hmiddle] at h
    cases h
    refine .move hi.jwks hi.store (fun i _ => hi.phase i) ?_
    -- the store was not asked, so any services that give these claims explain the answer
    refine ⟨⟨fun _ => claims, fun _ => .error .invalidConnection⟩, ⟨?_, ?_, ?_, ?_⟩, ?_⟩
    · intro authorization value hheader hvalue
      exact (hclaims authorization hheader).1 value hvalue
    · intro parts authorization _ hheader hnone
      exact (hclaims authorization hheader).2 hnone
    · intro authorization value principal config _ _ _ hconfig
      cases hconfig
    · intro authorization value principal error hheader hvalue hprincipal _
      rw [show claims = some value from hvalue,
        middle_of_extract ⟨arrived.path, parts⟩ (hheaders ▸ hheader) hprincipal] at hmiddle
      cases hmiddle
    · rw [gateway_of_served hfront fun _ _ => rfl, hmiddle]
      rfl
  · rw [hmiddle] at h
    obtain ⟨store, hstep, rfl⟩ := Option.map_eq_some_iff.mp h
    obtain ⟨authorization, value, hheader, rfl, -, rfl⟩ := middle_eq_inr hmiddle
    have hphase := hi.store.phase r
    rw [hidle] at hphase
    have haccepted := (hclaims authorization (hheaders ▸ hheader)).1 value rfl
    refine .move hi.jwks (Store.trace_step laws hi.store hstep) (fun i hne => hi.others_store hstep hne) ?_
    exact ⟨parts, authorization, value, hfront, hheaders ▸ hheader, haccepted, hmiddle, .start hidle hphase hstep⟩

theorem inv_arrive (laws : Store.CodecLaws env.codec) (hi : Inv env expiry redis s) {path : String}
    {headers : HeaderMap} (h : step env s (.arrive r path headers) = some t) : Inv env expiry redis t := by
  have hidle := hi.phase r
  simp only [step] at h
  split at h
  · cases h
  · rename_i hnone
    rw [hnone] at hidle
    obtain ⟨hjwks, hstore⟩ := hidle
    split at h
    · rename_i parts hfront
      have hheaders : parts.headers = (arrival path headers).parts.headers := by
        obtain ⟨-, id, -, rfl⟩ := front_eq_served.mp hfront
        rfl
      split at h
      · rename_i htoken
        refine hi.resume laws hfront hstore ?_ h
        intro authorization hheader
        rw [hheaders, hheader] at htoken
        refine ⟨?_, fun _ => .inl htoken⟩
        intro value hvalue
        cases hvalue
      · rename_i token header htoken
        obtain ⟨jwks, hstep, rfl⟩ := Option.map_eq_some_iff.mp h
        have hphase := hi.jwks.phase r
        rw [hjwks] at hphase
        have hframe : ∀ i, i ≠ r → Frame env i s { s with jwks } := by
          intro i hne
          exact frame_jwks hstep fun _ hactor => hne (Option.some.inj hactor).symm
        refine .move (Auth.trace_step hi.jwks hstep) hi.store (fun i hne => (hi.phase i).frame (hframe i hne)) ?_
        refine ⟨hfront, ?_, .start hjwks hphase hstep, hstore⟩
        rw [hheaders] at htoken
        exact Option.bind_eq_some_iff.mp htoken
    · rename_i hfront
      cases h
      refine .move hi.jwks hi.store (fun i _ => hi.phase i) ?_
      have hgateway : ∀ services : Services, env.front (arrival path headers) =
          services.gateway env.limits env.extract (arrival path headers) := by
        intro services
        exact (gateway_of_front fun parts heq => hfront parts heq).symm
      refine ⟨⟨fun _ => none, fun _ => .error .invalidConnection⟩, ⟨?_, ?_, ?_, ?_⟩, hgateway _⟩
      · intro authorization claims _ haccepted
        cases haccepted
      · intro parts authorization heq
        exact absurd heq (hfront parts)
      · intro authorization claims principal config _ haccepted
        cases haccepted
      · intro authorization claims principal error _ haccepted
        cases haccepted

theorem inv_authorized (laws : Store.CodecLaws env.codec) (hi : Inv env expiry redis s)
    (h : step env s (.authorized r) = some t) : Inv env expiry redis t := by
  have hphase := hi.phase r
  simp only [step] at h
  split at h
  · rename_i arrived parts token header hauthorizing
    rw [hauthorizing] at hphase
    obtain ⟨hfront, ⟨authorization, hheader, htoken⟩, hvalidates, hidle⟩ := hphase
    obtain ⟨claims, hclaims, h⟩ := Option.bind_eq_some_iff.mp h
    obtain ⟨ownToken, ownHeader, decodedAt, hm⟩ := validated_eq_some hclaims
    obtain ⟨rfl, rfl⟩ := hvalidates.own _ _ _ _ hm
    refine hi.resume laws hfront hidle ?_ h
    intro authorization' hheader'
    obtain rfl : authorization = authorization' := Option.some.inj (hheader.symm.trans hheader')
    refine ⟨?_, ?_⟩
    · intro value hvalue
      obtain ⟨own, rfl, rfl⟩ := Option.map_eq_some_iff.mp hvalue
      exact ⟨ownToken, ownHeader, decodedAt, htoken, hm⟩
    · intro hnone
      obtain rfl := Option.map_eq_none_iff.mp hnone
      exact .inr ⟨ownToken, ownHeader, decodedAt, htoken, hm⟩
  · cases h

theorem inv_loaded (hi : Inv env expiry redis s) (h : step env s (.loaded r) = some t) : Inv env expiry redis t := by
  have hphase := hi.phase r
  simp only [step] at h
  split at h
  · rename_i arrived parts principal hloading
    rw [hloading] at hphase
    obtain ⟨fronted, authorization, claims, hfront, hheader, haccepted, hmiddle, hgets⟩ := hphase
    obtain ⟨config, hconfig, rfl⟩ := Option.map_eq_some_iff.mp h
    obtain ⟨-, own, -, heq, hextract, -⟩ := middle_eq_inr hmiddle
    cases heq
    refine .move hi.jwks hi.store (fun i _ => hi.phase i) ?_
    refine ⟨⟨fun _ => some claims, fun _ => config⟩, ⟨?_, ?_, ?_, ?_⟩, ?_⟩
    · intro authorization' value hheader' hvalue
      obtain rfl : authorization = authorization' := Option.some.inj (hheader.symm.trans hheader')
      cases hvalue
      exact haccepted
    · intro _ _ _ _ hnone
      cases hnone
    · intro _ value principal' found _ hvalue hprincipal hfound
      cases hvalue
      cases hextract.symm.trans hprincipal
      obtain rfl : config = .ok found := hfound
      rcases fetched_eq_some hconfig with ⟨ownUser, own, source, hok, hm⟩ | ⟨error, herror, -⟩
      · cases hok
        rw [hgets.own _ _ _ hm] at hm
        exact ⟨source, hm⟩
      · cases herror
    · intro _ value principal' error _ hvalue hprincipal hfailed
      obtain rfl : config = .error error := hfailed
      rcases fetched_eq_some hconfig with ⟨ownUser, own, source, hok, -⟩ | ⟨own, herror, hm⟩
      · cases hok
      · cases herror
        exact hm
    · rw [gateway_of_served hfront fun _ _ => rfl, hmiddle]
      rfl
  · cases h

/-- Every step of the gateway keeps the invariant. -/
theorem inv_step (laws : Store.CodecLaws env.codec) (hi : Inv env expiry redis s) {label : Label}
    (h : step env s label = some t) : Inv env expiry redis t := by
  cases label with
  | arrive r path headers => exact inv_arrive laws hi h
  | authorized r => exact inv_authorized laws hi h
  | loaded r => exact inv_loaded hi h
  | configure r user config =>
    have hidle := hi.phase r
    simp only [step] at h
    split at h
    · cases h
    · obtain ⟨store, hstep, rfl⟩ := Option.map_eq_some_iff.mp h
      exact .move hi.jwks (Store.trace_step laws hi.store hstep) (fun i hne => hi.others_store hstep hne) trivial
  | jwks label =>
    simp only [step] at h
    split at h
    · rename_i hb
      obtain ⟨jwks, hstep, rfl⟩ := Option.map_eq_some_iff.mp h
      refine ⟨Auth.trace_step hi.jwks hstep, hi.store, fun i => (hi.phase i).frame ?_⟩
      exact frame_jwks hstep (jwksActor_ne hb hstep)
    · cases h
  | store label =>
    simp only [step] at h
    split at h
    · rename_i hb
      obtain ⟨store, hstep, rfl⟩ := Option.map_eq_some_iff.mp h
      refine ⟨hi.jwks, Store.trace_step laws hi.store hstep, fun i => (hi.phase i).frame ?_⟩
      exact frame_store hstep (storeActor_ne hb hstep)
    · cases h
  | advance duration =>
    cases h
    have hjwks : Auth.step env.jwt .build s.jwks (.advance duration) =
        some { s.jwks with now := s.jwks.now + duration } := rfl
    have hstore : Store.step env.codec s.store (.advance duration) =
        some { s.store with now := s.store.now + duration } := rfl
    refine ⟨Auth.trace_step hi.jwks hjwks, Store.trace_step laws hi.store hstore, fun i => (hi.phase i).frame ?_⟩
    exact ⟨.inr ⟨_, hjwks⟩, .inr ⟨_, hstore⟩, id, id⟩

theorem inv_init (env : Env P K) (cacheExpiry : Nat) (redis : Store.Bytes → Option Store.Bytes) :
    Inv env cacheExpiry redis (State.init cacheExpiry redis) where
  jwks := Auth.trace_init
  store := Store.trace_init cacheExpiry redis
  phase _ := ⟨rfl, rfl⟩

theorem inv_run (laws : Store.CodecLaws env.codec) {labels : List Label}
    (h : Machine.run (step env) (State.init expiry redis) labels = some s) : Inv env expiry redis s := by
  refine Machine.run_invariant ?_ (inv_init env expiry redis) h
  intro s label t hi hstep
  exact inv_step laws hi hstep

end Invariant

/-! ## Whose request is served -/

section Served

variable {P K : Type} {env : Env P K} {expiry : Nat} {redis : Store.Bytes → Option Store.Bytes} {s : State K} {r : Nat}

/-- A token was decoded, with its header's algorithm and the checks of `exp` and `nbf`, under an RSA or EC key of the
algorithm's family that a fetched document offers for verification. -/
structure VerifiedToken (lib : Auth.JwtLib P K) (log : List (Auth.Event K)) (token : String) (header : Auth.Header)
    (claims : Value) (document : List (Auth.Jwk P)) (jwk : Auth.Jwk P) (key : Auth.VerificationKey K) : Prop where
  fetched : ∃ keys, Auth.FetchedDocument lib log document keys ∧ key ∈ keys
  offered : jwk ∈ document ∧ jwk.Verifies ∧ lib.fromJwk jwk = some key.decodingKey
  family : (lib.family key.decodingKey = .rsa ∨ lib.family key.decodingKey = .ec) ∧
    lib.family key.decodingKey = header.alg.family
  decoded : ∃ decodedAt, lib.decode decodedAt token key.decodingKey (Auth.Jwks.build.validation header.alg) = some claims

theorem verifiedToken_of_returned (hi : Auth.TraceInv env.jwt .build s.jwks) {token : String} {header : Auth.Header}
    {decodedAt : Nat} {claims : Value} (hm : .returned r token header decodedAt (some ⟨claims⟩) ∈ s.jwks.log) :
    ∃ document jwk key, VerifiedToken env.jwt s.jwks.log token header claims document jwk key := by
  obtain ⟨newer, older, hlog⟩ := List.append_of_mem hm
  have hs := hi.sound
  rw [hlog] at hs
  have holder : Machine.Justified (Auth.Sound env.jwt .build) older := hs.older.2
  obtain ⟨keys, horigin, key, hk, hmatch, hdecode⟩ := hs.sound ⟨claims⟩ rfl
  obtain ⟨fetcher, hfetched⟩ : ∃ fetcher, Auth.FetchedBy older fetcher keys := by
    rcases horigin with hcached | hfetched
    · exact Auth.fetchedBy_of_cachedKeys holder hcached
    · exact ⟨r, hfetched⟩
  have hall : Auth.FetchedBy s.jwks.log fetcher keys := by
    rw [hlog, List.append_cons]
    exact hfetched.append _
  obtain ⟨document, hdocument⟩ := hall.document hi.sound
  obtain ⟨-, -, -, -, hkeys⟩ := id hdocument
  obtain ⟨jwk, hjwk, hsupported⟩ := hkeys.exists hk
  obtain ⟨hfamily, -⟩ := Auth.matches_iff.mp hmatch
  exact ⟨document, jwk, key, ⟨keys, hdocument, hk⟩, ⟨hjwk, hsupported.verifies, hsupported.decodingKey⟩,
    ⟨hsupported.family, hfamily⟩, decodedAt, hdecode⟩

theorem heldFor_of_got (hi : Store.TraceInv env.codec expiry redis s.store) {user : User} {config : UserConfig}
    {source : Store.Source} (hm : .got r user config source ∈ s.store.log) :
    Store.HeldFor env.codec redis s.store.log user config := by
  obtain ⟨newer, older, hlog⟩ := List.append_of_mem hm
  have hs := hi.sound
  rw [hlog] at hs
  have holder : Machine.Justified (Store.Sound env.codec expiry redis) older := hs.older.2
  have hheld : Store.HeldFor env.codec redis older user config := by
    cases source with
    | cache now =>
      obtain ⟨inserted, hl, -⟩ := hs.sound
      exact Store.heldFor_of_lastInserted holder hl
    | redis =>
      obtain ⟨key, bytes, hk, hq, hd⟩ := hs.sound
      obtain ⟨newer', older', rfl⟩ := List.append_of_mem hq
      rw [List.append_cons]
      exact ⟨key, bytes, hk, holder.sound.append _, hd⟩
  rw [hlog, List.append_cons]
  exact hheld.append _

/-- What stands behind a request that was handed to its handler with these extensions: a verified token, the
principal of its claims, and a configuration that Redis held for that principal's user and that has the host of the
request's path. -/
structure AuthorizedAs (env : Env P K) (redis : Store.Bytes → Option Store.Bytes) (s : State K) (arrived : Request)
    (parts : Parts) (principal : AuthorizedPrincipal) (userConfig : UserConfig) (host : VirtualHost) : Prop where
  limits : exceededLimits arrived.parts.headers env.limits = none
  token : ∃ authorization token header claims document jwk key,
    firstValue arrived.parts.headers "authorization" = some authorization ∧
    env.tokenOf authorization = some (token, header) ∧
    VerifiedToken env.jwt s.jwks.log token header claims document jwk key ∧
    env.extract claims = some principal ∧ parts.claims = some claims
  config : Store.HeldFor env.codec redis s.store.log ⟨.userConfig, principal.userId⟩ userConfig ∧
    parts.userConfig = some userConfig
  host : ∃ id, (extractVirtualHostId arrived.path).run = .ok (some id) ∧ parts.virtualHostId = some id ∧
    userConfig.virtualHosts.lookup id = some host

theorem authorizedAs_of_inv (hi : Inv env expiry redis s) {arrived : Request} {parts : Parts}
    (h : s.phase r = some (.ended arrived (.ok (.served parts)))) :
    ∃ principal userConfig host, AuthorizedAs env redis s arrived parts principal userConfig host := by
  have hphase := hi.phase r
  rw [h] at hphase
  obtain ⟨services, hanswers, hreply⟩ := hphase
  obtain ⟨id, authorization, claims, principal, userConfig, hpasses, rfl⟩ := gateway_served_iff.mp hreply.symm
  obtain ⟨token, header, decodedAt, htoken, hreturned⟩ := hanswers.accepted _ _ hpasses.header hpasses.token
  obtain ⟨document, jwk, key, hverified⟩ := verifiedToken_of_returned hi.jwks hreturned
  obtain ⟨source, hgot⟩ := hanswers.found _ _ _ _ hpasses.header hpasses.token hpasses.extracted hpasses.config
  obtain ⟨host, hhost⟩ := Option.isSome_iff_exists.mp hpasses.host
  refine ⟨principal, userConfig, host, hpasses.limits, ?_, ?_, ?_⟩
  · exact ⟨authorization, token, header, claims, document, jwk, key, hpasses.header, htoken, hverified,
      hpasses.extracted, rfl⟩
  · exact ⟨heldFor_of_got hi.store hgot, rfl⟩
  · exact ⟨id, hpasses.path, rfl, hhost⟩

/-- In every run a request that has ended ended as the stack of layers ends it with the results that the request's own
`validate` and `get_config` calls returned, as far as it got to make them. -/
theorem ended_as_stack (env : Env P K) (laws : Store.CodecLaws env.codec) (cacheExpiry : Nat)
    (redis : Store.Bytes → Option Store.Bytes) (labels : List Label) (s : State K)
    (hrun : Machine.run (step env) (State.init cacheExpiry redis) labels = some s) (r : Nat) (arrived : Request)
    (reply : Except Fault Reply) (h : s.phase r = some (.ended arrived reply)) :
    ∃ services, Answers env s r arrived services ∧ reply = services.gateway env.limits env.extract arrived := by
  have hphase := (inv_run laws hrun).phase r
  rw [h] at hphase
  exact hphase

/-- A route that a virtual host publishes. -/
def Published (host : VirtualHost) (route : ServiceRoute) : Prop :=
  ∃ name, host.tools.lookup name = some route ∨ host.prompts.lookup name = some route ∨
    host.resources.lookup name = some route ∨ host.resourceTemplates.lookup name = some route

theorem published_of_completionRoute {host : VirtualHost} {reference : Reference} {route : ServiceRoute}
    (h : completionRoute host reference = some route) : Published host route := by
  cases reference with
  | prompt name => exact ⟨name, .inr (.inl h)⟩
  | resource uri =>
    rcases Option.or_eq_some_iff.mp h with htemplate | ⟨-, hresource⟩
    · exact ⟨uri, .inr (.inr (.inr htemplate))⟩
    · exact ⟨uri, .inr (.inr (.inl hresource))⟩
  | other content => cases h

/-- No backend is contacted without authorization. In every run, whatever a handler does outside for a request it was
handed goes along a route published in the virtual host of the request's path, in a configuration that Redis held for
the user of the request's verified token; under arbitrary plugins and backends. -/
theorem backendIo_authorized (env : Env P K) (laws : Store.CodecLaws env.codec) (cacheExpiry : Nat)
    (redis : Store.Bytes → Option Store.Bytes) (labels : List Label) (s : State K)
    (hrun : Machine.run (step env) (State.init cacheExpiry redis) labels = some s) (r : Nat) (arrived : Request)
    (parts : Parts) (h : s.phase r = some (.ended arrived (.ok (.served parts)))) :
    ∃ principal userConfig host, AuthorizedAs env redis s arrived parts principal userConfig host ∧
      ∀ (M C V : Type) [Inhabited C] [DecidableEq V] (world : World M C V) (standardHeaders : Bool),
        let cx : RequestContext := ⟨some parts, standardHeaders⟩
        let OnPublished := fun io => ∃ route, Published host route ∧ OnRoute host route io
        (∀ request, Logged.Within OnPublished (callTool world cx request)) ∧
        (∀ request, Logged.Within OnPublished (getPrompt world cx request)) ∧
        (∀ request, Logged.Within OnPublished (readResource world cx request)) ∧
        ∀ request, Logged.Within OnPublished (complete world cx request) := by
  obtain ⟨principal, userConfig, host, hauthorized⟩ := authorizedAs_of_inv (inv_run laws hrun) h
  refine ⟨principal, userConfig, host, hauthorized, ?_⟩
  intro M C V _ _ world standardHeaders cx OnPublished
  -- the validator gives the handlers this host and no other
  have hhost : ∀ other, cx.validateStateless = .ok other → other = host := by
    intro other hother
    obtain ⟨id, -, hid, hlookup⟩ := hauthorized.host
    obtain ⟨own, hown, hlookup'⟩ := validateStateless_eq_ok hid hother
    rw [hauthorized.config.2] at hown
    cases hown
    exact Option.some.inj (hlookup'.symm.trans hlookup)
  refine ⟨?_, ?_, ?_, ?_⟩
  · intro request
    refine (callTool_within request).mono fun io => ?_
    rintro ⟨own, route, hown, hroute, hio⟩
    obtain rfl := hhost own hown
    exact ⟨route, ⟨request.name, .inl hroute⟩, hio⟩
  · intro request
    refine (getPrompt_within request).mono fun io => ?_
    rintro ⟨own, route, hown, hroute, hio⟩
    obtain rfl := hhost own hown
    exact ⟨route, ⟨request.name, .inr (.inl hroute)⟩, hio⟩
  · intro request
    refine (readResource_within request).mono fun io => ?_
    rintro ⟨own, route, hook, target, hown, hroute, -, htarget, hio⟩
    obtain rfl := hhost own hown
    obtain ⟨name, hname⟩ := resourceRoute_published hroute htarget
    exact ⟨target, ⟨name, .inr (.inr (.inl hname))⟩, hio⟩
  · intro request
    refine (complete_within request).mono fun io => ?_
    rintro ⟨own, route, hown, hroute, hio⟩
    obtain rfl := hhost own hown
    exact ⟨route, published_of_completionRoute hroute, hio⟩

end Served

/-! ## Two users and their requests -/

/-- The first user publishes a tool under the virtual host `a`, the second one nothing. -/
def sumConfig : UserConfig := ⟨AList.singleton "a" sumHost⟩

def emptyConfig : UserConfig := ⟨AList.singleton "a" ⟨∅, ∅, ∅, ∅, ∅⟩⟩

/-- The key of a user is its text; two configs are stored, as one byte each. -/
def twoCodec : Store.Codec UserConfig where
  encodeKey user := some user.key.toByteArray.data.toList
  encode _ := none
  decode bytes := if bytes = [1] then some sumConfig else if bytes = [2] then some emptyConfig else none

theorem twoCodec_laws : Store.CodecLaws twoCodec where
  key_inj u u' k h h' := by
    have hk : u.key.toByteArray.data.toList = u'.key.toByteArray.data.toList := Option.some.inj (h.trans h'.symm)
    apply Store.User.eq_of_key
    rw [← String.toByteArray_inj]
    exact ByteArray.ext (Array.toList_inj.mp hk)
  round_trip v b h := by cases h

/-- `alice` has the first config, `bob` the second. -/
def twoKeys (key : Store.Bytes) : Option Store.Bytes :=
  if key = [97, 108, 105, 99, 101] then some [1] else if key = [98, 111, 98] then some [2] else none

/-- The key of the document verifies a token of each user; the user is the token's claim, the tenant a constant. -/
def twoUsers : Env (Auth.AlgorithmFamily × String) (Auth.AlgorithmFamily × String) where
  limits := ⟨defaultMaxCount, defaultMaxValueBytes, defaultMaxTotalBytes⟩
  extract := celPrincipalExtractor fun claims => claims.asStr.map fun user =>
    .map [(.string "user_id", .string user), (.string "tenant_id", .string "t")]
  jwt := { Auth.oneDocument with
    decode := fun _ token key _ =>
      if key = (.rsa, "n") then
        if token = "a" then some (.string "alice") else if token = "b" then some (.string "bob") else none
      else none }
  decodeHeader token := if token = "a" ∨ token = "b" then some ⟨.rs256, some "rsa1"⟩ else none
  codec := twoCodec

/-- `Bearer a`. -/
def aliceBearer : HeaderValue := ⟨[66, 101, 97, 114, 101, 114, 32, 97], by decide +kernel⟩

/-- `Bearer b`. -/
def bobBearer : HeaderValue := ⟨[66, 101, 97, 114, 101, 114, 32, 98], by decide +kernel⟩

/-- A request with nothing but its bearer. -/
def bearerHeaders (bearer : HeaderValue) : HeaderMap := ⟨[("authorization", bearer)]⟩

def aliceParts : Parts := ⟨bearerHeaders aliceBearer, some sumConfig, some (.string "alice"), some "a"⟩

def bobParts : Parts := ⟨bearerHeaders bobBearer, some emptyConfig, some (.string "bob"), some "a"⟩

/-- Both requests miss the key cache and the config cache, and the second one overtakes the first. -/
def twoRequests : List Label :=
  [.arrive 0 "/servers/a/mcp" (bearerHeaders aliceBearer), .arrive 1 "/servers/a/mcp" (bearerHeaders bobBearer),
    .jwks (.fetch 0 (some ⟨none, [some [1]]⟩)), .jwks (.fetch 1 (some ⟨none, [some [1]]⟩)), .jwks (.insert 1),
    .authorized 1, .jwks (.insert 0), .authorized 0, .store (.query 0 true), .store (.query 1 true), .store (.insert 1),
    .loaded 1, .store (.insert 0), .loaded 0]

theorem front_twoUsers (bearer : HeaderValue) : twoUsers.front (arrival "/servers/a/mcp" (bearerHeaders bearer)) =
    .ok (.served ⟨bearerHeaders bearer, none, none, some "a"⟩) := by
  have hname : isLimited "authorization" = false := by
    simp only [isLimited, isExact, isParam, eqIgnoreAsciiCase_eq, String.toList_ofList]
    decide +kernel
  have hheaders : limitedHeaders (bearerHeaders bearer) = [] := by
    unfold limitedHeaders bearerHeaders
    simp only [List.filter_cons, hname, Bool.false_eq_true, if_false, List.filter_nil]
  refine front_eq_served.mpr ⟨?_, "a", extractVirtualHostId_between "a", rfl⟩
  have husage : mcpStandardHeaderUsage (bearerHeaders bearer) = ⟨0, 0, 0⟩ := by
    rw [mcpStandardHeaderUsage_eq, hheaders]
    decide
  unfold exceededLimits
  dsimp only [arrival]
  rw [husage]
  rfl

/-- A request with a token of one of the users waits for its `validate` call. -/
theorem arrive_twoUsers {s : State (Auth.AlgorithmFamily × String)} {r : Nat} {bearer : HeaderValue} {token : String}
    (htoken : bearerToken bearer = some token) (hheader : twoUsers.decodeHeader token = some ⟨.rs256, some "rsa1"⟩)
    (hnone : s.phase r = none) :
    step twoUsers s (.arrive r "/servers/a/mcp" (bearerHeaders bearer)) =
      (Auth.step twoUsers.jwt .build s.jwks (.call r token ⟨.rs256, some "rsa1"⟩)).map fun jwks =>
        State.move { s with jwks } r (.authorizing (arrival "/servers/a/mcp" (bearerHeaders bearer))
          ⟨bearerHeaders bearer, none, none, some "a"⟩ token ⟨.rs256, some "rsa1"⟩) := by
  have htokenOf : (firstValue (bearerHeaders bearer) "authorization").bind twoUsers.tokenOf =
      some (token, ⟨.rs256, some "rsa1"⟩) := by
    have hfirst : firstValue (bearerHeaders bearer) "authorization" = some bearer := rfl
    rw [hfirst, Option.bind_some]
    unfold Env.tokenOf
    rw [htoken]
    dsimp only [Option.bind_eq_bind, Option.bind_some]
    rw [hheader]
    rfl
  simp only [step, hnone, front_twoUsers, htokenOf]

theorem run_twoRequests : ∃ s, Machine.run (step twoUsers) (State.init 60 twoKeys) twoRequests = some s ∧
    s.phase 0 = some (.ended (arrival "/servers/a/mcp" (bearerHeaders aliceBearer)) (.ok (.served aliceParts))) ∧
    s.phase 1 = some (.ended (arrival "/servers/a/mcp" (bearerHeaders bobBearer)) (.ok (.served bobParts))) ∧
    s.phase 2 = none := by
  have halice : bearerToken aliceBearer = some "a" := by decide +kernel
  have hbob : bearerToken bobBearer = some "b" := by decide +kernel
  refine ⟨_, Machine.run_cons.mpr ⟨_, (arrive_twoUsers halice rfl rfl).trans rfl, Machine.run_cons.mpr ⟨_,
    (arrive_twoUsers hbob rfl rfl).trans rfl, rfl⟩⟩, rfl, rfl, rfl⟩

theorem ended_as_stack_twoRequests : ∃ s,
    Machine.run (step twoUsers) (State.init 60 twoKeys) twoRequests = some s ∧
    (∃ services, Answers twoUsers s 0 (arrival "/servers/a/mcp" (bearerHeaders aliceBearer)) services ∧
      services.gateway twoUsers.limits twoUsers.extract (arrival "/servers/a/mcp" (bearerHeaders aliceBearer)) =
        .ok (.served aliceParts)) ∧
    ∃ services, Answers twoUsers s 1 (arrival "/servers/a/mcp" (bearerHeaders bobBearer)) services ∧
      services.gateway twoUsers.limits twoUsers.extract (arrival "/servers/a/mcp" (bearerHeaders bobBearer)) =
        .ok (.served bobParts) := by
  obtain ⟨s, hrun, halice, hbob, -⟩ := run_twoRequests
  obtain ⟨services, hanswers, hreply⟩ :=
    ended_as_stack twoUsers twoCodec_laws 60 twoKeys twoRequests s hrun 0 _ _ halice
  obtain ⟨services', hanswers', hreply'⟩ :=
    ended_as_stack twoUsers twoCodec_laws 60 twoKeys twoRequests s hrun 1 _ _ hbob
  exact ⟨s, hrun, ⟨services, hanswers, hreply.symm⟩, services', hanswers', hreply'.symm⟩

/-- The call of the first user goes to the backend of its tool, under the name the tool has there; the second user, with
the same virtual host id, has no such tool. -/
theorem backendIo_authorized_twoRequests : ∃ s,
    Machine.run (step twoUsers) (State.init 60 twoKeys) twoRequests = some s ∧
    ∃ principal userConfig host, AuthorizedAs twoUsers twoKeys s
      (arrival "/servers/a/mcp" (bearerHeaders aliceBearer)) aliceParts principal userConfig host ∧
    (callTool (sumWorld none : World Unit Unit Unit) ⟨some aliceParts, false⟩ ⟨"sum", none⟩).log =
      [.connect "math" sumBackend, .send "math" sumBackend (.callTool ⟨"add", none⟩)] ∧
    (∃ route, Published host route ∧ OnRoute host route (.send "math" sumBackend (.callTool ⟨"add", none⟩))) ∧
    Logged.Refused (callTool (sumWorld none : World Unit Unit Unit) ⟨some bobParts, false⟩ ⟨"sum", none⟩) := by
  obtain ⟨s, hrun, halice, _, _⟩ := run_twoRequests
  obtain ⟨principal, userConfig, host, hauthorized, hpublished⟩ :=
    backendIo_authorized twoUsers twoCodec_laws 60 twoKeys twoRequests s hrun 0 _ _ halice
  have hlog : (callTool (sumWorld none : World Unit Unit Unit) ⟨some aliceParts, false⟩ ⟨"sum", none⟩).log =
      [.connect "math" sumBackend, .send "math" sumBackend (.callTool ⟨"add", none⟩)] := rfl
  refine ⟨s, hrun, principal, userConfig, host, hauthorized, hlog, ?_, rfl, _, rfl⟩
  refine (hpublished Unit Unit Unit (sumWorld none) false).1 ⟨"sum", none⟩ _ ?_
  rw [hlog]
  exact List.mem_cons_of_mem _ (List.mem_singleton.mpr rfl)

end DataPlane.Gateway.Admission
