/-
Soundness of token verification over whole runs: the cache is empty or holds the supported keys of
one fetched document, a fetch that fails changes nothing, and every token that was accepted was
decoded under a key of the cached or the just fetched document that fits its header.
-/
import DataPlane.Auth.Jwks

namespace DataPlane.Auth

variable {P K : Type} {lib : JwtLib P K} {jwks : Jwks}

/-! ## Histories -/

/-- The cached keys: the last insert, unless it has expired. -/
def cachedKeys : List (Event K) → Option (List (VerificationKey K))
  | [] => none
  | .inserted _ keys :: _ => some keys
  | .expired :: _ => none
  | _ :: older => cachedKeys older

/-- A call fetched keys. -/
def FetchedBy (log : List (Event K)) (id : Nat) (keys : List (VerificationKey K)) : Prop :=
  ∃ response, .fetched id response keys ∈ log

/-- A token was decoded under one of the keys. -/
def DecodedUnder (lib : JwtLib P K) (jwks : Jwks) (keys : List (VerificationKey K)) (decodedAt : Nat) (token : String)
    (header : Header) (claims : AuthorizationClaims) : Prop :=
  ∃ key ∈ keys, key.matches lib header = true ∧
    lib.decode decodedAt token key.decodingKey (jwks.validation header.alg) = some claims.value

/-- The call whose end an event is. -/
def Event.endOf : Event K → Option Nat
  | fetched _ _ _ => none
  | rejected id _ => some id
  | inserted id _ => some id
  | expired => none
  | returned id _ _ _ _ => some id

/-- A call that has not ended yet. -/
def Open (log : List (Event K)) (id : Nat) : Prop := ∀ e ∈ log, e.endOf ≠ some id

/-- What an event tells about the events before it. -/
def Sound (lib : JwtLib P K) (jwks : Jwks) : Event K → List (Event K) → Prop
  | .fetched _ response keys, _ => fetchJwks lib response = .ok keys
  | .rejected id _, older => ∀ keys, .inserted id keys ∉ older
  | .inserted id keys, older => FetchedBy older id keys ∧ ∀ error, .rejected id error ∉ older
  | .expired, _ => True
  | .returned id token header decodedAt claims, older => ∀ c, claims = some c →
      ∃ keys, (cachedKeys older = some keys ∨ FetchedBy older id keys) ∧
        DecodedUnder lib jwks keys decodedAt token header c

/-- What the log knows about a call in each phase. -/
def PhaseInv (lib : JwtLib P K) (jwks : Jwks) (log : List (Event K)) (id : Nat) : Option (Phase K) → Prop
  | none => Open log id
  | some (.fetching _ _) => Open log id
  | some (.inserting token header keys decodedAt claims) => Open log id ∧ FetchedBy log id keys ∧
      ∀ c, claims = some c → DecodedUnder lib jwks keys decodedAt token header c
  | some .returned => True

structure TraceInv (lib : JwtLib P K) (jwks : Jwks) (s : State K) : Prop where
  cache : s.cache = cachedKeys s.log
  sound : Machine.Justified (Sound lib jwks) s.log
  phase : ∀ id, PhaseInv lib jwks s.log id (s.phase id)

/-! ## A longer log -/

theorem FetchedBy.append {log : List (Event K)} {id : Nat} {keys : List (VerificationKey K)}
    (h : FetchedBy log id keys) (events : List (Event K)) : FetchedBy (events ++ log) id keys := by
  obtain ⟨response, hm⟩ := h
  exact ⟨response, List.mem_append_right events hm⟩

theorem Open.append {log : List (Event K)} {id : Nat} (h : Open log id) {events : List (Event K)}
    (hne : ∀ e ∈ events, e.endOf ≠ some id) : Open (events ++ log) id := by
  intro e he
  rcases List.mem_append.mp he with he | he
  · exact hne e he
  · exact h e he

theorem PhaseInv.append {log : List (Event K)} {id : Nat} {phase : Option (Phase K)}
    (h : PhaseInv lib jwks log id phase) {events : List (Event K)} (hne : ∀ e ∈ events, e.endOf ≠ some id) :
    PhaseInv lib jwks (events ++ log) id phase := by
  cases phase with
  | none => exact Open.append h hne
  | some phase =>
    cases phase with
    | fetching token header => exact Open.append h hne
    | inserting token header keys decodedAt claims => exact ⟨h.1.append hne, h.2.1.append events, h.2.2⟩
    | returned => trivial

/-- Moving a call and recording events of it, into a cache that the log accounts for. -/
theorem TraceInv.move {s : State K} {id : Nat} {phase : Phase K} {events : List (Event K)}
    {cache : Option (List (VerificationKey K))} (hi : TraceInv lib jwks s)
    (hown : ∀ e ∈ events, ∀ i, e.endOf = some i → i = id) (hcache : cache = cachedKeys (events ++ s.log))
    (hsound : Machine.Justified (Sound lib jwks) (events ++ s.log))
    (hphase : PhaseInv lib jwks (events ++ s.log) id (some phase)) :
    TraceInv lib jwks { s.move id phase events with cache := cache } where
  cache := hcache
  sound := hsound
  phase i := by
    change PhaseInv lib jwks (events ++ s.log) i (if i = id then some phase else s.phase i)
    by_cases hne : i = id
    · rw [if_pos hne, hne]; exact hphase
    · rw [if_neg hne]
      exact (hi.phase i).append fun e he ho => hne (hown e he i ho)

/-! ## Every step keeps it -/

section Steps

variable {s t : State K} {id : Nat}

theorem trace_call (hi : TraceInv lib jwks s) {token : String} {header : Header}
    (h : step lib jwks s (.call id token header) = some t) : TraceInv lib jwks t := by
  have hphase := hi.phase id
  simp only [step] at h
  split at h
  · rename_i hp
    rw [hp] at hphase
    split at h
    · rename_i keys hc
      cases h
      obtain ⟨hc, -⟩ := Option.filter_eq_some_iff.mp hc
      refine hi.move ?_ hi.cache ⟨?_, hi.sound⟩ trivial
      · simp [Event.endOf]
      · intro c hclaims
        exact ⟨keys, .inl (hi.cache.symm.trans hc), validateWithKeys_eq_some hclaims⟩
    · cases h
      refine hi.move ?_ hi.cache hi.sound hphase
      simp
  · cases h

theorem trace_fetch (hi : TraceInv lib jwks s) {response : Option Response}
    (h : step lib jwks s (.fetch id response) = some t) : TraceInv lib jwks t := by
  have ho := hi.phase id
  simp only [step] at h
  split at h
  · rename_i token header hp
    rw [hp] at ho
    split at h
    · rename_i keys hf
      cases h
      refine hi.move ?_ hi.cache ⟨hf, hi.sound⟩ ⟨?_, ⟨response, List.mem_cons_self ..⟩, ?_⟩
      · simp [Event.endOf]
      · exact Open.append ho (by simp [Event.endOf])
      · intro c hclaims
        exact validateWithKeys_eq_some hclaims
    · rename_i error hf
      cases h
      refine hi.move ?_ hi.cache ⟨by simp [Sound], ?_, hi.sound⟩ trivial
      · simp [Event.endOf]
      · intro keys hm
        exact ho _ hm rfl
  · cases h

theorem trace_insert (hi : TraceInv lib jwks s) (h : step lib jwks s (.insert id) = some t) :
    TraceInv lib jwks t := by
  have hphase := hi.phase id
  simp only [step] at h
  split at h
  · rename_i token header keys decodedAt claims hp
    cases h
    rw [hp] at hphase
    obtain ⟨ho, hfetched, hdecoded⟩ := hphase
    refine hi.move ?_ rfl ⟨?_, ⟨hfetched, ?_⟩, hi.sound⟩ trivial
    · simp [Event.endOf]
    · intro c hc
      exact ⟨keys, .inr (hfetched.append [.inserted id keys]), hdecoded c hc⟩
    · intro error hm
      exact ho _ hm rfl
  · cases h

theorem trace_step (hi : TraceInv lib jwks s) {label : Label} (h : step lib jwks s label = some t) :
    TraceInv lib jwks t := by
  cases label with
  | call id token header => exact trace_call hi h
  | fetch id response => exact trace_fetch hi h
  | insert id => exact trace_insert hi h
  | expire =>
    cases h
    refine ⟨rfl, ⟨trivial, hi.sound⟩, ?_⟩
    intro id
    have hne : ∀ e ∈ [(.expired : Event K)], e.endOf ≠ some id := by simp [Event.endOf]
    exact (hi.phase id).append hne
  | advance duration => cases h; exact ⟨hi.cache, hi.sound, hi.phase⟩

end Steps

theorem trace_init : TraceInv lib jwks (State.init : State K) where
  cache := rfl
  sound := trivial
  phase id e he := by cases he

/-! ## Soundness -/

/-- A document that was fetched, and its supported keys. -/
def FetchedDocument (lib : JwtLib P K) (log : List (Event K)) (document : List (Jwk P))
    (keys : List (VerificationKey K)) : Prop :=
  ∃ id response, .fetched id response keys ∈ log ∧ fetchDocument lib response = .ok document ∧
    SupportedKeys lib document keys

theorem FetchedBy.document {log : List (Event K)} {id : Nat} {keys : List (VerificationKey K)}
    (h : FetchedBy log id keys) (hs : Machine.Justified (Sound lib jwks) log) :
    ∃ document, FetchedDocument lib log document keys := by
  obtain ⟨response, hm⟩ := h
  obtain ⟨newer, older, rfl⟩ := List.append_of_mem hm
  obtain ⟨document, hd, hk⟩ := fetchJwks_eq_ok hs.sound
  exact ⟨document, id, response, hm, hd, hk⟩

/-- Cached keys were fetched. -/
theorem fetchedBy_of_cachedKeys {keys : List (VerificationKey K)} : ∀ {log : List (Event K)},
    Machine.Justified (Sound lib jwks) log → cachedKeys log = some keys → ∃ id, FetchedBy log id keys
  | [], _, h => by cases h
  | e :: log, hs, h => by
    have hold : cachedKeys log = some keys → ∃ id, FetchedBy (e :: log) id keys := by
      intro h
      obtain ⟨id, hf⟩ := fetchedBy_of_cachedKeys hs.2 h
      exact ⟨id, hf.append [e]⟩
    cases e with
    | inserted id keys' =>
      cases h
      exact ⟨id, hs.1.1.append [.inserted id keys]⟩
    | expired => cases h
    | fetched _ _ _ => exact hold h
    | rejected _ _ => exact hold h
    | returned _ _ _ _ _ => exact hold h

/-- A call whose fetch was rejected inserts nothing, before or after. -/
theorem not_inserted_of_rejected {log : List (Event K)} (hs : Machine.Justified (Sound lib jwks) log) {id : Nat}
    {error : AuthorizationError} (hr : .rejected id error ∈ log) (keys : List (VerificationKey K)) :
    .inserted id keys ∉ log := by
  refine hs.not_both ?_ ?_ ?_ hr
  · rintro ⟨⟩
  · intro older h
    exact h keys
  · intro older h
    exact h.2 error

/-- A fetch does not touch the cache. -/
theorem cache_fetch {s t : State K} {id : Nat} {response : Option Response}
    (h : step lib jwks s (.fetch id response) = some t) : t.cache = s.cache := by
  simp only [step] at h
  split at h
  · split at h <;> cases h <;> rfl
  · cases h

/-- In every run the cache is empty or holds exactly the supported keys of one fetched document; a
fetch leaves it alone, and a call whose fetch is rejected never inserts. Claims are returned only
after the token was decoded, with the header's algorithm and the `exp` and `nbf` checks, under a key
of the cached or just fetched list: a key from a JWK offered for verification, RSA or EC and of the
family of the header's algorithm, hence never HMAC, with a key id that agrees with the header's. -/
theorem jwks_sound (lib : JwtLib P K) (labels : List Label) {s : State K}
    (hrun : Machine.run (step lib .build) .init labels = some s) :
    (s.cache = cachedKeys s.log ∧ ∀ keys, s.cache = some keys → ∃ document, FetchedDocument lib s.log document keys) ∧
    (∀ id response t, step lib .build s (.fetch id response) = some t → t.cache = s.cache) ∧
    (∀ id error, .rejected id error ∈ s.log → ∀ keys, .inserted id keys ∉ s.log) ∧
    (∀ newer id token header decodedAt claims older,
      s.log = newer ++ .returned id token header decodedAt (some claims) :: older →
      ∃ keys document jwk key, (cachedKeys older = some keys ∨ FetchedBy older id keys) ∧
        FetchedDocument lib older document keys ∧ jwk ∈ document ∧ key ∈ keys ∧ jwk.Verifies ∧
        lib.fromJwk jwk = some key.decodingKey ∧ key.keyId = jwk.keyId ∧
        (lib.family key.decodingKey = .rsa ∨ lib.family key.decodingKey = .ec) ∧
        lib.family key.decodingKey = header.alg.family ∧ header.alg.family ≠ .hmac ∧
        (header.kid = none ∨ key.keyId = none ∨ key.keyId = header.kid) ∧
        ∃ validation : Validation, validation.algorithms = [header.alg] ∧ validation.validateExp = true ∧
          validation.validateNbf = true ∧
          lib.decode decodedAt token key.decodingKey validation = some claims.value) := by
  have hi : TraceInv lib .build s := by
    refine Machine.run_invariant ?_ trace_init hrun
    intro s label t hi h
    exact trace_step hi h
  refine ⟨⟨hi.cache, ?_⟩, fun _ _ _ h => cache_fetch h, ?_, ?_⟩
  · intro keys hc
    rw [hi.cache] at hc
    obtain ⟨id, hf⟩ := fetchedBy_of_cachedKeys hi.sound hc
    exact hf.document hi.sound
  · intro id error hr keys
    exact not_inserted_of_rejected hi.sound hr keys
  · intro newer id token header decodedAt claims older hlog
    have hs := hi.sound
    rw [hlog] at hs
    have holder : Machine.Justified (Sound lib .build) older := hs.older.2
    obtain ⟨keys, horigin, key, hk, hmatch, hdecode⟩ := hs.sound claims rfl
    obtain ⟨document, hdoc⟩ : ∃ document, FetchedDocument lib older document keys := by
      rcases horigin with hc | hf
      · obtain ⟨id', hf⟩ := fetchedBy_of_cachedKeys holder hc
        exact hf.document holder
      · exact hf.document holder
    have hkeys : SupportedKeys lib document keys := by
      obtain ⟨_, _, _, _, hkeys⟩ := hdoc
      exact hkeys
    obtain ⟨jwk, hjwk, hsup⟩ := hkeys.exists hk
    obtain ⟨hfamily, hkid⟩ := matches_iff.mp hmatch
    have hhmac : header.alg.family ≠ .hmac := by
      rw [← hfamily]
      rcases hsup.family with h | h <;> rw [h] <;> decide
    exact ⟨keys, document, jwk, key, horigin, hdoc, hjwk, hk, hsup.verifies, hsup.decodingKey, hsup.keyId, hsup.family,
      hfamily, hhmac, hkid, _, rfl, rfl, rfl, hdecode⟩

/-- A library with one document: an RSA key, a symmetric key and an encryption key. A decoding key is
its family and its text; a token is valid under the text it names, until time 100. -/
def oneDocument : JwtLib (AlgorithmFamily × String) (AlgorithmFamily × String) where
  parseJwkSet body := if body = [] then none else some
    [⟨some .signature, none, some "rsa1", .rsa, "n"⟩, ⟨none, some [.sign, .verify], none, .hmac, "secret"⟩,
      ⟨some .encryption, none, none, .rsa, "m"⟩]
  fromJwk jwk := some jwk.algorithm
  family := Prod.fst
  decode now token key validation :=
    if token = key.2 ∧ key.1 ∈ validation.algorithms.map Algorithm.family ∧ (validation.validateExp → now ≤ 160) then
      some (.string "alice") else none

/-- A refused fetch, then one that loads the keys, and a hit. -/
theorem jwks_sound_hit : ∃ s,
    Machine.run (step oneDocument .build) .init
      [.call 0 "n" ⟨.rs256, some "rsa1"⟩, .fetch 0 none, .call 1 "n" ⟨.rs256, some "rsa1"⟩,
        .fetch 1 (some ⟨none, [some [1]]⟩), .insert 1, .advance 10, .call 2 "n" ⟨.rs256, some "rsa1"⟩] = some s ∧
    (∃ document, FetchedDocument oneDocument s.log document [⟨some "rsa1", .rsa, "n"⟩]) ∧
    ∃ key validation, oneDocument.family key = .rsa ∧ validation.algorithms = [.rs256] ∧ validation.validateExp = true ∧
      oneDocument.decode 10 "n" key validation = some (.string "alice") := by
  refine ⟨_, rfl, ?_⟩
  obtain ⟨⟨-, hcache⟩, -, -, hreturned⟩ := jwks_sound oneDocument
    [.call 0 "n" ⟨.rs256, some "rsa1"⟩, .fetch 0 none, .call 1 "n" ⟨.rs256, some "rsa1"⟩,
      .fetch 1 (some ⟨none, [some [1]]⟩), .insert 1, .advance 10, .call 2 "n" ⟨.rs256, some "rsa1"⟩] rfl
  obtain ⟨_, _, _, key, -, -, -, -, -, -, -, -, hfamily, -, -, validation, ha, he, -, hd⟩ :=
    hreturned [] 2 "n" ⟨.rs256, some "rsa1"⟩ 10 ⟨.string "alice"⟩ _ rfl
  exact ⟨hcache _ rfl, key.decodingKey, validation, hfamily, ha, he, hd⟩

end DataPlane.Auth
