/-
Which tokens are refused, and why. A response of the key server is taken exactly when its body arrives whole and
within the bound, however it is cut into chunks, and holds a set whose verification keys are all well formed, one of
them supported. A token is refused only when a cached key fits its header and none that fits decodes it, when its own
fetch brought no such response, or when no supported key of the set it brought fits and decodes it.
-/
import DataPlane.Auth.Verification

namespace DataPlane.Auth

open DataPlane.Json

variable {P K : Type} {lib : JwtLib P K} {jwks : Jwks}

/-! ## Bodies -/

/-- A body that arrives whole and within the bound, in whatever chunks. -/
structure Delivers (response : Response) (body : Bytes) : Prop where
  chunks : ∃ pieces : List Bytes, response.chunks = pieces.map some ∧ body = pieces.flatten
  announced : ∀ length, response.contentLength = some length → length ≤ jwksMaxResponseBytes
  bound : body.length ≤ jwksMaxResponseBytes

/-- The loop keeps the bound, and adds up what it was given. -/
theorem readBody_eq_ok {out : Bytes} : ∀ {chunks : List (Option Bytes)} {body : Bytes},
    body.length ≤ jwksMaxResponseBytes →
      (readBody body chunks = .ok out ↔
        ∃ pieces : List Bytes, chunks = pieces.map some ∧ out = body ++ pieces.flatten ∧ out.length ≤ jwksMaxResponseBytes)
  | [], body, hbody => by
    constructor
    · intro h
      cases h
      exact ⟨[], rfl, (List.append_nil _).symm, hbody⟩
    · rintro ⟨pieces, hpieces, rfl, -⟩
      rw [List.map_eq_nil_iff.mp hpieces.symm, List.flatten_nil, List.append_nil]
      rfl
  | none :: chunks, body, hbody => by
    constructor
    · intro h
      cases h
    · rintro ⟨pieces, hpieces, -⟩
      cases pieces with
      | nil => cases hpieces
      | cons piece pieces => cases hpieces
  | some chunk :: chunks, body, hbody => by
    rw [readBody]
    split
    · rename_i hlong
      constructor
      · intro h
        cases h
      · rintro ⟨pieces, hpieces, rfl, hbound⟩
        cases pieces with
        | nil => cases hpieces
        | cons piece pieces =>
          cases hpieces
          rw [List.flatten_cons, List.length_append, List.length_append] at hbound
          omega
    · rename_i hshort
      have hlength : (body ++ chunk).length ≤ jwksMaxResponseBytes := by
        rw [List.length_append]
        omega
      rw [readBody_eq_ok hlength]
      constructor
      · rintro ⟨pieces, rfl, rfl, hbound⟩
        exact ⟨chunk :: pieces, rfl, by rw [List.flatten_cons, List.append_assoc], hbound⟩
      · rintro ⟨pieces, hpieces, rfl, hbound⟩
        cases pieces with
        | nil => cases hpieces
        | cons piece pieces =>
          cases hpieces
          rw [List.flatten_cons, ← List.append_assoc] at hbound ⊢
          exact ⟨pieces, rfl, rfl, hbound⟩

theorem delivers_iff {response : Response} {body : Bytes} :
    Delivers response body ↔ response.contentLength.any (· > jwksMaxResponseBytes) = false ∧
      readBody [] response.chunks = .ok body := by
  have hannounced : (∀ length, response.contentLength = some length → length ≤ jwksMaxResponseBytes) ↔
      response.contentLength.any (· > jwksMaxResponseBytes) = false := by
    cases response.contentLength <;> simp
  rw [readBody_eq_ok (Nat.zero_le _), ← hannounced]
  constructor
  · rintro ⟨⟨pieces, hpieces, hbody⟩, hlength, hbound⟩
    exact ⟨hlength, pieces, hpieces, hbody, hbound⟩
  · rintro ⟨hlength, pieces, hpieces, hbody, hbound⟩
    exact ⟨⟨pieces, hpieces, hbody⟩, hlength, hbound⟩

theorem fetchDocument_eq_ok {response : Response} {document : List (Jwk P)} :
    fetchDocument lib (some response) = .ok document ↔
      ∃ body, Delivers response body ∧ lib.parseJwkSet body = some document := by
  simp only [delivers_iff]
  unfold fetchDocument
  dsimp only
  rcases hlong : response.contentLength.any (· > jwksMaxResponseBytes) with _ | _
  · rw [if_neg Bool.false_ne_true]
    rcases readBody [] response.chunks with error | body
    · constructor
      · intro h
        cases h
      · rintro ⟨body, ⟨-, h⟩, -⟩
        cases h
    · dsimp only [bind, Except.bind]
      constructor
      · intro h
        refine ⟨body, ⟨rfl, rfl⟩, ?_⟩
        split at h
        · cases h
        · rename_i hparse
          cases h
          exact hparse
      · rintro ⟨body', ⟨-, hbody⟩, hparse⟩
        cases hbody
        rw [hparse]
        rfl
  · rw [if_pos rfl]
    constructor
    · intro h
      cases h
    · rintro ⟨body, ⟨h, -⟩, -⟩
      cases h

/-! ## Documents -/

/-- A document whose verification keys are all well formed and one of them supported, or none at all. -/
def Usable (lib : JwtLib P K) (document : List (Jwk P)) : Prop :=
  (∀ jwk ∈ document, jwk.Verifies → (lib.fromJwk jwk).isSome) ∧
    (document = [] ∨ ∃ jwk ∈ document, ∃ key, Supported lib jwk key)

theorem fromJwk_isOk {jwk : Jwk P} : (∃ key, VerificationKey.fromJwk lib jwk = .ok key) ↔
    (jwk.Verifies → (lib.fromJwk jwk).isSome) := by
  unfold VerificationKey.fromJwk
  rw [verifies_iff]
  split
  · rename_i hother
    rw [hother]
    exact ⟨fun _ h => (Bool.true_eq_false_eq_False h).elim, fun _ => ⟨none, rfl⟩⟩
  · rename_i hverifies
    rw [Bool.eq_false_of_not_eq_true hverifies]
    cases lib.fromJwk jwk with
    | none =>
      constructor
      · rintro ⟨key, h⟩
        cases h
      · intro h
        cases h rfl
    | some decodingKey =>
      refine ⟨fun _ _ => rfl, fun _ => ?_⟩
      dsimp only
      split
      · exact ⟨_, rfl⟩
      · exact ⟨_, rfl⟩
      · exact ⟨_, rfl⟩

theorem collectKeys_cons (jwk : Jwk P) (document : List (Jwk P)) :
    collectKeys lib (jwk :: document) = (VerificationKey.fromJwk lib jwk).bind fun key =>
      (collectKeys lib document).bind fun keys => .ok (key.toList ++ keys) := rfl

theorem collectKeys_isOk : ∀ {document : List (Jwk P)}, (∃ keys, collectKeys lib document = .ok keys) ↔
    ∀ jwk ∈ document, jwk.Verifies → (lib.fromJwk jwk).isSome
  | [] => ⟨fun _ jwk h => (List.not_mem_nil h).elim, fun _ => ⟨[], rfl⟩⟩
  | jwk :: document => by
    rw [List.forall_mem_cons, ← fromJwk_isOk, ← collectKeys_isOk, collectKeys_cons]
    constructor
    · rintro ⟨keys, h⟩
      cases hkey : VerificationKey.fromJwk lib jwk with
      | error error =>
        rw [hkey] at h
        cases h
      | ok key =>
        cases hkeys : collectKeys lib document with
        | error error =>
          rw [hkey, hkeys] at h
          cases h
        | ok keys' => exact ⟨⟨key, rfl⟩, keys', rfl⟩
    · rintro ⟨⟨key, hkey⟩, keys, hkeys⟩
      rw [hkey, hkeys]
      exact ⟨_, rfl⟩

theorem Supported.unique {jwk : Jwk P} {key key' : VerificationKey K} (h : Supported lib jwk key)
    (h' : Supported lib jwk key') : key = key' := by
  obtain ⟨keyId, decodingKey⟩ := key
  obtain ⟨keyId', decodingKey'⟩ := key'
  have hid : keyId = keyId' := h.keyId.trans h'.keyId.symm
  have hkey : decodingKey = decodingKey' := Option.some.inj (h.decodingKey.symm.trans h'.decodingKey)
  rw [hid, hkey]

/-- No supported key of a document is left out. -/
theorem SupportedKeys.mem {document : List (Jwk P)} {keys : List (VerificationKey K)}
    (h : SupportedKeys lib document keys) {jwk : Jwk P} (hjwk : jwk ∈ document) {key : VerificationKey K}
    (hkey : Supported lib jwk key) : key ∈ keys := by
  induction h with
  | nil => cases hjwk
  | keep hs _ ih =>
    rcases List.mem_cons.mp hjwk with rfl | hjwk
    · rw [hkey.unique hs]
      exact List.mem_cons_self ..
    · exact List.mem_cons_of_mem _ (ih hjwk)
  | drop hno _ ih =>
    rcases List.mem_cons.mp hjwk with rfl | hjwk
    · exact absurd hkey (hno key)
    · exact ih hjwk

theorem documentKeys_isOk {document : List (Jwk P)} :
    (∃ keys, documentKeys lib document = .ok keys) ↔ Usable lib document := by
  unfold documentKeys
  cases document with
  | nil => exact ⟨fun _ => ⟨fun jwk h => (List.not_mem_nil h).elim, .inl rfl⟩, fun _ => ⟨[], rfl⟩⟩
  | cons jwk document =>
    have hkeys : validatedJsonWebKeys lib (jwk :: document) = (collectKeys lib (jwk :: document)).bind fun keys =>
        if keys.isEmpty then .error .noSupportedKeys else .ok keys := rfl
    rw [List.isEmpty_cons, if_neg Bool.false_ne_true, hkeys]
    unfold Usable
    rw [← collectKeys_isOk]
    cases hcollect : collectKeys lib (jwk :: document) with
    | error error =>
      constructor
      · rintro ⟨keys, h⟩
        cases h
      · rintro ⟨⟨keys, h⟩, -⟩
        cases h
    | ok keys =>
      have hsupported := supportedKeys_of_collectKeys hcollect
      constructor
      · rintro ⟨keys', h⟩
        refine ⟨⟨keys, rfl⟩, .inr ?_⟩
        cases keys with
        | nil => cases h
        | cons key keys =>
          obtain ⟨jwk', hjwk, hkey⟩ := hsupported.exists (List.mem_cons_self ..)
          exact ⟨jwk', hjwk, key, hkey⟩
      · rintro ⟨-, hempty | ⟨jwk', hjwk, key, hkey⟩⟩
        · cases hempty
        · have hmem := hsupported.mem hjwk hkey
          cases keys with
          | nil => cases hmem
          | cons key keys => exact ⟨_, rfl⟩

/-- What a fetch takes: a delivered body that parses as a usable document. -/
def Offers (lib : JwtLib P K) (response : Option Response) (document : List (Jwk P)) : Prop :=
  ∃ delivered body, response = some delivered ∧ Delivers delivered body ∧ lib.parseJwkSet body = some document ∧
    Usable lib document

theorem Offers.fetchDocument {response : Option Response} {document : List (Jwk P)} (h : Offers lib response document) :
    fetchDocument lib response = .ok document := by
  obtain ⟨delivered, body, rfl, hdelivers, hparse, -⟩ := h
  exact fetchDocument_eq_ok.mpr ⟨body, hdelivers, hparse⟩

theorem fetchJwks_isOk {response : Option Response} :
    (∃ keys, fetchJwks lib response = .ok keys) ↔ ∃ document, Offers lib response document := by
  have hfetch : fetchJwks lib response = (fetchDocument lib response).bind (documentKeys lib) := rfl
  rw [hfetch]
  constructor
  · rintro ⟨keys, h⟩
    cases response with
    | none => cases h
    | some response =>
      cases hdocument : fetchDocument lib (some response) with
      | error error =>
        rw [hdocument] at h
        cases h
      | ok document =>
        rw [hdocument] at h
        obtain ⟨body, hdelivers, hparse⟩ := fetchDocument_eq_ok.mp hdocument
        exact ⟨document, response, body, rfl, hdelivers, hparse, documentKeys_isOk.mp ⟨keys, h⟩⟩
  · rintro ⟨document, hoffers⟩
    rw [hoffers.fetchDocument]
    obtain ⟨-, -, -, -, -, husable⟩ := hoffers
    exact documentKeys_isOk.mpr husable

/-! ## Refusals -/

/-- No key that fits the header decodes the token. -/
def Fails (lib : JwtLib P K) (jwks : Jwks) (keys : List (VerificationKey K)) (decodedAt : Nat) (token : String)
    (header : Header) : Prop :=
  ∀ key ∈ keys, key.matches lib header = true →
    lib.decode decodedAt token key.decodingKey (jwks.validation header.alg) = none

theorem validateWithKeys_eq_none {now : Nat} {keys : List (VerificationKey K)} {token : String} {header : Header} :
    validateWithKeys lib now keys token header (jwks.validation header.alg) = none ↔
      Fails lib jwks keys now token header := by
  unfold validateWithKeys Fails validateAndDecodeClaims
  simp only [List.findSome?_eq_none_iff, List.mem_filter, Option.map_eq_none_iff, and_imp]

/-- What a refusal tells about the events before it. -/
def Refused (lib : JwtLib P K) (jwks : Jwks) : Event K → List (Event K) → Prop
  | .returned id token header decodedAt none, older =>
      (∃ keys, cachedKeys older = some keys ∧ (∃ key ∈ keys, key.matches lib header = true) ∧
        Fails lib jwks keys decodedAt token header) ∨
      (∃ error, .rejected id error ∈ older) ∨
      ∃ response keys, .fetched id response keys ∈ older ∧ Fails lib jwks keys decodedAt token header
  | _, _ => True

/-- A call that has its keys has decided under them. -/
def Decided (lib : JwtLib P K) (jwks : Jwks) (log : List (Event K)) (id : Nat) : Option (Phase K) → Prop
  | some (.inserting token header keys decodedAt claims) => FetchedBy log id keys ∧
      claims = validateWithKeys lib decodedAt keys token header (jwks.validation header.alg)
  | _ => True

structure RefusalInv (lib : JwtLib P K) (jwks : Jwks) (s : State K) : Prop where
  trace : TraceInv lib jwks s
  refused : Machine.Justified (Refused lib jwks) s.log
  decided : ∀ id, Decided lib jwks s.log id (s.phase id)

theorem Decided.append {log : List (Event K)} {id : Nat} {phase : Option (Phase K)}
    (h : Decided lib jwks log id phase) (events : List (Event K)) : Decided lib jwks (events ++ log) id phase := by
  unfold Decided at h ⊢
  split
  · exact ⟨h.1.append events, h.2⟩
  · trivial

/-- Moving one call keeps what the others have decided. -/
theorem RefusalInv.move {s t : State K} {id : Nat} {phase : Phase K} {events : List (Event K)}
    (hi : RefusalInv lib jwks s) (ht : TraceInv lib jwks t)
    (hphase : t.phase = (s.move id phase events).phase) (hlog : t.log = events ++ s.log)
    (hrefused : Machine.Justified (Refused lib jwks) (events ++ s.log))
    (hdecided : Decided lib jwks (events ++ s.log) id (some phase)) : RefusalInv lib jwks t where
  trace := ht
  refused := hlog ▸ hrefused
  decided i := by
    rw [hphase, hlog]
    change Decided lib jwks (events ++ s.log) i (if i = id then some phase else s.phase i)
    by_cases hne : i = id
    · rw [if_pos hne, hne]
      exact hdecided
    · rw [if_neg hne]
      exact (hi.decided i).append events

theorem refusal_step {s t : State K} (hi : RefusalInv lib jwks s) {label : Label}
    (h : step lib jwks s label = some t) : RefusalInv lib jwks t := by
  have ht := trace_step hi.trace h
  cases label with
  | call id token header =>
    simp only [step] at h
    split at h
    · split at h
      · rename_i keys hcache
        cases h
        obtain ⟨hcache, hany⟩ := Option.filter_eq_some_iff.mp hcache
        refine hi.move ht rfl rfl ⟨?_, hi.refused⟩ trivial
        cases hclaims : validateWithKeys lib s.now keys token header (jwks.validation header.alg) with
        | some claims => trivial
        | none =>
          exact .inl ⟨keys, hi.trace.cache.symm.trans hcache, List.any_eq_true.mp hany,
            validateWithKeys_eq_none.mp hclaims⟩
      · cases h
        exact hi.move ht rfl rfl hi.refused trivial
    · cases h
  | fetch id response =>
    simp only [step] at h
    split at h
    · split at h
      · cases h
        exact hi.move ht rfl rfl ⟨trivial, hi.refused⟩ ⟨⟨response, List.mem_cons_self ..⟩, rfl⟩
      · rename_i error _
        cases h
        exact hi.move ht rfl rfl ⟨.inr (.inl ⟨error, List.mem_cons_self ..⟩), trivial, hi.refused⟩ trivial
    · cases h
  | insert id =>
    have hdecided := hi.decided id
    simp only [step] at h
    split at h
    · rename_i token header keys decodedAt claims hphase
      cases h
      rw [hphase] at hdecided
      obtain ⟨⟨response, hfetched⟩, rfl⟩ := hdecided
      refine hi.move ht rfl rfl ⟨?_, trivial, hi.refused⟩ trivial
      cases hclaims : validateWithKeys lib decodedAt keys token header (jwks.validation header.alg) with
      | some claims => trivial
      | none =>
        exact .inr (.inr ⟨response, keys, List.mem_cons_of_mem _ hfetched, validateWithKeys_eq_none.mp hclaims⟩)
    · cases h
  | expire =>
    cases h
    exact ⟨ht, ⟨trivial, hi.refused⟩, fun id => (hi.decided id).append [.expired]⟩
  | advance duration =>
    cases h
    exact ⟨ht, hi.refused, hi.decided⟩

/-- What a label records about fetches. -/
def Records (lib : JwtLib P K) (label : Label) : Event K → Prop
  | .fetched id response keys => label = .fetch id response ∧ fetchJwks lib response = .ok keys
  | .rejected id error => ∃ response, label = .fetch id response ∧ fetchJwks lib response = .error error
  | _ => True

theorem step_records {s t : State K} {label : Label} (h : step lib jwks s label = some t) :
    ∃ events, t.log = events ++ s.log ∧ ∀ e ∈ events, Records lib label e := by
  cases label with
  | call id token header =>
    simp only [step] at h
    split at h
    · split at h
      · cases h
        exact ⟨_, rfl, List.forall_mem_singleton.mpr trivial⟩
      · cases h
        exact ⟨[], rfl, List.forall_mem_nil _⟩
    · cases h
  | fetch id response =>
    simp only [step] at h
    split at h
    · split at h
      · rename_i keys hfetch
        cases h
        exact ⟨_, rfl, List.forall_mem_singleton.mpr ⟨rfl, hfetch⟩⟩
      · rename_i error hfetch
        cases h
        exact ⟨_, rfl, List.forall_mem_cons.mpr ⟨trivial, List.forall_mem_singleton.mpr ⟨response, rfl, hfetch⟩⟩⟩
    · cases h
  | insert id =>
    simp only [step] at h
    split at h
    · cases h
      exact ⟨_, rfl, List.forall_mem_cons.mpr ⟨trivial, List.forall_mem_singleton.mpr trivial⟩⟩
    · cases h
  | expire =>
    cases h
    exact ⟨[.expired], rfl, List.forall_mem_singleton.mpr trivial⟩
  | advance duration =>
    cases h
    exact ⟨[], rfl, List.forall_mem_nil _⟩

theorem run_records {labels : List Label} {s : State K} (h : Machine.run (step lib jwks) .init labels = some s)
    {e : Event K} (he : e ∈ s.log) : ∃ label ∈ labels, Records lib label e := by
  have hstep : ∀ {s : State K} {label : Label} {t : State K} {e : Event K}, step lib jwks s label = some t →
      e ∈ t.log → e ∈ s.log ∨ Records lib label e := by
    intro s label t e h he
    obtain ⟨events, hlog, hrecords⟩ := step_records h
    rw [hlog] at he
    exact (List.mem_append.mp he).symm.imp_right (hrecords e)
  rcases Machine.run_emitted State.log (Records lib) hstep h he with hinit | hrecords
  · cases hinit
  · exact hrecords

/-- For every interleaving of calls with the replies of the key server, expiry of the cache and the clock, a token is
refused for one of three reasons: a cached key fits its header, and none that fits decodes it; the reply to its own
fetch is not one that offers a usable document; or no supported key of the document it is offered fits its header and
decodes it. -/
theorem jwks_complete (lib : JwtLib P K) (jwks : Jwks) (labels : List Label) {s : State K}
    (hrun : Machine.run (step lib jwks) .init labels = some s) :
    ∀ newer id token header decodedAt older, s.log = newer ++ .returned id token header decodedAt none :: older →
      (∃ keys, cachedKeys older = some keys ∧ (∃ key ∈ keys, key.matches lib header = true) ∧
        Fails lib jwks keys decodedAt token header) ∨
      ∃ response, .fetch id response ∈ labels ∧ ((¬ ∃ document, Offers lib response document) ∨
        ∃ document, Offers lib response document ∧ ∀ jwk ∈ document, ∀ key, Supported lib jwk key →
          key.matches lib header = true →
            lib.decode decodedAt token key.decodingKey (jwks.validation header.alg) = none) := by
  intro newer id token header decodedAt older hlog
  have hi : RefusalInv lib jwks s := by
    refine Machine.run_invariant ?_ ⟨trace_init, trivial, fun _ => trivial⟩ hrun
    intro s label t hi h
    exact refusal_step hi h
  have hrefused := hi.refused
  rw [hlog] at hrefused
  have hmem : ∀ e ∈ older, e ∈ s.log := by
    intro e he
    rw [hlog]
    exact List.mem_append_right _ (List.mem_cons_of_mem _ he)
  rcases hrefused.sound with hcached | ⟨error, herror⟩ | ⟨response, keys, hfetched, hfails⟩
  · exact .inl hcached
  · obtain ⟨label, hlabel, response, rfl, hfetch⟩ := run_records hrun (hmem _ herror)
    refine .inr ⟨response, hlabel, .inl fun hoffers => ?_⟩
    obtain ⟨keys, hkeys⟩ := fetchJwks_isOk.mpr hoffers
    rw [hfetch] at hkeys
    cases hkeys
  · obtain ⟨label, hlabel, rfl, hfetch⟩ := run_records hrun (hmem _ hfetched)
    obtain ⟨document, hdocument, hkeys⟩ := fetchJwks_eq_ok hfetch
    obtain ⟨offered, hoffers⟩ := fetchJwks_isOk.mp ⟨keys, hfetch⟩
    obtain rfl : document = offered := Except.ok.inj (hdocument.symm.trans hoffers.fetchDocument)
    refine .inr ⟨response, hlabel, .inr ⟨document, hoffers, ?_⟩⟩
    intro jwk hjwk key hkey hmatches
    exact hfails key (hkeys.mem hjwk hkey) hmatches

/-- A known key, and a token it does not verify. -/
theorem jwks_complete_wrongToken : ∃ s keys,
    Machine.run (step oneDocument .build) .init
      [.call 0 "n" ⟨.rs256, some "rsa1"⟩, .fetch 0 (some ⟨none, [some [1]]⟩), .insert 0,
        .call 1 "x" ⟨.rs256, some "rsa1"⟩] = some s ∧
    (∃ key ∈ keys, key.matches oneDocument ⟨.rs256, some "rsa1"⟩ = true) ∧
    Fails oneDocument .build keys 0 "x" ⟨.rs256, some "rsa1"⟩ := by
  obtain ⟨s, hs⟩ : ∃ s, Machine.run (step oneDocument .build) .init
      [.call 0 "n" ⟨.rs256, some "rsa1"⟩, .fetch 0 (some ⟨none, [some [1]]⟩), .insert 0,
        .call 1 "x" ⟨.rs256, some "rsa1"⟩] = some s := ⟨_, rfl⟩
  obtain ⟨older, holder⟩ : ∃ older, s.log = [] ++ .returned 1 "x" ⟨.rs256, some "rsa1"⟩ 0 none :: older := by
    cases hs
    exact ⟨_, rfl⟩
  rcases jwks_complete oneDocument .build _ hs [] 1 "x" ⟨.rs256, some "rsa1"⟩ 0 older holder with
    ⟨keys, -, hfits, hfails⟩ | ⟨response, hlabel, -⟩
  · exact ⟨s, keys, hs, hfits, hfails⟩
  · simp at hlabel

end DataPlane.Auth
