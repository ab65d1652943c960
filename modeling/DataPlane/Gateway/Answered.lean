/-
No request waits for another. From every reachable state a request that has arrived is answered, or handed to its
handler, by steps of its own alone, at most six of them, whatever the key server and Redis answer it and also when
they do not answer at all.
-/
import DataPlane.Gateway.Authorized

namespace DataPlane.Gateway.Admission

open DataPlane.Headers DataPlane.Json
open DataPlane.Store (User ConfigStoreError)

variable {P K : Type} {env : Env P K} {expiry : Nat} {redis : Store.Bytes → Option Store.Bytes} {s t : State K} {r : Nat}

/-! ## The steps of one request -/

/-- The steps that a request makes after it has arrived, when the key server answers it so, and Redis or not. -/
inductive OwnStep (r : Nat) (response : Option Auth.Response) (answered : Bool) : Label → Prop
  | fetch : OwnStep r response answered (.jwks (.fetch r response))
  | cacheKeys : OwnStep r response answered (.jwks (.insert r))
  | authorized : OwnStep r response answered (.authorized r)
  | query : OwnStep r response answered (.store (.query r answered))
  | cacheConfig : OwnStep r response answered (.store (.insert r))
  | loaded : OwnStep r response answered (.loaded r)

def jwksRank : Option (Auth.Phase K) → Nat
  | some (.fetching _ _) => 2
  | some (.inserting _ _ _ _ _) => 1
  | _ => 0

def storeRank : Option (Store.Phase UserConfig) → Nat
  | some (.querying _ _) => 2
  | some (.inserting _ _ _) => 1
  | _ => 0

/-- How many steps of its own a request is away from its end, at most. -/
def rank (r : Nat) (s : State K) : Nat :=
  match s.phase r with
  | some (.authorizing _ _ _ _) => 4 + jwksRank (s.jwks.phase r)
  | some (.loading _ _ _) => 1 + storeRank (s.store.phase r)
  | _ => 0

/-- A request is on its way. -/
def Pending (s : State K) (r : Nat) (arrived : Request) : Prop :=
  (∃ parts token header, s.phase r = some (.authorizing arrived parts token header)) ∨
    ∃ parts principal, s.phase r = some (.loading arrived parts principal)

def Ended (s : State K) (r : Nat) (arrived : Request) : Prop := ∃ reply, s.phase r = some (.ended arrived reply)

theorem rank_le (s : State K) (r : Nat) : rank r s ≤ 6 := by
  have hjwks : jwksRank (s.jwks.phase r) ≤ 2 := by
    unfold jwksRank
    split <;> decide
  have hstore : storeRank (s.store.phase r) ≤ 2 := by
    unfold storeRank
    split <;> decide
  unfold rank
  split <;> omega

/-! ## Each step brings it nearer -/

theorem phase_move_self (s : State K) (r : Nat) (phase : Phase) : (s.move r phase).phase r = some phase := if_pos rfl

theorem phase_move_of_ne (s : State K) {r i : Nat} (phase : Phase) (h : i ≠ r) : (s.move r phase).phase i = s.phase i :=
  if_neg h

/-- A step of a request's own, to a state in which it is nearer its end and the others stand where they stood. -/
def Nearer (env : Env P K) (r : Nat) (response : Option Auth.Response) (answered : Bool) (arrived : Request)
    (s : State K) : Prop :=
  ∃ label t, OwnStep r response answered label ∧ step env s label = some t ∧ (Pending t r arrived ∨ Ended t r arrived) ∧
    (∀ i, i ≠ r → t.phase i = s.phase i) ∧ rank r t < rank r s

section Nearer

variable {response : Option Auth.Response} {answered : Bool} {arrived : Request} {parts : Parts} {token : String}
  {header : Auth.Header} {principal : AuthorizedPrincipal}

/-- `validate` goes on, whatever the key server answers. -/
theorem nearer_jwks {label : Auth.Label} {jwks : Auth.State K}
    (h : s.phase r = some (.authorizing arrived parts token header)) (hb : jwksBackground label = true)
    (hown : OwnStep r response answered (.jwks label)) (hstep : Auth.step env.jwt .build s.jwks label = some jwks)
    (hlt : jwksRank (jwks.phase r) < jwksRank (s.jwks.phase r)) : Nearer env r response answered arrived s := by
  refine ⟨.jwks label, { s with jwks }, hown, ?_, .inl (.inl ⟨parts, token, header, h⟩), fun i _ => rfl, ?_⟩
  · simp only [step, hb, if_true, hstep, Option.map_some]
  · simp only [rank, h]
    omega

theorem nearer_store {label : Store.Label UserConfig} {store : Store.State UserConfig}
    (h : s.phase r = some (.loading arrived parts principal)) (hb : storeBackground label = true)
    (hown : OwnStep r response answered (.store label)) (hstep : Store.step env.codec s.store label = some store)
    (hlt : storeRank (store.phase r) < storeRank (s.store.phase r)) : Nearer env r response answered arrived s := by
  refine ⟨.store label, { s with store }, hown, ?_, .inl (.inr ⟨parts, principal, h⟩), fun i _ => rfl, ?_⟩
  · simp only [step, hb, if_true, hstep, Option.map_some]
  · simp only [rank, h]
    omega

/-- A call for a request that has none is always taken. -/
theorem get_enabled (codec : Store.Codec UserConfig) {store : Store.State UserConfig} (h : store.phase r = none)
    (user : User) : ∃ next, Store.step codec store (.call r (.get user)) = some next := by
  simp only [Store.step, h]
  rcases store.store.beginGet codec store.now user with (error | config) | key
  · exact ⟨_, rfl⟩
  · exact ⟨_, rfl⟩
  · exact ⟨_, rfl⟩

/-- Once `validate` has returned, the request is answered or calls `get_config`. -/
theorem nearer_authorized (h : s.phase r = some (.authorizing arrived parts token header))
    (hidle : s.store.phase r = none) (hresult : (validated s.jwks.log r).isSome) :
    Nearer env r response answered arrived s := by
  obtain ⟨claims, hclaims⟩ := Option.isSome_iff_exists.mp hresult
  have hstep : step env s (.authorized r) = s.resume env r arrived parts (claims.map (·.value)) := by
    simp only [step, h, hclaims, Option.bind_some]
  have hrank : 4 ≤ rank r s := by
    simp only [rank, h]
    omega
  unfold State.resume at hstep
  rcases hmiddle : env.middle (claims.map (·.value)) ⟨arrived.path, parts⟩ with reply | ⟨principal, request⟩
  · rw [hmiddle] at hstep
    refine ⟨.authorized r, _, .authorized, hstep, .inr ⟨_, phase_move_self ..⟩, fun i hne => phase_move_of_ne s _ hne, ?_⟩
    refine lt_of_lt_of_le ?_ hrank
    rw [rank, phase_move_self]
    exact Nat.zero_lt_succ 3
  · rw [hmiddle] at hstep
    obtain ⟨store, hstore⟩ := get_enabled env.codec hidle principal.user
    dsimp only at hstep
    rw [hstore] at hstep
    refine ⟨.authorized r, _, .authorized, hstep, .inl (.inr ⟨_, _, phase_move_self ..⟩),
      fun i hne => phase_move_of_ne { s with store } _ hne, ?_⟩
    have hle : storeRank (store.phase r) ≤ 2 := by
      unfold storeRank
      split <;> decide
    refine lt_of_lt_of_le ?_ hrank
    rw [rank, phase_move_self]
    dsimp only [State.move]
    omega

theorem nearer_authorizing (hi : Inv env expiry redis s) (h : s.phase r = some (.authorizing arrived parts token header)) :
    Nearer env r response answered arrived s := by
  have hphase := hi.phase r
  rw [h] at hphase
  obtain ⟨-, -, hvalidates, hidle⟩ := hphase
  have hp := hvalidates.phase
  rcases hjwks : s.jwks.phase r with _ | phase
  · rw [hjwks] at hp
    cases hp
  · cases phase with
    | fetching own ownHeader =>
      have hstep : ∃ jwks, Auth.step env.jwt .build s.jwks (.fetch r response) = some jwks ∧
          jwksRank (jwks.phase r) < 2 := by
        simp only [Auth.step, hjwks]
        rcases Auth.fetchJwks env.jwt response with error | keys
        · exact ⟨_, rfl, by simp [Auth.State.move, jwksRank]⟩
        · exact ⟨_, rfl, by simp [Auth.State.move, jwksRank]⟩
      obtain ⟨jwks, hstep, hlt⟩ := hstep
      exact nearer_jwks h rfl .fetch hstep (by rwa [hjwks])
    | inserting own ownHeader keys decodedAt claims =>
      have hstep : ∃ jwks, Auth.step env.jwt .build s.jwks (.insert r) = some jwks ∧ jwksRank (jwks.phase r) < 1 := by
        simp only [Auth.step, hjwks]
        exact ⟨_, rfl, by simp [Auth.State.move, jwksRank]⟩
      obtain ⟨jwks, hstep, hlt⟩ := hstep
      exact nearer_jwks h rfl .cacheKeys hstep (by rwa [hjwks])
    | returned =>
      rw [hjwks] at hp
      exact nearer_authorized h hidle hp

theorem nearer_loading (hi : Inv env expiry redis s) (h : s.phase r = some (.loading arrived parts principal)) :
    Nearer env r response answered arrived s := by
  have hphase := hi.phase r
  rw [h] at hphase
  obtain ⟨-, -, -, -, -, -, -, hgets⟩ := hphase
  have hp := hgets.phase
  rcases hstore : s.store.phase r with _ | phase
  · rw [hstore] at hp
    cases hp
  · cases phase with
    | querying user key =>
      have hstep : ∃ store, Store.step env.codec s.store (.query r answered) = some store ∧
          storeRank (store.phase r) < 2 := by
        simp only [Store.step, hstore]
        rcases Store.finishGet env.codec (if answered then .ok (s.store.redis key) else .error ()) with error | config
        · exact ⟨_, rfl, by simp [Store.State.move, storeRank]⟩
        · exact ⟨_, rfl, by simp [Store.State.move, storeRank]⟩
      obtain ⟨store, hstep, hlt⟩ := hstep
      exact nearer_store h rfl .query hstep (by rwa [hstore])
    | writing user key encoded config =>
      rw [hstore] at hp
      cases hp
    | inserting user config get =>
      have hstep : ∃ store, Store.step env.codec s.store (.insert r) = some store ∧ storeRank (store.phase r) < 1 := by
        simp only [Store.step, hstore]
        exact ⟨_, rfl, by simp [Store.State.insert, Store.State.move, storeRank]⟩
      obtain ⟨store, hstep, hlt⟩ := hstep
      exact nearer_store h rfl .cacheConfig hstep (by rwa [hstore])
    | returned =>
      rw [hstore] at hp
      obtain ⟨config, hconfig⟩ := Option.isSome_iff_exists.mp hp
      have hstep : step env s (.loaded r) =
          some (s.move r (.ended arrived (back config principal ⟨arrived.path, parts⟩))) := by
        simp only [step, h, hconfig, Option.map_some]
      refine ⟨.loaded r, _, .loaded, hstep, .inr ⟨_, phase_move_self ..⟩, fun i hne => phase_move_of_ne s _ hne, ?_⟩
      have hrank : 1 ≤ rank r s := by
        simp only [rank, h]
        omega
      refine lt_of_lt_of_le ?_ hrank
      rw [rank, phase_move_self]
      exact Nat.zero_lt_one

end Nearer

/-! ## No request is stuck -/

/-- A new request is always taken in, and ends or is on its way. -/
theorem arrive_enabled (hi : Inv env expiry redis s) (h : s.phase r = none) (path : String) (headers : HeaderMap) :
    ∃ t, step env s (.arrive r path headers) = some t ∧
      (Pending t r (arrival path headers) ∨ Ended t r (arrival path headers)) ∧ ∀ i, i ≠ r → t.phase i = s.phase i := by
  have hidle := hi.phase r
  rw [h] at hidle
  obtain ⟨hjwks, hstore⟩ := hidle
  simp only [step, h]
  split
  · rename_i parts hfront
    split
    · unfold State.resume
      split
      · exact ⟨_, rfl, .inr ⟨_, phase_move_self ..⟩, fun i hne => phase_move_of_ne s _ hne⟩
      · rename_i principal request hmiddle
        obtain ⟨-, value, -, heq, -⟩ := middle_eq_inr hmiddle
        cases heq
    · rename_i token header htoken
      obtain ⟨jwks, hstep⟩ : ∃ jwks, Auth.step env.jwt .build s.jwks (.call r token header) = some jwks := by
        simp only [Auth.step, hjwks]
        split
        · exact ⟨_, rfl⟩
        · exact ⟨_, rfl⟩
      rw [hstep]
      exact ⟨_, rfl, .inl (.inl ⟨_, _, _, phase_move_self ..⟩), fun i hne => phase_move_of_ne { s with jwks } _ hne⟩
  · exact ⟨_, rfl, .inr ⟨_, phase_move_self ..⟩, fun i hne => phase_move_of_ne s _ hne⟩

theorem pending_ends (laws : Store.CodecLaws env.codec) (hi : Inv env expiry redis s) {arrived : Request}
    (h : Pending s r arrived ∨ Ended s r arrived) (response : Option Auth.Response) (answered : Bool) :
    ∃ labels t, Machine.run (step env) s labels = some t ∧ (∀ label ∈ labels, OwnStep r response answered label) ∧
      labels.length ≤ rank r s ∧ Ended t r arrived ∧ ∀ i, i ≠ r → t.phase i = s.phase i := by
  have hnearer : ∀ {t}, Pending t r arrived → Inv env expiry redis t → Nearer env r response answered arrived t := by
    rintro t (⟨parts, token, header, hphase⟩ | ⟨parts, principal, hphase⟩) ht
    · exact nearer_authorizing ht hphase
    · exact nearer_loading ht hphase
  obtain ⟨labels, t, hrun, hown, hlen, ⟨-, -, hothers⟩, hended⟩ := Machine.run_progress
    (fun t => Inv env expiry redis t ∧ (Pending t r arrived ∨ Ended t r arrived) ∧ ∀ i, i ≠ r → t.phase i = s.phase i)
    (Ended · r arrived) (OwnStep r response answered) (rank r)
    (by
      rintro t ⟨ht, hpending | hended, hothers⟩
      · obtain ⟨label, u, hown, hstep, hend, hframe, hlt⟩ := hnearer hpending ht
        have hothers' : ∀ i, i ≠ r → u.phase i = s.phase i := fun i hne => (hframe i hne).trans (hothers i hne)
        exact .inr ⟨label, u, hown, hstep, ⟨inv_step laws ht hstep, hend, hothers'⟩, hlt⟩
      · exact .inl hended)
    ⟨hi, h, fun _ _ => rfl⟩
  exact ⟨labels, t, hrun, hown, hlen, hended, hothers⟩

/-- In every state that a run reaches, a request that arrives now, and one that arrived before, is answered or handed
on within six further steps of its own, in which the other requests stand still; whatever the key server answers,
and whether Redis answers or not. -/
theorem request_ends (env : Env P K) (laws : Store.CodecLaws env.codec) (cacheExpiry : Nat)
    (redis : Store.Bytes → Option Store.Bytes) (labels : List Label) (s : State K)
    (hrun : Machine.run (step env) (State.init cacheExpiry redis) labels = some s) (r : Nat)
    (response : Option Auth.Response) (answered : Bool) :
    (∀ arrived, Pending s r arrived → ∃ own t, Machine.run (step env) s own = some t ∧
      (∀ label ∈ own, OwnStep r response answered label) ∧ own.length ≤ 6 ∧ Ended t r arrived ∧
      ∀ i, i ≠ r → t.phase i = s.phase i) ∧
    (s.phase r = none → ∀ path headers, ∃ own t,
      Machine.run (step env) s (.arrive r path headers :: own) = some t ∧
      (∀ label ∈ own, OwnStep r response answered label) ∧ own.length ≤ 6 ∧ Ended t r (arrival path headers) ∧
      ∀ i, i ≠ r → t.phase i = s.phase i) := by
  have hi := inv_run laws hrun
  refine ⟨?_, ?_⟩
  · intro arrived hpending
    obtain ⟨own, t, hown, hall, hlen, hended, hothers⟩ := pending_ends laws hi (.inl hpending) response answered
    exact ⟨own, t, hown, hall, hlen.trans (rank_le s r), hended, hothers⟩
  · intro hnone path headers
    obtain ⟨u, hstep, hpending, hframe⟩ := arrive_enabled hi hnone path headers
    obtain ⟨own, t, hown, hall, hlen, hended, hothers⟩ :=
      pending_ends laws (inv_step laws hi hstep) hpending response answered
    exact ⟨own, t, Machine.run_cons.mpr ⟨u, hstep, hown⟩, hall, hlen.trans (rank_le u r), hended,
      fun i hne => (hothers i hne).trans (hframe i hne)⟩

/-- A third request behind the two, with a key server that does not answer and a Redis that does. -/
theorem request_ends_third : ∃ s,
    Machine.run (step twoUsers) (State.init 60 twoKeys) twoRequests = some s ∧ s.phase 2 = none ∧
    ∃ own t, Machine.run (step twoUsers) s (.arrive 2 "/servers/a/mcp" (bearerHeaders aliceBearer) :: own) = some t ∧
      own.length ≤ 6 ∧ Ended t 2 (arrival "/servers/a/mcp" (bearerHeaders aliceBearer)) := by
  obtain ⟨s, hrun, -, -, hnone⟩ := run_twoRequests
  obtain ⟨own, t, hown, -, hlen, hended, -⟩ :=
    (request_ends twoUsers twoCodec_laws 60 twoKeys twoRequests s hrun 2 none true).2 hnone "/servers/a/mcp"
      (bearerHeaders aliceBearer)
  exact ⟨s, hrun, hnone, own, t, hown, hlen, hended⟩

end DataPlane.Gateway.Admission
