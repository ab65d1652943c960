/-
The two calls a request waits for, inside the machines of the services: once begun, a call of `validate` is about the
token it was begun with and a call of `get_config` about its user, whatever other calls do, and a call that has
returned has left its result in the log.
-/
import DataPlane.Gateway.Admission

namespace DataPlane.Gateway.Admission

open DataPlane.Store (User ConfigStoreError)

/-! ## The call of `validate` -/

section Validate

variable {P K : Type} {lib : Auth.JwtLib P K} {jwks : Auth.Jwks} {s t : Auth.State K} {r : Nat} {token : String}
  {header : Auth.Header}

/-- The call that makes a step. -/
def jwksActor : Auth.Label → Option Nat
  | .call id _ _ | .fetch id _ | .insert id => some id
  | .expire | .advance _ => none

def ValidatePhase (log : List (Auth.Event K)) (r : Nat) (token : String) (header : Auth.Header) :
    Option (Auth.Phase K) → Prop
  | none => False
  | some (.fetching ownToken ownHeader) => ownToken = token ∧ ownHeader = header
  | some (.inserting ownToken ownHeader _ _ _) => ownToken = token ∧ ownHeader = header
  | some .returned => (validated log r).isSome

/-- The `validate` call of a request has begun, and it is about this token. -/
structure Validates (s : Auth.State K) (r : Nat) (token : String) (header : Auth.Header) : Prop where
  own : ∀ ownToken ownHeader decodedAt claims, .returned r ownToken ownHeader decodedAt claims ∈ s.log →
    ownToken = token ∧ ownHeader = header
  phase : ValidatePhase s.log r token header (s.phase r)

theorem validated_append {log : List (Auth.Event K)} (events : List (Auth.Event K)) (h : (validated log r).isSome) :
    (validated (events ++ log) r).isSome := by
  unfold validated at *
  rw [List.findSome?_append, Option.isSome_or, h, Bool.or_true]

theorem validated_eq_some {log : List (Auth.Event K)} {claims : Option Auth.AuthorizationClaims}
    (h : validated log r = some claims) :
    ∃ ownToken ownHeader decodedAt, .returned r ownToken ownHeader decodedAt claims ∈ log := by
  obtain ⟨e, he, hclaims⟩ := List.exists_of_findSome?_eq_some h
  cases e with
  | returned call ownToken ownHeader decodedAt own =>
    dsimp only at hclaims
    split at hclaims
    · rename_i hcall
      cases hclaims
      exact ⟨ownToken, ownHeader, decodedAt, hcall ▸ he⟩
    · cases hclaims
  | _ => cases hclaims

/-- A step records results of its own call only, and moves no other call. -/
theorem jwks_frame {label : Auth.Label} (h : Auth.step lib jwks s label = some t) :
    ∃ events, t.log = events ++ s.log ∧
      (∀ e ∈ events, ∀ i, e.endOf = some i → jwksActor label = some i) ∧
      ∀ i, jwksActor label ≠ some i → t.phase i = s.phase i := by
  have hmove : ∀ {id : Nat} {phase : Auth.Phase K} (i : Nat), some id ≠ some i →
      (if i = id then some phase else s.phase i) = s.phase i := by
    intro id phase i hne
    rw [if_neg fun h => hne (congrArg some h.symm)]
  cases label with
  | call id token header =>
    simp only [Auth.step] at h
    split at h
    · split at h <;> cases h
      · refine ⟨_, rfl, ?_, fun i => hmove i⟩
        simp [Auth.Event.endOf, jwksActor]
      · refine ⟨[], rfl, ?_, fun i => hmove i⟩
        simp [Auth.Event.endOf]
    · cases h
  | fetch id response =>
    simp only [Auth.step] at h
    split at h
    · split at h <;> cases h
      · refine ⟨_, rfl, ?_, fun i => hmove i⟩
        simp [Auth.Event.endOf]
      · refine ⟨_, rfl, ?_, fun i => hmove i⟩
        simp [Auth.Event.endOf, jwksActor]
    · cases h
  | insert id =>
    simp only [Auth.step] at h
    split at h
    · cases h
      refine ⟨_, rfl, ?_, fun i => hmove i⟩
      simp [Auth.Event.endOf, jwksActor]
    · cases h
  | expire =>
    cases h
    refine ⟨[.expired], rfl, ?_, fun i _ => rfl⟩
    simp [Auth.Event.endOf]
  | advance duration =>
    cases h
    refine ⟨[], rfl, ?_, fun i _ => rfl⟩
    simp [Auth.Event.endOf]

theorem Validates.step {label : Auth.Label} (h : Validates s r token header)
    (hstep : Auth.step lib jwks s label = some t) : Validates t r token header := by
  obtain ⟨events, hlog, hown, hphase⟩ := jwks_frame hstep
  by_cases hactor : jwksActor label = some r
  · -- the request's own call makes the step it is at
    have hp := h.phase
    cases label with
    | call id token' header' =>
      cases hactor
      simp only [Auth.step] at hstep
      split at hstep
      · rename_i hnone
        rw [hnone] at hp
        cases hp
      · cases hstep
    | fetch id response =>
      cases hactor
      simp only [Auth.step] at hstep
      split at hstep
      · rename_i token' header' hfetching
        rw [hfetching] at hp
        obtain ⟨rfl, rfl⟩ := hp
        split at hstep <;> cases hstep
        · refine ⟨?_, ?_⟩
          · intro ownToken ownHeader decodedAt claims hm
            exact h.own _ _ _ _ (List.mem_of_ne_of_mem (by simp) hm)
          · simp [ValidatePhase, Auth.State.move]
        · refine ⟨?_, ?_⟩
          · intro ownToken ownHeader decodedAt claims hm
            rcases List.mem_cons.mp hm with heq | hm
            · cases heq
              exact ⟨rfl, rfl⟩
            · exact h.own _ _ _ _ (List.mem_of_ne_of_mem (by simp) hm)
          · simp [ValidatePhase, Auth.State.move, validated]
      · cases hstep
    | insert id =>
      cases hactor
      simp only [Auth.step] at hstep
      split at hstep
      · rename_i token' header' keys decodedAt claims hinserting
        rw [hinserting] at hp
        obtain ⟨rfl, rfl⟩ := hp
        cases hstep
        refine ⟨?_, ?_⟩
        · intro ownToken ownHeader decodedAt claims hm
          rcases List.mem_cons.mp hm with heq | hm
          · cases heq
            exact ⟨rfl, rfl⟩
          · exact h.own _ _ _ _ (List.mem_of_ne_of_mem (by simp) hm)
        · simp [ValidatePhase, Auth.State.move, validated]
      · cases hstep
    | expire => cases hactor
    | advance duration => cases hactor
  · refine ⟨?_, ?_⟩
    · intro ownToken ownHeader decodedAt claims hm
      rw [hlog] at hm
      rcases List.mem_append.mp hm with hm | hm
      · exact absurd (hown _ hm r rfl) hactor
      · exact h.own _ _ _ _ hm
    · have hp := h.phase
      rw [hphase r hactor, hlog]
      rcases hr : s.phase r with _ | phase
      · rw [hr] at hp
        cases hp
      · rw [hr] at hp
        cases phase with
        | fetching ownToken ownHeader => exact hp
        | inserting ownToken ownHeader keys decodedAt claims => exact hp
        | returned => exact validated_append events hp

/-- A call starts with the request's token. -/
theorem Validates.start (hnone : s.phase r = none) (hopen : Auth.Open s.log r)
    (h : Auth.step lib jwks s (.call r token header) = some t) : Validates t r token header := by
  have hold : ∀ ownToken ownHeader decodedAt claims,
      (.returned r ownToken ownHeader decodedAt claims : Auth.Event K) ∉ s.log := by
    intro ownToken ownHeader decodedAt claims hm
    exact hopen _ hm rfl
  simp only [Auth.step, hnone] at h
  split at h <;> cases h
  · refine ⟨?_, ?_⟩
    · intro ownToken ownHeader decodedAt claims hm
      rcases List.mem_cons.mp hm with heq | hm
      · cases heq
        exact ⟨rfl, rfl⟩
      · exact (hold _ _ _ _ hm).elim
    · simp [ValidatePhase, Auth.State.move, validated]
  · refine ⟨?_, ?_⟩
    · intro ownToken ownHeader decodedAt claims hm
      exact (hold _ _ _ _ hm).elim
    · simp [ValidatePhase, Auth.State.move]

end Validate

/-! ## The call of `get_config` -/

section Get

variable {codec : Store.Codec UserConfig} {s t : Store.State UserConfig} {r : Nat} {user : User}

def storeActor : Store.Label UserConfig → Option Nat
  | .call id _ | .query id _ | .write id _ _ | .insert id => some id
  | .external _ _ | .advance _ | .evict _ => none

def GetPhase (log : List (Store.Event UserConfig)) (r : Nat) (user : User) : Option (Store.Phase UserConfig) → Prop
  | none => False
  | some (.querying ownUser _) => ownUser = user
  | some (.writing _ _ _ _) => False
  | some (.inserting ownUser _ get) => ownUser = user ∧ get = true
  | some .returned => (fetched log r).isSome

/-- The `get_config` call of a request has begun, and it is about this user. -/
structure Gets (s : Store.State UserConfig) (r : Nat) (user : User) : Prop where
  own : ∀ ownUser config source, .got r ownUser config source ∈ s.log → ownUser = user
  phase : GetPhase s.log r user (s.phase r)

theorem fetched_append {log : List (Store.Event UserConfig)} (events : List (Store.Event UserConfig))
    (h : (fetched log r).isSome) : (fetched (events ++ log) r).isSome := by
  unfold fetched at *
  rw [List.findSome?_append, Option.isSome_or, h, Bool.or_true]

theorem fetched_eq_some {log : List (Store.Event UserConfig)} {result : Except ConfigStoreError UserConfig}
    (h : fetched log r = some result) :
    (∃ ownUser config source, result = .ok config ∧ .got r ownUser config source ∈ log) ∨
      ∃ error, result = .error error ∧ .failed r error ∈ log := by
  obtain ⟨e, he, hresult⟩ := List.exists_of_findSome?_eq_some h
  cases e with
  | got call ownUser config source =>
    dsimp only at hresult
    split at hresult
    · rename_i hcall
      cases hresult
      exact .inl ⟨ownUser, config, source, rfl, hcall ▸ he⟩
    · cases hresult
  | failed call error =>
    dsimp only at hresult
    split at hresult
    · rename_i hcall
      cases hresult
      exact .inr ⟨error, rfl, hcall ▸ he⟩
    · cases hresult
  | _ => cases hresult

/-- A step records outcomes of its own call only, and moves no other call. -/
theorem store_frame {label : Store.Label UserConfig} (h : Store.step codec s label = some t) :
    ∃ events, t.log = events ++ s.log ∧
      (∀ e ∈ events, ∀ i, e.outcomeOf = some i → storeActor label = some i) ∧
      ∀ i, storeActor label ≠ some i → t.phase i = s.phase i := by
  have hmove : ∀ {id : Nat} {phase : Store.Phase UserConfig} (i : Nat), some id ≠ some i →
      (if i = id then some phase else s.phase i) = s.phase i := by
    intro id phase i hne
    rw [if_neg fun h => hne (congrArg some h.symm)]
  cases label with
  | call id call =>
    cases call with
    | get user =>
      simp only [Store.step] at h
      split at h <;> cases h
      · refine ⟨_, rfl, ?_, fun i => hmove i⟩
        simp [Store.Event.outcomeOf, storeActor]
      · refine ⟨_, rfl, ?_, fun i => hmove i⟩
        simp [Store.Event.outcomeOf, storeActor]
      · refine ⟨[], rfl, ?_, fun i => hmove i⟩
        simp
    | set user config =>
      simp only [Store.step] at h
      split at h <;> cases h
      · refine ⟨_, rfl, ?_, fun i => hmove i⟩
        simp [Store.Event.outcomeOf, storeActor]
      · refine ⟨[], rfl, ?_, fun i => hmove i⟩
        simp
  | query id answered =>
    simp only [Store.step] at h
    split at h
    · split at h <;> cases h
      · refine ⟨_, rfl, ?_, fun i => hmove i⟩
        intro e he i hi
        split at he
        · rw [List.mem_singleton.mp he] at hi
          cases hi
        · cases he
      · refine ⟨_, rfl, ?_, fun i => hmove i⟩
        intro e he i hi
        rcases List.mem_cons.mp he with rfl | he
        · exact hi
        · split at he
          · rw [List.mem_singleton.mp he] at hi
            cases hi
          · cases he
    · cases h
  | write id applied reported =>
    simp only [Store.step] at h
    split at h
    · rename_i user key encoded config hp
      split at h
      · cases h
      · have hput : ∃ events, (if applied then s.put key (some encoded) else s).log = events ++ s.log ∧
            (∀ e ∈ events, e.outcomeOf = none) ∧
            (if applied then s.put key (some encoded) else s).phase = s.phase := by
          split
          · exact ⟨[.wrote key (some encoded)], rfl, by simp [Store.Event.outcomeOf], rfl⟩
          · exact ⟨[], rfl, by simp, rfl⟩
        obtain ⟨events, hlog, hnone, hphase⟩ := hput
        split at h <;> cases h
        · refine ⟨events, hlog, ?_, ?_⟩
          · intro e he i hi
            rw [hnone e he] at hi
            cases hi
          · intro i hne
            change (if i = id then _ else Store.State.phase _ i) = s.phase i
            rw [hphase]
            exact hmove i hne
        · refine ⟨.failed id .cantWriteData :: events, congrArg (_ :: ·) hlog, ?_, ?_⟩
          · intro e he i hi
            rcases List.mem_cons.mp he with rfl | he
            · exact hi
            · rw [hnone e he] at hi
              cases hi
          · intro i hne
            change (if i = id then _ else Store.State.phase _ i) = s.phase i
            rw [hphase]
            exact hmove i hne
    · cases h
  | insert id =>
    simp only [Store.step] at h
    split at h
    · rename_i user config get hp
      cases h
      obtain ⟨events, hlog, hown⟩ := Store.outcomeOf_insert s id user config get
      refine ⟨events, hlog, ?_, fun i => hmove i⟩
      intro e he i hi
      rw [hown e he] at hi
      exact hi
    · cases h
  | external key value =>
    cases h
    refine ⟨[.wrote key value], rfl, ?_, fun i _ => rfl⟩
    simp [Store.Event.outcomeOf]
  | advance duration =>
    cases h
    refine ⟨[], rfl, ?_, fun i _ => rfl⟩
    simp
  | evict subject =>
    cases h
    refine ⟨[], rfl, ?_, fun i _ => rfl⟩
    simp

theorem Gets.step {label : Store.Label UserConfig} (h : Gets s r user) (hstep : Store.step codec s label = some t) :
    Gets t r user := by
  obtain ⟨events, hlog, hown, hphase⟩ := store_frame hstep
  by_cases hactor : storeActor label = some r
  · have hp := h.phase
    cases label with
    | call id call =>
      -- the request has called already
      cases hactor
      have hnone : s.phase r = none := by
        rcases hr : s.phase r with _ | phase
        · rfl
        · cases call <;> simp [Store.step, hr] at hstep
      rw [hnone] at hp
      cases hp
    | query id answered =>
      cases hactor
      simp only [Store.step] at hstep
      split at hstep
      · rename_i ownUser key hquerying
        rw [hquerying] at hp
        obtain rfl : ownUser = user := hp
        split at hstep <;> cases hstep
        · refine ⟨?_, ?_⟩
          · intro u config source hm
            rcases List.mem_append.mp hm with hm | hm
            · split at hm <;> simp at hm
            · exact h.own u config source hm
          · simp [GetPhase, Store.State.move]
        · refine ⟨?_, ?_⟩
          · intro u config source hm
            rcases List.mem_cons.mp hm with heq | hm
            · cases heq
            · rcases List.mem_append.mp hm with hm | hm
              · split at hm <;> simp at hm
              · exact h.own u config source hm
          · simp [GetPhase, Store.State.move, fetched]
      · cases hstep
    | write id applied reported =>
      cases hactor
      simp only [Store.step] at hstep
      split at hstep
      · rename_i hwriting
        rw [hwriting] at hp
        cases hp
      · cases hstep
    | insert id =>
      cases hactor
      simp only [Store.step] at hstep
      split at hstep
      · rename_i ownUser config get hinserting
        rw [hinserting] at hp
        obtain ⟨rfl, rfl⟩ := hp
        cases hstep
        refine ⟨?_, ?_⟩
        · intro u config' source hm
          rcases List.mem_cons.mp hm with heq | hm
          · cases heq
            rfl
          · rcases List.mem_append.mp hm with hm | hm
            · split at hm <;> simp at hm
            · exact h.own u config' source hm
        · simp [GetPhase, Store.State.insert, Store.State.move, fetched]
      · cases hstep
    | external key value => cases hactor
    | advance duration => cases hactor
    | evict subject => cases hactor
  · refine ⟨?_, ?_⟩
    · intro ownUser config source hm
      rw [hlog] at hm
      rcases List.mem_append.mp hm with hm | hm
      · exact absurd (hown _ hm r rfl) hactor
      · exact h.own ownUser config source hm
    · have hp := h.phase
      rw [hphase r hactor, hlog]
      rcases hr : s.phase r with _ | phase
      · rw [hr] at hp
        cases hp
      · rw [hr] at hp
        cases phase with
        | querying ownUser key => exact hp
        | writing ownUser key encoded config => exact hp
        | inserting ownUser config get => exact hp
        | returned => exact fetched_append events hp

/-- A call starts with the request's user. -/
theorem Gets.start (hnone : s.phase r = none) (hopen : Store.Open s.log r)
    (h : Store.step codec s (.call r (.get user)) = some t) : Gets t r user := by
  have hold : ∀ ownUser config source, (.got r ownUser config source : Store.Event UserConfig) ∉ s.log := by
    intro ownUser config source hm
    exact hopen _ hm rfl
  simp only [Store.step, hnone] at h
  split at h <;> cases h
  · refine ⟨?_, ?_⟩
    · intro ownUser config source hm
      rcases List.mem_cons.mp hm with heq | hm
      · cases heq
        rfl
      · exact (hold _ _ _ hm).elim
    · simp [GetPhase, Store.State.move, fetched]
  · refine ⟨?_, ?_⟩
    · intro ownUser config source hm
      rcases List.mem_cons.mp hm with heq | hm
      · cases heq
      · exact (hold _ _ _ hm).elim
    · simp [GetPhase, Store.State.move, fetched]
  · refine ⟨?_, ?_⟩
    · intro ownUser config source hm
      exact (hold _ _ _ hm).elim
    · simp [GetPhase, Store.State.move]

end Get

end DataPlane.Gateway.Admission
