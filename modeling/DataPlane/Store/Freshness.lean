/-
Isolation and freshness of the user-config cache, over every interleaving of calls, other writers to
Redis, clock steps and evictions: what `get_config` returns was held by Redis under the user's key, a
cache hit is younger than the expiry since its insert, a failed call inserts nothing, and without a
cache every value was read from Redis by the call itself.
-/
import DataPlane.Store.Quiescence

namespace DataPlane.Store

variable {V : Type} {codec : Codec V} {expiry : Nat} {first : Bytes → Option Bytes}

/-! ## Histories -/

/-- Redis held `bytes` under `key` at the start or after one of the writes. -/
def Held (first : Bytes → Option Bytes) (log : List (Event V)) (key bytes : Bytes) : Prop :=
  first key = some bytes ∨ .wrote key (some bytes) ∈ log

/-- Redis held a config for a user. -/
def HeldFor (codec : Codec V) (first : Bytes → Option Bytes) (log : List (Event V)) (user : User) (config : V) : Prop :=
  ∃ key bytes, codec.encodeKey user = some key ∧ Held first log key bytes ∧ codec.decode bytes = some config

/-- A call was answered by Redis with a config for a user. -/
def ReadBy (codec : Codec V) (log : List (Event V)) (id : Nat) (user : User) (config : V) : Prop :=
  ∃ key bytes, codec.encodeKey user = some key ∧ .queried id key bytes ∈ log ∧ codec.decode bytes = some config

/-- The last config inserted for a subject, with the time of its insert. -/
def lastInserted (subject : String) : List (Event V) → Option (V × Nat)
  | [] => none
  | .inserted _ user config now :: older =>
    if user.key = subject then some (config, now) else lastInserted subject older
  | _ :: older => lastInserted subject older

/-- The call whose outcome an event is. -/
def Event.outcomeOf : Event V → Option Nat
  | wrote _ _ => none
  | queried _ _ _ => none
  | inserted id _ _ _ => some id
  | got id _ _ _ => some id
  | failed id _ => some id

/-- A call without an outcome yet. -/
def Open (log : List (Event V)) (id : Nat) : Prop := ∀ e ∈ log, e.outcomeOf ≠ some id

/-- What an event tells about the events before it. -/
def Sound (codec : Codec V) (expiry : Nat) (first : Bytes → Option Bytes) : Event V → List (Event V) → Prop
  | .wrote _ _, _ => True
  | .queried _ key bytes, older => Held first older key bytes
  | .inserted id user config _, older => HeldFor codec first older user config ∧ ∀ error, .failed id error ∉ older
  | .got _ user config (.cache now), older =>
      ∃ t, lastInserted user.key older = some (config, t) ∧ t ≤ now ∧ now - t < expiry
  | .got id user config .redis, older => ReadBy codec older id user config
  | .failed id _, older => ∀ user config now, .inserted id user config now ∉ older

/-- What the log knows about a call in each phase. -/
def PhaseInv (codec : Codec V) (first : Bytes → Option Bytes) (log : List (Event V)) (id : Nat) :
    Option (Phase V) → Prop
  | none => Open log id
  | some (.querying user key) => Open log id ∧ codec.encodeKey user = some key
  | some (.writing user key encoded config) =>
      Open log id ∧ codec.encodeKey user = some key ∧ codec.decode encoded = some config
  | some (.inserting user config get) => Open log id ∧ HeldFor codec first log user config ∧
      (get = true → ReadBy codec log id user config)
  | some .returned => True

structure TraceInv (codec : Codec V) (expiry : Nat) (first : Bytes → Option Bytes) (s : State V) : Prop where
  constant : s.store.cacheExpiry = expiry
  redis : ∀ key bytes, s.redis key = some bytes → Held first s.log key bytes
  cache : ∀ subject entry, s.store.entry subject = some entry →
    lastInserted subject s.log = some (entry.config, entry.insertedAt) ∧ entry.insertedAt ≤ s.now
  sound : Machine.Justified (Sound codec expiry first) s.log
  phase : ∀ id, PhaseInv codec first s.log id (s.phase id)

/-! ## A longer log -/

theorem Held.append {log : List (Event V)} {key bytes : Bytes} (h : Held first log key bytes)
    (events : List (Event V)) : Held first (events ++ log) key bytes :=
  h.imp_right (List.mem_append_right events)

theorem HeldFor.append {log : List (Event V)} {user : User} {config : V} (h : HeldFor codec first log user config)
    (events : List (Event V)) : HeldFor codec first (events ++ log) user config := by
  obtain ⟨key, bytes, hk, hh, hd⟩ := h
  exact ⟨key, bytes, hk, hh.append events, hd⟩

theorem ReadBy.append {log : List (Event V)} {id : Nat} {user : User} {config : V} (h : ReadBy codec log id user config)
    (events : List (Event V)) : ReadBy codec (events ++ log) id user config := by
  obtain ⟨key, bytes, hk, hq, hd⟩ := h
  exact ⟨key, bytes, hk, List.mem_append_right events hq, hd⟩

theorem Open.append {log : List (Event V)} {id : Nat} (h : Open log id) {events : List (Event V)}
    (hne : ∀ e ∈ events, e.outcomeOf ≠ some id) : Open (events ++ log) id := by
  intro e he
  rcases List.mem_append.mp he with he | he
  · exact hne e he
  · exact h e he

theorem PhaseInv.append {log : List (Event V)} {id : Nat} {phase : Option (Phase V)}
    (h : PhaseInv codec first log id phase) {events : List (Event V)} (hne : ∀ e ∈ events, e.outcomeOf ≠ some id) :
    PhaseInv codec first (events ++ log) id phase := by
  cases phase with
  | none => exact Open.append h hne
  | some phase =>
    cases phase with
    | querying user key => exact ⟨h.1.append hne, h.2⟩
    | writing user key encoded config => exact ⟨h.1.append hne, h.2⟩
    | inserting user config get =>
      exact ⟨h.1.append hne, h.2.1.append events, fun hg => (h.2.2 hg).append events⟩
    | returned => trivial

/-- Events other than inserts do not change what was last inserted. -/
theorem lastInserted_append {subject : String} {log : List (Event V)} : ∀ {events : List (Event V)},
    (∀ e ∈ events, ∀ id user config now, e ≠ .inserted id user config now) →
      lastInserted subject (events ++ log) = lastInserted subject log
  | [], _ => rfl
  | e :: events, h => by
    have ih : lastInserted subject (events ++ log) = lastInserted subject log :=
      lastInserted_append fun e he => h e (List.mem_cons_of_mem _ he)
    cases e with
    | inserted id user config now => exact absurd rfl (h _ (List.mem_cons_self ..) id user config now)
    | _ => exact ih

/-- Moving a call and recording events without an insert. -/
theorem TraceInv.move {s : State V} {id : Nat} {phase : Phase V} {events : List (Event V)}
    (hi : TraceInv codec expiry first s) (hown : ∀ e ∈ events, ∀ i, e.outcomeOf = some i → i = id)
    (hno : ∀ e ∈ events, ∀ i user config now, e ≠ .inserted i user config now)
    (hsound : Machine.Justified (Sound codec expiry first) (events ++ s.log))
    (hphase : PhaseInv codec first (events ++ s.log) id (some phase)) :
    TraceInv codec expiry first (s.move id phase events) where
  constant := hi.constant
  redis key bytes h := (hi.redis key bytes h).append events
  cache subject entry h := by
    obtain ⟨hl, ht⟩ := hi.cache subject entry h
    exact ⟨(lastInserted_append hno).trans hl, ht⟩
  sound := hsound
  phase i := by
    rw [phase_move]
    split
    · rename_i h; rw [h]; exact hphase
    · rename_i hne
      exact (hi.phase i).append fun e he ho => hne (hown e he i ho)

/-- Redis takes a write. -/
theorem TraceInv.put {s : State V} (hi : TraceInv codec expiry first s) (key : Bytes) (value : Option Bytes) :
    TraceInv codec expiry first (s.put key value) where
  constant := hi.constant
  redis k bytes h := by
    change (if k = key then value else s.redis k) = some bytes at h
    split at h
    · rename_i hk
      subst hk h
      exact .inr (List.mem_cons_self ..)
    · exact (hi.redis k bytes h).append [.wrote key value]
  cache := hi.cache
  sound := ⟨trivial, hi.sound⟩
  phase i := by
    have hne : ∀ e ∈ [(.wrote key value : Event V)], e.outcomeOf ≠ some i := by simp [Event.outcomeOf]
    exact (hi.phase i).append hne

/-! ## Every step keeps it -/

section Steps

variable {s t : State V} {id : Nat}

/-- A call that fails had no insert before. -/
theorem sound_failed {log : List (Event V)} (ho : Open log id) (error : ConfigStoreError) :
    Sound codec expiry first (.failed id error) log :=
  fun user config now hm => ho (.inserted id user config now) hm rfl

theorem TraceInv.fail (hi : TraceInv codec expiry first s) (ho : Open s.log id) (error : ConfigStoreError) :
    TraceInv codec expiry first (s.move id .returned [.failed id error]) := by
  refine hi.move ?_ ?_ ?_ ?_
  · simp [Event.outcomeOf]
  · simp
  · exact ⟨sound_failed ho error, hi.sound⟩
  · trivial

theorem trace_get (hi : TraceInv codec expiry first s) {user : User}
    (h : step codec s (.call id (.get user)) = some t) : TraceInv codec expiry first t := by
  have ho := hi.phase id
  simp only [step] at h
  split at h
  · rename_i config hp hb
    cases h
    obtain ⟨entry, he, hf, hc⟩ := beginGet_hit hb
    obtain ⟨hl, ht⟩ := hi.cache user.key entry he
    refine hi.move ?_ ?_ ⟨⟨entry.insertedAt, ?_, ht, ?_⟩, hi.sound⟩ ?_
    · simp [Event.outcomeOf]
    · simp
    · rw [← hc]; exact hl
    · simpa [CachedEntry.isFresh, hi.constant] using hf
    · trivial
  · rename_i error hp hb
    cases h
    rw [hp] at ho
    exact hi.fail ho error
  · rename_i key hp hb
    cases h
    rw [hp] at ho
    refine hi.move ?_ ?_ hi.sound ⟨ho, beginGet_query hb⟩
    · simp
    · simp
  · cases h

theorem trace_set (laws : CodecLaws codec) (hi : TraceInv codec expiry first s) {user : User} {config : V}
    (h : step codec s (.call id (.set user config)) = some t) : TraceInv codec expiry first t := by
  have ho := hi.phase id
  simp only [step] at h
  split at h
  · rename_i error hp hb
    cases h
    rw [hp] at ho
    exact hi.fail ho error
  · rename_i key encoded hp hb
    cases h
    rw [hp] at ho
    refine hi.move ?_ ?_ hi.sound ⟨ho, beginSet_eq_ok laws hb⟩
    · simp
    · simp
  · cases h

theorem trace_query (hi : TraceInv codec expiry first s) {answered : Bool}
    (h : step codec s (.query id answered) = some t) : TraceInv codec expiry first t := by
  have hphase := hi.phase id
  simp only [step] at h
  split at h
  · rename_i user key hp
    rw [hp] at hphase
    obtain ⟨ho, hk⟩ := hphase
    cases answered with
    | false =>
      cases h
      exact hi.fail ho .noDataForKey
    | true =>
      simp only [if_true] at h
      cases hr : s.redis key with
      | none =>
        rw [hr] at h
        cases h
        exact hi.fail ho .noDataForKey
      | some bytes =>
        rw [hr] at h
        have hheld : Held first s.log key bytes := hi.redis key bytes hr
        have hopen : Open ([.queried id key bytes] ++ s.log) id := ho.append (by simp [Event.outcomeOf])
        simp only at h
        split at h
        · rename_i config hf
          cases h
          obtain ⟨_, ⟨⟩, hd⟩ := finishGet_eq_ok hf
          refine hi.move ?_ ?_ ⟨hheld, hi.sound⟩ ⟨hopen, ⟨key, bytes, hk, hheld.append _, hd⟩, ?_⟩
          · simp [Event.outcomeOf]
          · simp
          · intro _
            exact ⟨key, bytes, hk, List.mem_cons_self .., hd⟩
        · rename_i error hf
          cases h
          refine hi.move ?_ ?_ ⟨sound_failed hopen error, hheld, hi.sound⟩ ?_
          · simp [Event.outcomeOf]
          · simp
          · trivial
  · cases h

theorem trace_write (hi : TraceInv codec expiry first s) {applied reported : Bool}
    (h : step codec s (.write id applied reported) = some t) : TraceInv codec expiry first t := by
  have hphase := hi.phase id
  simp only [step] at h
  split at h
  · rename_i user key encoded config hp
    rw [hp] at hphase
    obtain ⟨ho, hk, hd⟩ := hphase
    have hput := hi.put key (some encoded)
    have hopen : Open ([.wrote key (some encoded)] ++ s.log) id := ho.append (by simp [Event.outcomeOf])
    cases applied <;> cases reported
    · cases h
      exact hi.fail ho .cantWriteData
    · cases h
    · cases h
      exact hput.fail hopen .cantWriteData
    · cases h
      refine hput.move ?_ ?_ hput.sound ⟨hopen, ⟨key, encoded, hk, .inr (List.mem_cons_self ..), hd⟩, ?_⟩
      · simp
      · simp
      · simp
  · cases h

/-- An insert becomes the last one of its subject, and the others keep theirs. -/
theorem lastInserted_insert {subject : String} (user : User) (config : V) (get : Bool) :
    lastInserted subject (s.insert id user config get).log =
      if subject = user.key ∧ s.store.cache.isSome then some (config, s.now) else lastInserted subject s.log := by
  unfold State.insert State.move
  cases get <;> cases s.store.cache <;> simp [lastInserted, eq_comm]

theorem justified_insert (hi : TraceInv codec expiry first s) {user : User} {config : V} {get : Bool}
    (hp : s.phase id = some (.inserting user config get)) :
    Machine.Justified (Sound codec expiry first) (s.insert id user config get).log := by
  have hphase := hi.phase id
  rw [hp] at hphase
  obtain ⟨ho, hheld, hread⟩ := hphase
  have hinserted : Sound codec expiry first (.inserted id user config s.now) s.log :=
    ⟨hheld, fun error hm => ho (.failed id error) hm rfl⟩
  change Machine.Justified (Sound codec expiry first) ((_ ++ _) ++ s.log)
  cases get <;> cases s.store.cache
  · exact hi.sound
  · exact ⟨hinserted, hi.sound⟩
  · exact ⟨hread rfl, hi.sound⟩
  · exact ⟨(hread rfl).append [.inserted id user config s.now], hinserted, hi.sound⟩

/-- What an insert records is the outcome of its call. -/
theorem outcomeOf_insert (s : State V) (id : Nat) (user : User) (config : V) (get : Bool) :
    ∃ events, (s.insert id user config get).log = events ++ s.log ∧ ∀ e ∈ events, e.outcomeOf = some id := by
  refine ⟨_, rfl, ?_⟩
  intro e he
  rcases List.mem_append.mp he with he | he
  · split at he <;> simp at he
    rw [he]; rfl
  · split at he <;> simp at he
    rw [he]; rfl

theorem trace_insert (hi : TraceInv codec expiry first s) (h : step codec s (.insert id) = some t) :
    TraceInv codec expiry first t := by
  simp only [step] at h
  split at h
  · rename_i user config get hp
    cases h
    refine ⟨hi.constant, ?_, ?_, ?_, ?_⟩
    · intro key bytes hr
      exact (hi.redis key bytes hr).append _
    · intro subject entry he
      change (s.store.insert s.now user.key config).entry subject = some entry at he
      rw [entry_insert] at he
      rw [lastInserted_insert]
      by_cases hs : subject = user.key
      · rw [if_pos hs] at he
        cases hc : s.store.cache with
        | none => rw [hc] at he; cases he
        | some cache =>
          rw [hc] at he
          cases he
          exact ⟨if_pos ⟨hs, rfl⟩, le_refl _⟩
      · rw [if_neg hs] at he
        rw [if_neg (hs ·.1)]
        exact hi.cache subject entry he
    · exact justified_insert hi hp
    · intro i
      obtain ⟨events, hlog, hown⟩ := outcomeOf_insert s id user config get
      rw [hlog]
      change PhaseInv codec first (events ++ s.log) i (if i = id then some .returned else s.phase i)
      by_cases hne : i = id
      · rw [if_pos hne]; trivial
      · rw [if_neg hne]
        refine (hi.phase i).append ?_
        intro e he ho
        rw [hown e he] at ho
        exact hne (Option.some.inj ho).symm
  · cases h

theorem trace_step (laws : CodecLaws codec) (hi : TraceInv codec expiry first s) {label : Label V}
    (h : step codec s label = some t) : TraceInv codec expiry first t := by
  cases label with
  | call id call =>
    cases call with
    | get user => exact trace_get hi h
    | set user config => exact trace_set laws hi h
  | query id answered => exact trace_query hi h
  | write id applied reported => exact trace_write hi h
  | insert id => exact trace_insert hi h
  | external key value => cases h; exact hi.put key value
  | advance duration =>
    cases h
    refine ⟨hi.constant, hi.redis, ?_, hi.sound, hi.phase⟩
    intro subject entry he
    obtain ⟨hl, ht⟩ := hi.cache subject entry he
    refine ⟨hl, ?_⟩
    show entry.insertedAt ≤ s.now + duration
    omega
  | evict subject =>
    cases h
    exact ⟨hi.constant, hi.redis, fun subject entry he => hi.cache subject entry (entry_evict he), hi.sound, hi.phase⟩

end Steps

theorem trace_init (cacheExpiry : Nat) (redis : Bytes → Option Bytes) :
    TraceInv codec cacheExpiry redis (State.init cacheExpiry redis) where
  constant := rfl
  redis key bytes h := .inl h
  cache subject entry h := by
    change (RedisStore.new cacheExpiry).entry subject = some entry at h
    unfold RedisStore.new RedisStore.entry at h
    simp only at h
    split at h <;> cases h
  sound := trivial
  phase id e he := by cases he

/-! ## Isolation and freshness -/

/-- The last insert of a subject is an insert by a user of that subject. -/
theorem lastInserted_eq_some {subject : String} {config : V} {t : Nat} : ∀ {log : List (Event V)},
    lastInserted subject log = some (config, t) →
      ∃ newer id user older, log = newer ++ .inserted id user config t :: older ∧ user.key = subject
  | [], h => by cases h
  | e :: log, h => by
    have hold : lastInserted subject log = some (config, t) →
        ∃ newer id user older, e :: log = newer ++ .inserted id user config t :: older ∧ user.key = subject := by
      intro h
      obtain ⟨newer, id, user, older, rfl, hu⟩ := lastInserted_eq_some h
      exact ⟨e :: newer, id, user, older, rfl, hu⟩
    cases e with
    | inserted id user c now =>
      unfold lastInserted at h
      split at h
      · rename_i hu
        cases h
        exact ⟨[], id, user, log, rfl, hu⟩
      · exact hold h
    | _ => exact hold h

/-- What is last inserted for a user was held by Redis for that user. -/
theorem heldFor_of_lastInserted {log : List (Event V)} (hs : Machine.Justified (Sound codec expiry first) log)
    {user : User} {config : V} {t : Nat} (h : lastInserted user.key log = some (config, t)) :
    HeldFor codec first log user config := by
  obtain ⟨newer, id, user', older, rfl, hu⟩ := lastInserted_eq_some h
  obtain ⟨hheld, -⟩ := hs.sound
  rw [User.eq_of_key hu] at hheld
  rw [List.append_cons]
  exact hheld.append _

/-- A call in the log that failed made no insert, before or after. -/
theorem not_inserted_of_failed {log : List (Event V)} (hs : Machine.Justified (Sound codec expiry first) log)
    {id : Nat} {error : ConfigStoreError} (hf : .failed id error ∈ log) (user : User) (config : V) (now : Nat) :
    .inserted id user config now ∉ log := by
  refine hs.not_both ?_ ?_ ?_ hf
  · rintro ⟨⟩
  · intro older h
    exact h user config now
  · intro older h
    exact h.2 error

/-- In every run, what `get_config` returns for a user was held by Redis, before it is returned, under
the key of that user and of no other; when it comes from the cache, less than the expiry has passed
since the last insert for that user; with expiry zero it was read from Redis by this call. A failed
call inserts nothing, and the cache holds last inserts only. -/
theorem cache_isolated_fresh (laws : CodecLaws codec) (cacheExpiry : Nat) (redis : Bytes → Option Bytes)
    (labels : List (Label V)) {s : State V}
    (hrun : Machine.run (step codec) (.init cacheExpiry redis) labels = some s) :
    (∀ newer id user config source older, s.log = newer ++ .got id user config source :: older →
      (∃ key bytes, codec.encodeKey user = some key ∧ (∀ user', codec.encodeKey user' = some key → user' = user) ∧
        Held redis older key bytes ∧ codec.decode bytes = some config) ∧
      (∀ now, source = .cache now →
        ∃ t, lastInserted user.key older = some (config, t) ∧ t ≤ now ∧ now - t < cacheExpiry) ∧
      (cacheExpiry = 0 → ReadBy codec older id user config)) ∧
    (∀ id error, .failed id error ∈ s.log → ∀ user config now, .inserted id user config now ∉ s.log) ∧
    (∀ subject entry, s.store.entry subject = some entry →
      lastInserted subject s.log = some (entry.config, entry.insertedAt)) := by
  have hi : TraceInv codec cacheExpiry redis s := by
    refine Machine.run_invariant ?_ (trace_init cacheExpiry redis) hrun
    intro s label t hi h
    exact trace_step laws hi h
  refine ⟨?_, ?_, fun subject entry he => (hi.cache subject entry he).1⟩
  · intro newer id user config source older hlog
    have hs := hi.sound
    rw [hlog] at hs
    have hgot := hs.sound
    have holder : Machine.Justified (Sound codec cacheExpiry redis) older := hs.older.2
    have hheld : HeldFor codec redis older user config := by
      cases source with
      | cache now =>
        obtain ⟨t, hl, -⟩ := hgot
        exact heldFor_of_lastInserted holder hl
      | redis =>
        obtain ⟨key, bytes, hk, hq, hd⟩ := hgot
        obtain ⟨newer', older', rfl⟩ := List.append_of_mem hq
        rw [List.append_cons]
        exact ⟨key, bytes, hk, holder.sound.append _, hd⟩
    refine ⟨?_, ?_, ?_⟩
    · obtain ⟨key, bytes, hk, hh, hd⟩ := hheld
      exact ⟨key, bytes, hk, fun user' hk' => laws.key_inj user' user key hk' hk, hh, hd⟩
    · rintro now rfl
      exact hgot
    · rintro rfl
      cases source with
      | cache now =>
        -- nothing is younger than zero
        obtain ⟨t, -, -, hlt⟩ := hgot
        omega
      | redis => exact hgot
  · intro id error hf user config now
    exact not_inserted_of_failed hi.sound hf user config now

/-- A miss, a hit 40 later, another writer to Redis, and a miss 20 later that reads its config. -/
theorem cache_isolated_fresh_hit : ∃ s,
    Machine.run (step byteCodec) (.init 60 storedOne)
      [.call 0 (.get alice), .query 0 true, .insert 0, .advance 40, .call 1 (.get alice),
        .external [97, 108, 105, 99, 101] (some [2]), .advance 20, .call 2 (.get alice), .query 2 true] = some s ∧
    (∃ t, lastInserted alice.key s.log = some (1, t) ∧ t ≤ 40 ∧ 40 - t < 60) ∧
    HeldFor byteCodec storedOne s.log alice 1 := by
  refine ⟨_, rfl, ?_⟩
  obtain ⟨hgot, -⟩ := cache_isolated_fresh byteCodec_laws 60 storedOne
    [.call 0 (.get alice), .query 0 true, .insert 0, .advance 40, .call 1 (.get alice),
      .external [97, 108, 105, 99, 101] (some [2]), .advance 20, .call 2 (.get alice), .query 2 true] rfl
  obtain ⟨⟨key, bytes, hk, -, hh, hd⟩, hc, -⟩ := hgot [.queried 2 [97, 108, 105, 99, 101] [2],
    .wrote [97, 108, 105, 99, 101] (some [2])] 1 alice 1 (.cache 40) _ rfl
  exact ⟨hc 40 rfl, key, bytes, hk, hh.append [.queried 2 [97, 108, 105, 99, 101] [2],
    .wrote [97, 108, 105, 99, 101] (some [2]), .got 1 alice 1 (.cache 40)], hd⟩

end DataPlane.Store
