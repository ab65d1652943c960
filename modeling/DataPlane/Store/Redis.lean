/-
The user-config store: Redis behind a local cache. `get_config` and `set_config` are sequences of a
cache access, a Redis round trip and a cache access, and the cache lock is free in between. The
machine interleaves any number of calls with other writers to Redis, the clock and evictions.
-/
import DataPlane.Lib.Machine

namespace DataPlane.Store

/-! ## Keys, codecs and the cache -/

abbrev Bytes := List UInt8

/-- `KeyType`. -/
inductive KeyType where
  | userConfig
  deriving DecidableEq

/-- `User`. -/
structure User where
  name : KeyType
  key : String
  deriving DecidableEq

/-- `ConfigStoreError`. -/
inductive ConfigStoreError where
  | invalidConnection
  | noDataForKey
  | dataWrongFormat
  | dataEncoding
  | cantWriteData
  | invalidConfiguration (text : String)
  deriving DecidableEq

/-- `rmp_serde` on keys and on configs. -/
structure Codec (V : Type) where
  encodeKey : User → Option Bytes
  encode : V → Option Bytes
  decode : Bytes → Option V

/-- Distinct users have distinct keys, and what was encoded decodes to itself. -/
structure CodecLaws {V : Type} (codec : Codec V) : Prop where
  key_inj : ∀ u u' k, codec.encodeKey u = some k → codec.encodeKey u' = some k → u = u'
  round_trip : ∀ v b, codec.encode v = some b → codec.decode b = some v

variable {V : Type}

/-- `CachedEntry`; instants are numbers. -/
structure CachedEntry (V : Type) where
  insertedAt : Nat
  config : V

/-- `CachedEntry::is_fresh`. -/
def CachedEntry.isFresh (entry : CachedEntry V) (expiry now : Nat) : Bool := now - entry.insertedAt < expiry

/-- `RedisStore`, less its connection. Of the LRU cache only the last insert under each key is kept;
when it drops an entry is left open. -/
structure RedisStore (V : Type) where
  cache : Option (String → Option (CachedEntry V))
  cacheExpiry : Nat

namespace RedisStore

/-- `RedisStore::new`: no cache when the expiry is zero. -/
def new (cacheExpiry : Nat) : RedisStore V where
  cache := if cacheExpiry = 0 then none else some fun _ => none
  cacheExpiry

/-- The cached entry of a subject. -/
def entry (store : RedisStore V) (subject : String) : Option (CachedEntry V) := store.cache.bind (· subject)

def insert (store : RedisStore V) (now : Nat) (subject : String) (config : V) : RedisStore V :=
  { store with cache := store.cache.map fun cache s => if s = subject then some ⟨now, config⟩ else cache s }

def evict (store : RedisStore V) (subject : String) : RedisStore V :=
  { store with cache := store.cache.map fun cache s => if s = subject then none else cache s }

end RedisStore

/-! ## The two calls -/

/-- `get_config` up to its Redis round trip: it returns, or it sends a `GET`. -/
inductive GetStart (V : Type) where
  | returned (result : Except ConfigStoreError V)
  | query (key : Bytes)

/-- `get_config` past its cache access. -/
def miss (codec : Codec V) (user : User) : GetStart V :=
  match codec.encodeKey user with
  | none => .returned (.error .dataEncoding)
  | some key => .query key

/-- `get_config` up to its Redis round trip. -/
def RedisStore.beginGet (codec : Codec V) (store : RedisStore V) (now : Nat) (user : User) : GetStart V :=
  match store.entry user.key with
  | some entry => if entry.isFresh store.cacheExpiry now then .returned (.ok entry.config) else miss codec user
  | none => miss codec user

/-- `get_config` on the reply of Redis, up to its cache insert. -/
def finishGet (codec : Codec V) : Except Unit (Option Bytes) → Except ConfigStoreError V
  | .error _ => .error .noDataForKey
  | .ok none => .error .noDataForKey
  | .ok (some bytes) => match codec.decode bytes with
    | some config => .ok config
    | none => .error .dataWrongFormat

/-- `get_config` when nothing comes in between. -/
def RedisStore.getConfig (codec : Codec V) (store : RedisStore V) (now : Nat) (redis : Bytes → Option Bytes)
    (user : User) : Except ConfigStoreError V × RedisStore V :=
  match store.beginGet codec now user with
  | .returned result => (result, store)
  | .query key => match finishGet codec (.ok (redis key)) with
    | .error error => (.error error, store)
    | .ok config => (.ok config, store.insert now user.key config)

/-- `set_config` up to its Redis round trip: the key and the value it sends. -/
def beginSet (codec : Codec V) (user : User) (config : V) : Except ConfigStoreError (Bytes × Bytes) :=
  match codec.encodeKey user with
  | none => .error .dataEncoding
  | some key => match codec.encode config with
    | none => .error .dataEncoding
    | some encoded => .ok (key, encoded)

/-! ## The machine -/

inductive Call (V : Type) where
  | get (user : User)
  | set (user : User) (config : V)

/-- Where a call stands: before its Redis round trip, before its cache insert, or returned. -/
inductive Phase (V : Type) where
  | querying (user : User) (key : Bytes)
  | writing (user : User) (key encoded : Bytes) (config : V)
  | inserting (user : User) (config : V) (get : Bool)
  | returned

inductive Source where
  | cache (now : Nat)
  | redis

/-- What is seen from outside: writes that Redis applied, values it answered with, cache inserts,
configs that `get_config` returned, failed calls. -/
inductive Event (V : Type) where
  | wrote (key : Bytes) (value : Option Bytes)
  | queried (call : Nat) (key bytes : Bytes)
  | inserted (call : Nat) (user : User) (config : V) (now : Nat)
  | got (call : Nat) (user : User) (config : V) (source : Source)
  | failed (call : Nat) (error : ConfigStoreError)

structure State (V : Type) where
  store : RedisStore V
  redis : Bytes → Option Bytes
  now : Nat
  phase : Nat → Option (Phase V)
  log : List (Event V)

/-- A `GET` may go unanswered; a `SET` may be lost, or applied with its reply lost. -/
inductive Label (V : Type) where
  | call (id : Nat) (call : Call V)
  | query (id : Nat) (answered : Bool)
  | write (id : Nat) (applied reported : Bool)
  | insert (id : Nat)
  | external (key : Bytes) (value : Option Bytes)
  | advance (duration : Nat)
  | evict (subject : String)

namespace State

def init (cacheExpiry : Nat) (redis : Bytes → Option Bytes) : State V :=
  ⟨.new cacheExpiry, redis, 0, fun _ => none, []⟩

/-- Move one call and record what happened, newest event first. -/
def move (s : State V) (id : Nat) (phase : Phase V) (events : List (Event V)) : State V :=
  { s with phase := fun i => if i = id then some phase else s.phase i, log := events ++ s.log }

/-- Redis takes a write. -/
def put (s : State V) (key : Bytes) (value : Option Bytes) : State V :=
  { s with redis := fun k => if k = key then value else s.redis k, log := .wrote key value :: s.log }

/-- A call makes its cache insert and returns; only `get_config` returns the config. -/
def insert (s : State V) (id : Nat) (user : User) (config : V) (get : Bool) : State V :=
  let inserted := if s.store.cache.isSome then [.inserted id user config s.now] else []
  let got := if get then [.got id user config .redis] else []
  { s.move id .returned (got ++ inserted) with store := s.store.insert s.now user.key config }

end State

def step (codec : Codec V) (s : State V) : Label V → Option (State V)
  | .call id (.get user) =>
    match s.phase id, s.store.beginGet codec s.now user with
    | none, .returned (.ok config) => some (s.move id .returned [.got id user config (.cache s.now)])
    | none, .returned (.error error) => some (s.move id .returned [.failed id error])
    | none, .query key => some (s.move id (.querying user key) [])
    | some _, _ => none
  | .call id (.set user config) =>
    match s.phase id, beginSet codec user config with
    | none, .error error => some (s.move id .returned [.failed id error])
    | none, .ok (key, encoded) => some (s.move id (.writing user key encoded config) [])
    | some _, _ => none
  | .query id answered =>
    match s.phase id with
    | some (.querying user key) =>
      let reply := if answered then .ok (s.redis key) else .error ()
      let queried := match reply with
        | .ok (some bytes) => [.queried id key bytes]
        | _ => []
      match finishGet codec reply with
      | .ok config => some (s.move id (.inserting user config true) queried)
      | .error error => some (s.move id .returned (.failed id error :: queried))
    | _ => none
  | .write id applied reported =>
    match s.phase id with
    | some (.writing user key encoded config) =>
      -- a reply comes only from a write that Redis applied
      if reported && !applied then none else
      let t := if applied then s.put key (some encoded) else s
      if reported then some (t.move id (.inserting user config false) [])
      else some (t.move id .returned [.failed id .cantWriteData])
    | _ => none
  | .insert id =>
    match s.phase id with
    | some (.inserting user config get) => some (s.insert id user config get)
    | _ => none
  | .external key value => some (s.put key value)
  | .advance duration => some { s with now := s.now + duration }
  | .evict subject => some { s with store := s.store.evict subject }

/-! ## What the parts do -/

theorem User.eq_of_key : ∀ {u u' : User}, u.key = u'.key → u = u'
  | ⟨.userConfig, _⟩, ⟨.userConfig, _⟩, h => by cases h; rfl

theorem entry_insert (store : RedisStore V) (now : Nat) (subject : String) (config : V) (subject' : String) :
    (store.insert now subject config).entry subject' =
      if subject' = subject then store.cache.map fun _ => ⟨now, config⟩ else store.entry subject' := by
  unfold RedisStore.insert RedisStore.entry
  cases store.cache with
  | none => split <;> rfl
  | some cache =>
    show (if subject' = subject then some ⟨now, config⟩ else cache subject') = _
    split <;> rfl

theorem entry_evict {store : RedisStore V} {subject subject' : String} {entry : CachedEntry V}
    (h : (store.evict subject).entry subject' = some entry) : store.entry subject' = some entry := by
  unfold RedisStore.evict RedisStore.entry at *
  cases hc : store.cache with
  | none => rw [hc] at h; cases h
  | some cache =>
    rw [hc] at h
    change (if subject' = subject then none else cache subject') = some entry at h
    split at h
    · cases h
    · exact h

theorem phase_move (s : State V) (id : Nat) (phase : Phase V) (events : List (Event V)) (i : Nat) :
    (s.move id phase events).phase i = if i = id then some phase else s.phase i := rfl

theorem beginSet_eq_ok {codec : Codec V} (laws : CodecLaws codec) {user : User} {config : V} {key encoded : Bytes}
    (h : beginSet codec user config = .ok (key, encoded)) :
    codec.encodeKey user = some key ∧ codec.decode encoded = some config := by
  unfold beginSet at h
  cases hk : codec.encodeKey user with
  | none => rw [hk] at h; cases h
  | some k =>
    cases he : codec.encode config with
    | none => simp only [hk, he] at h; cases h
    | some e =>
      simp only [hk, he] at h
      cases h
      exact ⟨rfl, laws.round_trip config _ he⟩

theorem beginGet_hit {codec : Codec V} {store : RedisStore V} {now : Nat} {user : User} {config : V}
    (h : store.beginGet codec now user = .returned (.ok config)) :
    ∃ entry, store.entry user.key = some entry ∧ entry.isFresh store.cacheExpiry now = true ∧
      entry.config = config := by
  have hmiss : miss codec user ≠ .returned (.ok config) := by
    unfold miss
    cases codec.encodeKey user <;> simp
  unfold RedisStore.beginGet at h
  split at h
  · rename_i entry he
    split at h
    · rename_i hf
      cases h
      exact ⟨entry, he, hf, rfl⟩
    · exact absurd h hmiss
  · exact absurd h hmiss

theorem beginGet_query {codec : Codec V} {store : RedisStore V} {now : Nat} {user : User} {key : Bytes}
    (h : store.beginGet codec now user = .query key) : codec.encodeKey user = some key := by
  have hmiss : miss codec user = .query key → codec.encodeKey user = some key := by
    intro hm
    unfold miss at hm
    cases hk : codec.encodeKey user with
    | none => rw [hk] at hm; cases hm
    | some k => rw [hk] at hm; cases hm; rfl
  unfold RedisStore.beginGet at h
  split at h
  · split at h
    · cases h
    · exact hmiss h
  · exact hmiss h

theorem finishGet_eq_ok {codec : Codec V} {reply : Except Unit (Option Bytes)} {config : V}
    (h : finishGet codec reply = .ok config) : ∃ bytes, reply = .ok (some bytes) ∧ codec.decode bytes = some config := by
  unfold finishGet at h
  split at h
  · cases h
  · cases h
  · rename_i bytes
    split at h
    · cases h; exact ⟨bytes, rfl, ‹_›⟩
    · cases h

end DataPlane.Store
