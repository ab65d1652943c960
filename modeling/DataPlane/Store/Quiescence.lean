/-
Quiescent consistency of the user-config cache: once all calls have returned, a `get_config` answers
with what Redis holds. The cache lock is free around the Redis round trip, so an insert can come
after a newer write has been inserted; runs without such an insert are consistent.
-/
import DataPlane.Store.Redis

namespace DataPlane.Store

variable {V : Type} {codec : Codec V}

/-! ## What Redis holds -/

/-- What Redis holds for a user, as `get_config` reports it. -/
def authoritative (codec : Codec V) (redis : Bytes → Option Bytes) (user : User) : Except ConfigStoreError V :=
  match codec.encodeKey user with
  | none => .error .dataEncoding
  | some key => finishGet codec (.ok (redis key))

/-- Redis holds a config for a user. -/
def Holds (codec : Codec V) (s : State V) (user : User) (config : V) : Prop :=
  ∃ key bytes, codec.encodeKey user = some key ∧ s.redis key = some bytes ∧ codec.decode bytes = some config

/-- The cache serves a config for a user. -/
def Served (s : State V) (user : User) (config : V) : Prop :=
  ∃ entry, s.store.entry user.key = some entry ∧ entry.isFresh s.store.cacheExpiry s.now = true ∧
    entry.config = config

/-- A call has yet to insert the config Redis holds for a user. -/
def Pending (codec : Codec V) (s : State V) (id : Nat) (user : User) : Prop :=
  ∃ config get, s.phase id = some (.inserting user config get) ∧ Holds codec s user config

/-- No call is in flight. -/
def Quiescent (s : State V) : Prop := ∀ id, s.phase id = none ∨ s.phase id = some .returned

/-- An insert puts the config Redis holds, or another call has yet to put that one; a write that was
applied and reported as failed finds no other config served; nobody else writes to Redis. -/
def Orderly (codec : Codec V) (s : State V) : Label V → Prop
  | .insert id => ∀ user config get, s.phase id = some (.inserting user config get) →
      Holds codec s user config ∨ ∃ id', id' ≠ id ∧ Pending codec s id' user
  | .write id true false => ∀ user key encoded config, s.phase id = some (.writing user key encoded config) →
      ∀ served, Served s user served → served = config
  | .external _ _ => False
  | _ => True

/-! ## The invariant -/

structure StoreInv (codec : Codec V) (s : State V) : Prop where
  served : ∀ user config, Served s user config → Holds codec s user config ∨ ∃ id, Pending codec s id user
  writing : ∀ id user key encoded config, s.phase id = some (.writing user key encoded config) →
    codec.encodeKey user = some key ∧ codec.decode encoded = some config

section Frame

variable {s t : State V}

/-- Redis holds the same for a user under whose key nothing was written. -/
theorem Holds.congr {user : User} {config : V} (h : Holds codec s user config)
    (hr : ∀ key, codec.encodeKey user = some key → t.redis key = s.redis key) : Holds codec t user config := by
  obtain ⟨key, bytes, hk, hb, hd⟩ := h
  exact ⟨key, bytes, hk, (hr key hk).trans hb, hd⟩

/-- A step that leaves cache, clock and Redis, and moves no call away from a pending insert, keeps
the invariant. -/
theorem StoreInv.frame (hi : StoreInv codec s) (hstore : t.store = s.store) (hnow : t.now = s.now)
    (hredis : t.redis = s.redis)
    (hpending : ∀ id user config get, s.phase id = some (.inserting user config get) →
      t.phase id = some (.inserting user config get))
    (hwriting : ∀ id user key encoded config, t.phase id = some (.writing user key encoded config) →
      codec.encodeKey user = some key ∧ codec.decode encoded = some config) : StoreInv codec t where
  writing := hwriting
  served user config hs := by
    have hholds : ∀ {c}, Holds codec s user c → Holds codec t user c := fun h => h.congr fun _ _ => by rw [hredis]
    obtain ⟨entry, he, hf, hc⟩ := hs
    rw [hstore] at he hf
    rw [hnow] at hf
    rcases hi.served user config ⟨entry, he, hf, hc⟩ with h | ⟨id, c, get, hp, h⟩
    · exact .inl (hholds h)
    · exact .inr ⟨id, c, get, hpending id user c get hp, hholds h⟩

end Frame

/-- Moving a call that was not about to insert. -/
theorem StoreInv.move {s : State V} {id : Nat} {phase : Phase V} (hi : StoreInv codec s)
    (hfree : ∀ user config get, s.phase id ≠ some (.inserting user config get))
    (hphase : ∀ user key encoded config, phase = .writing user key encoded config →
      codec.encodeKey user = some key ∧ codec.decode encoded = some config) (events : List (Event V)) :
    StoreInv codec (s.move id phase events) := by
  refine hi.frame rfl rfl rfl ?_ ?_
  · intro id' user config get h
    rw [phase_move, if_neg]
    · exact h
    · rintro rfl; exact hfree user config get h
  · intro id' user key encoded config h
    rw [phase_move] at h
    split at h
    · exact hphase user key encoded config (Option.some.inj h)
    · exact hi.writing id' user key encoded config h

/-! ## Every orderly step keeps it -/

section Steps

variable {s t : State V} {id : Nat}

theorem inv_call (laws : CodecLaws codec) (hi : StoreInv codec s) {call : Call V}
    (h : step codec s (.call id call) = some t) : StoreInv codec t := by
  cases call with
  | get user =>
    simp only [step] at h
    split at h
    · rename_i hp _; cases h
      exact hi.move (by simp [hp]) (by intros; contradiction) _
    · rename_i hp _; cases h
      exact hi.move (by simp [hp]) (by intros; contradiction) _
    · rename_i hp _; cases h
      exact hi.move (by simp [hp]) (by intros; contradiction) _
    · cases h
  | set user config =>
    simp only [step] at h
    split at h
    · rename_i hp _; cases h
      exact hi.move (by simp [hp]) (by intros; contradiction) _
    · rename_i hp hb; cases h
      refine hi.move (by simp [hp]) ?_ _
      rintro _ _ _ _ ⟨⟩
      exact beginSet_eq_ok laws hb
    · cases h

theorem inv_query (hi : StoreInv codec s) {answered : Bool} (h : step codec s (.query id answered) = some t) :
    StoreInv codec t := by
  simp only [step] at h
  split at h
  · rename_i hp
    split at h
    · cases h
      exact hi.move (by simp [hp]) (by intros; contradiction) _
    · cases h
      exact hi.move (by simp [hp]) (by intros; contradiction) _
  · cases h

/-- A write to one user's key leaves what Redis holds for the others. -/
theorem redis_put_ne (laws : CodecLaws codec) {user user' : User} {key key' : Bytes} {value : Option Bytes}
    (hk : codec.encodeKey user = some key) (hk' : codec.encodeKey user' = some key') (hne : user' ≠ user) :
    (s.put key value).redis key' = s.redis key' := by
  apply if_neg
  rintro rfl
  exact hne (laws.key_inj user' user key' hk' hk)

/-- A write that Redis applied keeps the invariant when it leaves, for its own user, the call about
to insert or nothing else served. -/
theorem inv_applied (laws : CodecLaws codec) (hi : StoreInv codec s) {user : User} {key encoded : Bytes} {config : V}
    {phase : Phase V} {events : List (Event V)} (hp : s.phase id = some (.writing user key encoded config))
    (hphase : ∀ u k e c, phase ≠ .writing u k e c)
    (hown : ∀ served, Served s user served → phase = .inserting user config false ∨ served = config) :
    StoreInv codec ((s.put key (some encoded)).move id phase events) := by
  obtain ⟨hk, hd⟩ := hi.writing id user key encoded config hp
  have hholds : Holds codec ((s.put key (some encoded)).move id phase events) user config :=
    ⟨key, encoded, hk, if_pos rfl, hd⟩
  refine ⟨?_, ?_⟩
  · intro user' served hs
    by_cases hu : user' = user
    · subst hu
      rcases hown served hs with hph | rfl
      · exact .inr ⟨id, config, false, by rw [phase_move, if_pos rfl, hph], hholds⟩
      · exact .inl hholds
    · have hsame : ∀ {c}, Holds codec s user' c →
          Holds codec ((s.put key (some encoded)).move id phase events) user' c :=
        fun h => h.congr fun k' hk' => redis_put_ne laws hk hk' hu
      rcases hi.served user' served hs with h | ⟨id', c, get, hp', h⟩
      · exact .inl (hsame h)
      · refine .inr ⟨id', c, get, ?_, hsame h⟩
        rw [phase_move, if_neg]
        · exact hp'
        · rintro rfl; rw [hp] at hp'; cases hp'
  · intro id' u k e c h
    rw [phase_move] at h
    split at h
    · exact absurd (Option.some.inj h) (hphase u k e c)
    · exact hi.writing id' u k e c h

theorem inv_write (laws : CodecLaws codec) (hi : StoreInv codec s) {applied reported : Bool}
    (ho : Orderly codec s (.write id applied reported)) (h : step codec s (.write id applied reported) = some t) :
    StoreInv codec t := by
  simp only [step] at h
  split at h
  · rename_i user key encoded config hp
    cases applied <;> cases reported
    · cases h
      exact hi.move (by simp [hp]) (by intros; contradiction) _
    · cases h
    · cases h
      exact inv_applied laws hi hp (by intros; simp) fun served hs => .inr (ho user key encoded config hp served hs)
    · cases h
      exact inv_applied laws hi hp (by intros; simp) fun _ _ => .inl rfl
  · cases h

theorem inv_insert (hi : StoreInv codec s) (ho : Orderly codec s (.insert id))
    (h : step codec s (.insert id) = some t) : StoreInv codec t := by
  simp only [step] at h
  split at h
  · rename_i user config get hp
    cases h
    refine ⟨?_, ?_⟩
    · rintro user' served ⟨entry, he, hf, hc⟩
      change (s.store.insert s.now user.key config).entry user'.key = some entry at he
      rw [entry_insert] at he
      -- a pending insert of another call, or for another user, is still ahead
      have hstill : ∀ {id'}, Pending codec s id' user' → id' ≠ id →
          ∃ id', Pending codec (s.insert id user config get) id' user' := by
        rintro id' ⟨c, g, hp', hh⟩ hne
        exact ⟨id', c, g, (if_neg hne).trans hp', hh⟩
      by_cases hu : user' = user
      · subst hu
        rw [if_pos rfl] at he
        have hcfg : served = config := by
          cases hcache : s.store.cache with
          | none => rw [hcache] at he; cases he
          | some cache => rw [hcache] at he; cases he; exact hc.symm
        subst hcfg
        rcases ho user' served get hp with hh | ⟨id', hne, hpend⟩
        · exact .inl hh
        · exact .inr (hstill hpend hne)
      · rw [if_neg fun hk => hu (User.eq_of_key hk)] at he
        rcases hi.served user' served ⟨entry, he, hf, hc⟩ with hh | ⟨id', hpend⟩
        · exact .inl hh
        · refine .inr (hstill hpend ?_)
          rintro rfl
          obtain ⟨_, _, hp', _⟩ := hpend
          rw [hp] at hp'
          cases hp'
          exact hu rfl
    · intro id' u k e c h
      change (if id' = id then some .returned else s.phase id') = _ at h
      split at h
      · cases h
      · exact hi.writing id' u k e c h
  · cases h

theorem inv_advance (hi : StoreInv codec s) (duration : Nat) :
    StoreInv codec { s with now := s.now + duration } := by
  refine ⟨?_, hi.writing⟩
  rintro user served ⟨entry, he, hf, hc⟩
  refine hi.served user served ⟨entry, he, ?_, hc⟩
  simp only [CachedEntry.isFresh, decide_eq_true_eq] at hf ⊢
  omega

theorem inv_evict (hi : StoreInv codec s) (subject : String) :
    StoreInv codec { s with store := s.store.evict subject } := by
  refine ⟨?_, hi.writing⟩
  rintro user served ⟨entry, he, hf, hc⟩
  exact hi.served user served ⟨entry, entry_evict he, hf, hc⟩

theorem inv_step (laws : CodecLaws codec) (hi : StoreInv codec s) {label : Label V} (ho : Orderly codec s label)
    (h : step codec s label = some t) : StoreInv codec t := by
  cases label with
  | call id call => exact inv_call laws hi h
  | query id answered => exact inv_query hi h
  | write id applied reported => exact inv_write laws hi ho h
  | insert id => exact inv_insert hi ho h
  | external key value => exact ho.elim
  | advance duration => cases h; exact inv_advance hi duration
  | evict subject => cases h; exact inv_evict hi subject

end Steps

theorem inv_init (cacheExpiry : Nat) (redis : Bytes → Option Bytes) :
    StoreInv codec (State.init cacheExpiry redis) := by
  refine ⟨?_, ?_⟩
  · rintro user config ⟨entry, he, -⟩
    change (RedisStore.new cacheExpiry).entry user.key = some entry at he
    unfold RedisStore.new RedisStore.entry at he
    simp only at he
    split at he <;> cases he
  · intro id user key encoded config h
    cases h

/-! ## Quiescence -/

/-- When nothing is in flight, `get_config` answers with what Redis holds. -/
theorem StoreInv.getConfig {s : State V} (hi : StoreInv codec s) (hq : Quiescent s) (user : User) :
    (s.store.getConfig codec s.now s.redis user).1 = authoritative codec s.redis user := by
  have hmiss : s.store.beginGet codec s.now user = miss codec user →
      (s.store.getConfig codec s.now s.redis user).1 = authoritative codec s.redis user := by
    intro h
    unfold RedisStore.getConfig authoritative
    rw [h]
    unfold miss
    cases codec.encodeKey user with
    | none => rfl
    | some key =>
      simp only
      cases finishGet codec (.ok (s.redis key)) <;> rfl
  cases he : s.store.entry user.key with
  | none => exact hmiss (by simp only [RedisStore.beginGet, he])
  | some entry =>
    cases hf : entry.isFresh s.store.cacheExpiry s.now with
    | false =>
      apply hmiss
      simp only [RedisStore.beginGet, he, hf, Bool.false_eq_true, if_false]
    | true =>
      -- a hit: nothing is pending, so Redis holds the served config
      have hholds : Holds codec s user entry.config := by
        rcases hi.served user entry.config ⟨entry, he, hf, rfl⟩ with h | ⟨id, c, get, hp, -⟩
        · exact h
        · rcases hq id with h | h <;> rw [hp] at h <;> cases h
      obtain ⟨key, bytes, hk, hb, hd⟩ := hholds
      simp only [RedisStore.getConfig, RedisStore.beginGet, he, hf, if_true, authoritative, hk, hb, finishGet, hd]

/-- In every run in which each insert puts what Redis holds or leaves that to another call in flight,
and no write is applied but reported as failed against another served config, a `get_config` that
follows once all calls have returned answers with what Redis holds. -/
theorem store_quiescent (laws : CodecLaws codec) (cacheExpiry : Nat) (redis : Bytes → Option Bytes)
    (labels : List (Label V)) {s : State V}
    (ho : Machine.Along (step codec) (fun s label _ => Orderly codec s label) (.init cacheExpiry redis) labels)
    (hrun : Machine.run (step codec) (.init cacheExpiry redis) labels = some s) (hq : Quiescent s) (user : User) :
    (s.store.getConfig codec s.now s.redis user).1 = authoritative codec s.redis user := by
  apply StoreInv.getConfig _ hq
  refine Machine.Along.invariant ?_ (inv_init cacheExpiry redis) ho hrun
  intro s label t hi ho h
  exact inv_step laws hi ho h

/-- One byte per config, the key of a user as its text. -/
def byteCodec : Codec UInt8 where
  encodeKey user := some user.key.toByteArray.data.toList
  encode config := some [config]
  decode bytes := match bytes with
    | [config] => some config
    | _ => none

theorem byteCodec_laws : CodecLaws byteCodec where
  key_inj u u' k h h' := by
    have hk : u.key.toByteArray.data.toList = u'.key.toByteArray.data.toList := Option.some.inj (h.trans h'.symm)
    apply User.eq_of_key
    rw [← String.toByteArray_inj]
    exact ByteArray.ext (Array.toList_inj.mp hk)
  round_trip v b h := by cases h; rfl

/-- A Redis that holds config 1 for every user. -/
def storedOne : Bytes → Option Bytes := fun _ => some [1]

def alice : User := ⟨.userConfig, "alice"⟩

/-- A miss and a write that do not overlap. -/
theorem store_quiescent_sequential : ∃ s,
    Machine.run (step byteCodec) (.init 60 storedOne)
      [.call 0 (.get alice), .query 0 true, .insert 0, .call 1 (.set alice 2), .write 1 true true, .insert 1] = some s ∧
    (s.store.getConfig byteCodec s.now s.redis alice).1 = authoritative byteCodec s.redis alice := by
  refine ⟨_, rfl, ?_⟩
  apply store_quiescent byteCodec_laws 60 storedOne
    [.call 0 (.get alice), .query 0 true, .insert 0, .call 1 (.set alice 2), .write 1 true true, .insert 1] ?_ rfl
  · intro id
    rcases id with _ | _ | id
    · exact .inr rfl
    · exact .inr rfl
    · exact .inl rfl
  · rintro _ ⟨⟩
    refine ⟨trivial, ?_⟩
    rintro _ ⟨⟩
    refine ⟨trivial, ?_⟩
    rintro _ ⟨⟩
    refine ⟨?_, ?_⟩
    · rintro _ _ _ ⟨⟩; exact .inl ⟨_, _, rfl, rfl, rfl⟩
    rintro _ ⟨⟩
    refine ⟨trivial, ?_⟩
    rintro _ ⟨⟩
    refine ⟨trivial, ?_⟩
    rintro _ ⟨⟩
    refine ⟨?_, trivial⟩
    rintro _ _ _ ⟨⟩; exact .inl ⟨_, _, rfl, rfl, rfl⟩

/-- A slow miss: its insert comes after a whole `set_config`, and shadows the newer config. -/
theorem store_slow_miss : ∃ s,
    Machine.run (step byteCodec) (.init 60 storedOne)
      [.call 0 (.get alice), .query 0 true, .call 1 (.set alice 2), .write 1 true true, .insert 1, .insert 0] = some s ∧
    Quiescent s ∧ (s.store.getConfig byteCodec s.now s.redis alice).1 = .ok 1 ∧
    authoritative byteCodec s.redis alice = .ok 2 := by
  refine ⟨_, rfl, ?_, rfl, rfl⟩
  intro id
  rcases id with _ | _ | id
  · exact .inr rfl
  · exact .inr rfl
  · exact .inl rfl

end DataPlane.Store
