/-
Tracking of tool calls by one backend client: any number of `start_tool_call`, `progress_call` and
`stop_tracking_tool_call` interleaved at their lock operations and at the enqueue of the request.
The write guard spans the enqueue and the publication of the token, so that whenever a lookup runs
the map holds exactly the calls that were enqueued with a caller's token and are not yet stopped.
-/
import DataPlane.Gateway.BackendClient
import DataPlane.Lib.Machine

namespace DataPlane.Gateway.Tracking

open DataPlane.Gateway

variable {M C P : Type}

/-! ## The machine -/

/-- `Arc<InFlightToolCall>`: the value and the start that allocated it. -/
structure TrackedCall (M C P : Type) where
  owner : Nat
  call : InFlightToolCall M C P

/-- Where a tool call stands; `sending` to `published` and `stopping`, `removed` hold the write
guard. -/
inductive Phase (M C P : Type) where
  | idle
  | sending (call : InFlightToolCall M C P)
  | enqueued (call : InFlightToolCall M C P) (token : ProgressToken)
  | published (token : ProgressToken)
  | started (token : ProgressToken)
  | failed
  | stopping (token : ProgressToken)
  | removed (token : ProgressToken)
  | stopped (token : ProgressToken)

inductive Event (M C P : Type) where
  | enqueued (i : Nat) (token : ProgressToken) (call : Option (InFlightToolCall M C P))
  | refused (i : Nat) (token : ProgressToken)
  | removed (i : Nat) (token : ProgressToken)
  | looked (token : ProgressToken) (found : Option (TrackedCall M C P))

/-- The steps of calls `i` and lookups `j`. -/
inductive Action (M C P : Type) where
  | acquire (i : Nat) (call : InFlightToolCall M C P)
  | enqueue (i : Nat) (token : ProgressToken)
  | refuse (i : Nat) (token : ProgressToken)
  | publish (i : Nat)
  | release (i : Nat)
  | send (i : Nat) (token : ProgressToken)
  | sendRefused (i : Nat) (token : ProgressToken)
  | acquireStop (i : Nat)
  | remove (i : Nat)
  | releaseStop (i : Nat)
  | readLock (j : Nat)
  | lookup (j : Nat) (token : ProgressToken)
  | readUnlock (j : Nat)

structure State (M C P : Type) where
  phase : Nat → Phase M C P := fun _ => .idle
  calls : HashMap ProgressToken (TrackedCall M C P) := ∅
  writer : Option Nat := none
  readers : List Nat := []
  log : List (Event M C P) := []

/-- The token an event shows to have been generated. -/
def Event.issued : Event M C P → Option ProgressToken
  | .enqueued _ token _ => some token
  | .refused _ token => some token
  | _ => none

/-- `rmcp` has not generated the token yet. -/
def Fresh (log : List (Event M C P)) (token : ProgressToken) : Prop := ∀ e ∈ log, e.issued ≠ some token

instance (log : List (Event M C P)) (token : ProgressToken) : Decidable (Fresh log token) :=
  decidable_of_iff (log.all fun e => e.issued ≠ some token) (by simp [Fresh])

namespace State

variable (s : State M C P) (i : Nat)

def setPhase (phase : Phase M C P) : State M C P := { s with phase := Function.update s.phase i phase }

/-- `RwLock::write`, granted while no one holds the lock. -/
def lockWrite (phase : Phase M C P) : Option (State M C P) :=
  if s.writer = none ∧ s.readers = [] then some { s.setPhase i phase with writer := some i } else none

/-- The write guard is dropped. -/
def dropGuard (phase : Phase M C P) : State M C P := { s.setPhase i phase with writer := none }

def logged (e : Event M C P) : State M C P := { s with log := e :: s.log }

end State

/-- One step; `none` when it is not enabled. -/
def step (s : State M C P) : Action M C P → Option (State M C P)
  -- `start_tool_call` with a caller's token
  | .acquire i call => match s.phase i with
    | .idle => s.lockWrite i (.sending call)
    | _ => none
  | .enqueue i token => match s.phase i with
    | .sending call =>
      if Fresh s.log token then some ((s.setPhase i (.enqueued call token)).logged (.enqueued i token (some call)))
      else none
    | _ => none
  | .refuse i token => match s.phase i with
    | .sending _ => if Fresh s.log token then some ((s.dropGuard i .failed).logged (.refused i token)) else none
    | _ => none
  | .publish i => match s.phase i with
    | .enqueued call token => some { s.setPhase i (.published token) with calls := s.calls.insert token ⟨i, call⟩ }
    | _ => none
  | .release i => match s.phase i with
    | .published token => some (s.dropGuard i (.started token))
    | _ => none
  -- `start_tool_call` without one takes no lock
  | .send i token => match s.phase i with
    | .idle =>
      if Fresh s.log token then some ((s.setPhase i (.started token)).logged (.enqueued i token none)) else none
    | _ => none
  | .sendRefused i token => match s.phase i with
    | .idle => if Fresh s.log token then some ((s.setPhase i .failed).logged (.refused i token)) else none
    | _ => none
  -- `stop_tracking_tool_call`
  | .acquireStop i => match s.phase i with
    | .started token => s.lockWrite i (.stopping token)
    | _ => none
  | .remove i => match s.phase i with
    | .stopping token =>
      some ({ s.setPhase i (.removed token) with calls := s.calls.erase token }.logged (.removed i token))
    | _ => none
  | .releaseStop i => match s.phase i with
    | .removed token => some (s.dropGuard i (.stopped token))
    | _ => none
  -- `progress_call`
  | .readLock j => if s.writer = none ∧ j ∉ s.readers then some { s with readers := j :: s.readers } else none
  | .lookup j token =>
    if j ∈ s.readers then some (s.logged (.looked token (progressCall s.calls token))) else none
  | .readUnlock j => if j ∈ s.readers then some { s with readers := s.readers.erase j } else none

/-! ## The invariant -/

/-- The token of a call's request. -/
def Phase.token : Phase M C P → Option ProgressToken
  | .enqueued _ token | .published token | .started token | .stopping token | .removed token | .stopped token =>
    some token
  | .idle | .sending _ | .failed => none

/-- The call holds the write guard. -/
def Phase.guards : Phase M C P → Bool
  | .sending _ | .enqueued _ _ | .published _ | .stopping _ | .removed _ => true
  | .idle | .started _ | .failed | .stopped _ => false

/-- The call is enqueued and its token not yet published. -/
def Phase.unpublished : Phase M C P → Bool
  | .enqueued _ _ => true
  | _ => false

/-- The call's token was taken from the map. -/
def Phase.untracked : Phase M C P → Bool
  | .removed _ | .stopped _ => true
  | _ => false

/-- The calls a lookup may find: enqueued with a caller's token and not stopped. -/
def Tracked (log : List (Event M C P)) (token : ProgressToken) (tracked : TrackedCall M C P) : Prop :=
  .enqueued tracked.owner token (some tracked.call) ∈ log ∧ .removed tracked.owner token ∉ log

/-- A lookup finds exactly the tracked call. -/
def Sound : Event M C P → List (Event M C P) → Prop
  | .looked token found, older => ∀ tracked, found = some tracked ↔ Tracked older token tracked
  | _, _ => True

structure Inv (s : State M C P) : Prop where
  writer : ∀ i, (s.phase i).guards = true ↔ s.writer = some i
  readers : s.readers ≠ [] → s.writer = none
  issued : ∀ e ∈ s.log, ∀ e' ∈ s.log, ∀ token, e.issued = some token → e'.issued = some token → e = e'
  enqueued : ∀ i token call, .enqueued i token call ∈ s.log → (s.phase i).token = some token
  token : ∀ i token, (s.phase i).token = some token → ∃ call, .enqueued i token call ∈ s.log
  sent : ∀ i call token, s.phase i = .enqueued call token → .enqueued i token (some call) ∈ s.log
  removed : ∀ i token, .removed i token ∈ s.log ↔ (s.phase i).token = some token ∧ (s.phase i).untracked = true
  calls : ∀ token tracked, s.calls.lookup token = some tracked ↔
    Tracked s.log token tracked ∧ (s.phase tracked.owner).unpublished = false
  sound : Machine.Justified Sound s.log

theorem inv_init : Inv ({} : State M C P) where
  writer i := by simp [Phase.guards]
  readers h := absurd rfl h
  issued e he := by cases he
  enqueued i token call he := by cases he
  token i token h := by cases h
  sent i call token h := by cases h
  removed i token := by simp [Phase.token]
  calls token tracked := by simp [Tracked]
  sound := trivial

/-! ### The lock -/

section Lock

variable {s : State M C P} {i : Nat} {old phase : Phase M C P}

/-- A granted guard is the only one. -/
theorem Inv.guards_grant (h : Inv s) (hwriter : s.writer = none) (hphase : phase.guards = true) (j : Nat) :
    (Function.update s.phase i phase j).guards = true ↔ some i = some j := by
  by_cases hj : j = i
  · subst hj; simp [hphase]
  · rw [Function.update_of_ne hj, h.writer j, hwriter, Option.some.injEq]
    simp [Ne.symm hj]

/-- A dropped guard leaves none. -/
theorem Inv.guards_drop (h : Inv s) (hi : s.phase i = old) (hold : old.guards = true) (hphase : phase.guards = false)
    (j : Nat) : (Function.update s.phase i phase j).guards = true ↔ none = some j := by
  subst hi
  by_cases hj : j = i
  · subst hj; simp [hphase]
  · rw [Function.update_of_ne hj, h.writer j, (h.writer i).mp hold, Option.some.injEq]
    simp [Ne.symm hj]

theorem Inv.guards_keep (h : Inv s) (hi : s.phase i = old) (hphase : phase.guards = old.guards) (j : Nat) :
    (Function.update s.phase i phase j).guards = true ↔ s.writer = some j := by
  subst hi
  by_cases hj : j = i
  · subst hj; rw [Function.update_self, hphase, h.writer j]
  · rw [Function.update_of_ne hj, h.writer j]

/-- While the lock is read no call is between its enqueue and its publication. -/
theorem Inv.published_of_readers (h : Inv s) (hreaders : s.readers ≠ []) (j : Nat) :
    (s.phase j).unpublished = false := by
  have hguards := h.writer j
  rw [h.readers hreaders] at hguards
  cases hphase : s.phase j with
  | enqueued call token => rw [hphase] at hguards; simp [Phase.guards] at hguards
  | _ => rfl

end Lock

/-! ### One lemma per kind of step -/

section Steps

variable {s : State M C P} {i : Nat} {old phase : Phase M C P} {token : ProgressToken}

/-- A phase change seen through what it leaves alone. -/
theorem update_phase {α : Type} (f : Phase M C P → α) (phase : Phase M C P) (hi : s.phase i = old)
    (hf : f phase = f old) (j : Nat) : f (Function.update s.phase i phase j) = f (s.phase j) := by
  subst hi
  by_cases hj : j = i
  · subst hj; rw [Function.update_self, hf]
  · rw [Function.update_of_ne hj]

/-- Tokens stay those of one request when an event shows only a fresh one. -/
theorem issued_cons {log : List (Event M C P)} {e : Event M C P}
    (h : ∀ a ∈ log, ∀ b ∈ log, ∀ token, a.issued = some token → b.issued = some token → a = b)
    (hfresh : ∀ token, e.issued = some token → Fresh log token) :
    ∀ a ∈ e :: log, ∀ b ∈ e :: log, ∀ token, a.issued = some token → b.issued = some token → a = b := by
  intro a ha b hb token hat hbt
  rcases List.mem_cons.mp ha with rfl | ha'
  · rcases List.mem_cons.mp hb with rfl | hb'
    · rfl
    · exact absurd hbt (hfresh token hat b hb')
  · rcases List.mem_cons.mp hb with rfl | hb'
    · exact absurd hat (hfresh token hbt a ha')
    · exact h a ha' b hb' token hat hbt

/-- A call that takes or drops the guard, with its request and its entry as they were. -/
theorem Inv.move (h : Inv s) {writer : Option Nat} (hi : s.phase i = old) (htoken : phase.token = old.token)
    (huntracked : phase.untracked = old.untracked) (hnew : phase.unpublished = false) (hold : old.unpublished = false)
    (hwriter : ∀ j, (Function.update s.phase i phase j).guards = true ↔ writer = some j)
    (hreaders : s.readers ≠ [] → writer = none) : Inv { s.setPhase i phase with writer } := by
  refine ⟨hwriter, hreaders, h.issued, fun j t call he => ?_, fun j t hj => ?_, fun j call t hj => ?_, fun j t => ?_,
    fun t tracked => ?_, h.sound⟩
  · exact (update_phase Phase.token phase hi htoken j).trans (h.enqueued j t call he)
  · exact h.token j t ((update_phase Phase.token phase hi htoken j).symm.trans hj)
  · by_cases hij : j = i
    · subst hij
      simp only [State.setPhase, Function.update_self] at hj
      rw [hj] at hnew
      cases hnew
    · exact h.sent j call t (by simpa only [State.setPhase, Function.update_of_ne hij] using hj)
  · show _ ↔ (Function.update s.phase i phase j).token = some t ∧ (Function.update s.phase i phase j).untracked = true
    rw [update_phase Phase.token phase hi htoken, update_phase Phase.untracked phase hi huntracked]
    exact h.removed j t
  · show _ ↔ _ ∧ (Function.update s.phase i phase tracked.owner).unpublished = false
    rw [update_phase Phase.unpublished phase hi (hnew.trans hold.symm)]
    exact h.calls t tracked

/-- An event that neither enqueues nor removes. -/
theorem Inv.log (h : Inv s) {e : Event M C P} (hfresh : ∀ token, e.issued = some token → Fresh s.log token)
    (henqueued : ∀ i token call, e ≠ .enqueued i token call) (hremoved : ∀ i token, e ≠ .removed i token)
    (hsound : Sound e s.log) : Inv (s.logged e) := by
  refine ⟨h.writer, h.readers, issued_cons h.issued hfresh, fun j t call he => ?_, fun j t hj => ?_,
    fun j call t hj => List.mem_cons_of_mem _ (h.sent j call t hj), fun j t => ?_, fun t tracked => ?_, hsound, h.sound⟩
  · rcases List.mem_cons.mp he with he | he
    · exact absurd he.symm (henqueued j t call)
    · exact h.enqueued j t call he
  · obtain ⟨call, hcall⟩ := h.token j t hj
    exact ⟨call, List.mem_cons_of_mem _ hcall⟩
  · show .removed j t ∈ e :: s.log ↔ (s.phase j).token = some t ∧ (s.phase j).untracked = true
    rw [← h.removed, List.mem_cons]
    simp [Ne.symm (hremoved j t)]
  · show s.calls.lookup t = some tracked ↔ Tracked (e :: s.log) t tracked ∧ (s.phase tracked.owner).unpublished = false
    rw [h.calls]
    simp [Tracked, Ne.symm (hremoved tracked.owner t), Ne.symm (henqueued tracked.owner t _)]

/-- A request goes out with a fresh token: that of a call with a caller's token, still to be
published, or that of a call that is not tracked. -/
theorem Inv.enqueue (h : Inv s) {call : Option (InFlightToolCall M C P)} (hfresh : Fresh s.log token)
    (hi : s.phase i = old) (hold : old.token = none) (htoken : phase.token = some token)
    (huntracked : phase.untracked = false) (hguards : phase.guards = old.guards)
    (hcall : (∃ c, call = some c ∧ phase = .enqueued c token) ∨ (call = none ∧ phase.unpublished = false)) :
    Inv ((s.setPhase i phase).logged (.enqueued i token call)) := by
  have hnone : ∀ t c, .enqueued i t c ∉ s.log := by
    intro t c he
    have := h.enqueued i t c he
    rw [hi, hold] at this
    cases this
  have hissued := issued_cons h.issued (e := .enqueued i token call) fun t ht => by cases ht; exact hfresh
  refine ⟨h.guards_keep hi hguards, h.readers, hissued, fun j t c he => ?_, fun j t hj => ?_, fun j c t hj => ?_,
    fun j t => ?_, fun t tracked => ?_, trivial, h.sound⟩
  · rcases List.mem_cons.mp he with he | he
    · cases he
      simpa [State.logged, State.setPhase] using htoken
    · have hj : j ≠ i := by rintro rfl; exact hnone t c he
      simpa [State.logged, State.setPhase, Function.update_of_ne hj] using h.enqueued j t c he
  · by_cases hij : j = i
    · subst hij
      simp only [State.logged, State.setPhase, Function.update_self, htoken, Option.some.injEq] at hj
      exact ⟨call, List.mem_cons.mpr (.inl (by rw [hj]))⟩
    · simp only [State.logged, State.setPhase, Function.update_of_ne hij] at hj
      obtain ⟨c, hc⟩ := h.token j t hj
      exact ⟨c, List.mem_cons_of_mem _ hc⟩
  · by_cases hij : j = i
    · subst hij
      simp only [State.logged, State.setPhase, Function.update_self] at hj
      obtain ⟨c', rfl, hphase⟩ | ⟨rfl, hphase⟩ := hcall
      · cases hphase.symm.trans hj
        exact List.mem_cons_self
      · rw [hj] at hphase
        cases hphase
    · simp only [State.logged, State.setPhase, Function.update_of_ne hij] at hj
      exact List.mem_cons_of_mem _ (h.sent j c t hj)
  · by_cases hij : j = i
    · subst hij
      have hremoved : .removed j t ∉ s.log := by
        intro he
        have := ((h.removed j t).mp he).1
        rw [hi, hold] at this
        cases this
      simp [State.logged, State.setPhase, hremoved, huntracked]
    · simp [State.logged, State.setPhase, Function.update_of_ne hij, h.removed]
  · show s.calls.lookup t = some tracked ↔ Tracked (.enqueued i token call :: s.log) t tracked ∧
      (Function.update s.phase i phase tracked.owner).unpublished = false
    rw [h.calls]
    by_cases hij : tracked.owner = i
    · -- nothing of call `i` was tracked, and it is still unpublished or has no caller's token
      obtain ⟨owner, tracked⟩ := tracked
      subst hij
      have hnot : ¬ Tracked s.log t ⟨owner, tracked⟩ := fun htracked => hnone t _ htracked.1
      simp only [hnot, false_and, false_iff, not_and]
      intro htracked
      rcases List.mem_cons.mp htracked.1 with he | he
      · obtain ⟨c, rfl, rfl⟩ | ⟨rfl, -⟩ := hcall
        · simp [Phase.unpublished]
        · cases he
      · exact absurd he (hnone t _)
    · simp [Tracked, hij]

/-- The token of an enqueued call is published. -/
theorem Inv.publish (h : Inv s) {call : InFlightToolCall M C P} (hi : s.phase i = .enqueued call token) :
    Inv { s.setPhase i (.published token) with calls := s.calls.insert token ⟨i, call⟩ } := by
  have hsent := h.sent i call token hi
  have htoken (j : Nat) : (Function.update s.phase i (.published token) j).token = (s.phase j).token :=
    update_phase Phase.token (.published token) hi rfl j
  have huntracked (j : Nat) : (Function.update s.phase i (.published token) j).untracked = (s.phase j).untracked :=
    update_phase Phase.untracked (.published token) hi rfl j
  refine ⟨h.guards_keep hi rfl, h.readers, h.issued, fun j t c he => ?_, fun j t hj => ?_,
    fun j c t hj => ?_, fun j t => ?_, fun t tracked => ?_, h.sound⟩
  · exact (htoken j).trans (h.enqueued j t c he)
  · exact h.token j t ((htoken j).symm.trans hj)
  · by_cases hij : j = i
    · subst hij
      simp [State.setPhase] at hj
    · exact h.sent j c t (by simpa only [State.setPhase, Function.update_of_ne hij] using hj)
  · show _ ↔ (Function.update s.phase i _ j).token = some t ∧ (Function.update s.phase i _ j).untracked = true
    rw [htoken, huntracked]
    exact h.removed j t
  · show (s.calls.insert token ⟨i, call⟩).lookup t = some tracked ↔ Tracked s.log t tracked ∧
      (Function.update s.phase i (.published token) tracked.owner).unpublished = false
    by_cases ht : t = token
    · subst ht
      rw [AList.lookup_insert]
      constructor
      · rintro ⟨⟩
        refine ⟨⟨hsent, fun hremoved => ?_⟩, by simp [Phase.unpublished]⟩
        have := ((h.removed i t).mp hremoved).2
        rw [hi] at this
        cases this
      · rintro ⟨htracked, -⟩
        -- the token was handed out once
        have := h.issued _ hsent _ htracked.1 t rfl rfl
        cases tracked
        cases this
        rfl
    · rw [AList.lookup_insert_ne ht, h.calls]
      by_cases hij : tracked.owner = i
      · have hnot : ¬ Tracked s.log t tracked := by
          intro htracked
          have := h.enqueued _ _ _ htracked.1
          rw [hij, hi] at this
          exact ht (Option.some.inj this).symm
        simp [hnot]
      · rw [Function.update_of_ne hij]

/-- A stopped call's token is taken from the map. -/
theorem Inv.remove (h : Inv s) (hi : s.phase i = .stopping token) :
    Inv ({ s.setPhase i (.removed token) with calls := s.calls.erase token }.logged (.removed i token)) := by
  have htoken (j : Nat) : (Function.update s.phase i (.removed token) j).token = (s.phase j).token :=
    update_phase Phase.token (.removed token) hi rfl j
  have hunpublished (j : Nat) : (Function.update s.phase i (.removed token) j).unpublished = (s.phase j).unpublished :=
    update_phase Phase.unpublished (.removed token) hi rfl j
  obtain ⟨sent, hsent⟩ := h.token i token (by rw [hi]; rfl)
  have hissued := issued_cons h.issued (e := .removed i token) fun t ht => by cases ht
  refine ⟨h.guards_keep hi rfl, h.readers, hissued, fun j t c he => ?_, fun j t hj => ?_,
    fun j c t hj => ?_, fun j t => ?_, fun t tracked => ?_, trivial, h.sound⟩
  · rcases List.mem_cons.mp he with he | he
    · cases he
    · exact (htoken j).trans (h.enqueued j t c he)
  · obtain ⟨c, hc⟩ := h.token j t ((htoken j).symm.trans hj)
    exact ⟨c, List.mem_cons_of_mem _ hc⟩
  · by_cases hij : j = i
    · subst hij
      simp [State.logged, State.setPhase] at hj
    · simp only [State.logged, State.setPhase, Function.update_of_ne hij] at hj
      exact List.mem_cons_of_mem _ (h.sent j c t hj)
  · show .removed j t ∈ .removed i token :: s.log ↔ (Function.update s.phase i (.removed token) j).token = some t ∧
      (Function.update s.phase i (.removed token) j).untracked = true
    by_cases hij : j = i
    · subst hij
      have hnot : .removed j t ∉ s.log := by
        intro he
        have := ((h.removed j t).mp he).2
        rw [hi] at this
        cases this
      simp [hnot, Phase.token, Phase.untracked, eq_comm]
    · simp [h.removed, hij]
  · show (s.calls.erase token).lookup t = some tracked ↔ Tracked (.removed i token :: s.log) t tracked ∧
      (Function.update s.phase i (.removed token) tracked.owner).unpublished = false
    rw [hunpublished]
    by_cases ht : t = token
    · subst ht
      rw [AList.lookup_erase]
      constructor
      · rintro ⟨⟩
      · rintro ⟨⟨he, hremoved⟩, -⟩
        rcases List.mem_cons.mp he with he | he
        · cases he
        · -- the token was handed out once, to the call that is stopped
          have := h.issued _ hsent _ he t rfl rfl
          cases this
          exact absurd List.mem_cons_self hremoved
    · rw [AList.lookup_erase_ne ht, h.calls]
      simp [Tracked, ht]

/-- A call is granted the write guard. -/
theorem Inv.lockWrite (h : Inv s) {t : State M C P} (hlock : s.lockWrite i phase = some t) (hi : s.phase i = old)
    (htoken : phase.token = old.token) (huntracked : phase.untracked = old.untracked)
    (hnew : phase.unpublished = false) (hold : old.unpublished = false) (hguards : phase.guards = true) : Inv t := by
  unfold State.lockWrite at hlock
  split at hlock
  next hfree =>
    cases hlock
    exact h.move hi htoken huntracked hnew hold (h.guards_grant hfree.1 hguards) fun hne => absurd hfree.2 hne
  next => cases hlock

/-- A call drops the write guard. -/
theorem Inv.dropGuard (h : Inv s) (hi : s.phase i = old) (htoken : phase.token = old.token)
    (huntracked : phase.untracked = old.untracked) (hnew : phase.unpublished = false)
    (hold : old.unpublished = false) (hheld : old.guards = true) (hguards : phase.guards = false) :
    Inv (s.dropGuard i phase) :=
  h.move hi htoken huntracked hnew hold (h.guards_drop hi hheld hguards) fun _ => rfl

/-- The read lock changes hands while no call writes. -/
theorem Inv.read (h : Inv s) {readers : List Nat} (hreaders : readers ≠ [] → s.writer = none) :
    Inv { s with readers } :=
  ⟨h.writer, hreaders, h.issued, h.enqueued, h.token, h.sent, h.removed, h.calls, h.sound⟩

/-- A lookup under the read lock finds the tracked call. -/
theorem Inv.look (h : Inv s) (hreaders : s.readers ≠ []) (token : ProgressToken) :
    Inv (s.logged (.looked token (progressCall s.calls token))) := by
  refine h.log (fun t ht => by cases ht) (by simp) (by simp) fun tracked => ?_
  rw [progressCall, h.calls, h.published_of_readers hreaders]
  simp

theorem Inv.step {t : State M C P} {a : Action M C P} (h : Inv s) (ht : step s a = some t) : Inv t := by
  cases a with
  | acquire i call =>
    simp only [Tracking.step] at ht
    split at ht
    next hi => exact h.lockWrite ht hi rfl rfl rfl rfl rfl
    next => cases ht
  | enqueue i token =>
    simp only [Tracking.step] at ht
    split at ht
    next call hi =>
      split at ht
      next hfresh =>
        cases ht
        exact h.enqueue hfresh hi rfl rfl rfl rfl (.inl ⟨call, rfl, rfl⟩)
      next => cases ht
    next => cases ht
  | refuse i token =>
    simp only [Tracking.step] at ht
    split at ht
    next call hi =>
      split at ht
      next hfresh =>
        cases ht
        have hdropped : Inv (s.dropGuard i .failed) :=
          h.dropGuard hi rfl rfl rfl rfl rfl rfl
        exact hdropped.log (fun t ht => by cases ht; exact hfresh) (by simp) (by simp) trivial
      next => cases ht
    next => cases ht
  | publish i =>
    simp only [Tracking.step] at ht
    split at ht
    next call token hi => cases ht; exact h.publish hi
    next => cases ht
  | release i =>
    simp only [Tracking.step] at ht
    split at ht
    next token hi =>
      cases ht
      exact h.dropGuard hi rfl rfl rfl rfl rfl rfl
    next => cases ht
  | send i token =>
    simp only [Tracking.step] at ht
    split at ht
    next hi =>
      split at ht
      next hfresh =>
        cases ht
        exact h.enqueue hfresh hi rfl rfl rfl rfl (.inr ⟨rfl, rfl⟩)
      next => cases ht
    next => cases ht
  | sendRefused i token =>
    simp only [Tracking.step] at ht
    split at ht
    next hi =>
      split at ht
      next hfresh =>
        cases ht
        have hfailed : Inv (s.setPhase i .failed) :=
          h.move hi rfl rfl rfl rfl (h.guards_keep hi rfl) h.readers
        exact hfailed.log (fun t ht => by cases ht; exact hfresh) (by simp) (by simp) trivial
      next => cases ht
    next => cases ht
  | acquireStop i =>
    simp only [Tracking.step] at ht
    split at ht
    next token hi => exact h.lockWrite ht hi rfl rfl rfl rfl rfl
    next => cases ht
  | remove i =>
    simp only [Tracking.step] at ht
    split at ht
    next token hi => cases ht; exact h.remove hi
    next => cases ht
  | releaseStop i =>
    simp only [Tracking.step] at ht
    split at ht
    next token hi =>
      cases ht
      exact h.dropGuard hi rfl rfl rfl rfl rfl rfl
    next => cases ht
  | readLock j =>
    simp only [Tracking.step] at ht
    split at ht
    next hfree => cases ht; exact h.read fun _ => hfree.1
    next => cases ht
  | lookup j token =>
    simp only [Tracking.step] at ht
    split at ht
    next hj => cases ht; exact h.look (List.ne_nil_of_mem hj) token
    next => cases ht
  | readUnlock j =>
    simp only [Tracking.step] at ht
    split at ht
    next hj => cases ht; exact h.read fun _ => h.readers (List.ne_nil_of_mem hj)
    next => cases ht

end Steps

theorem inv_run {actions : List (Action M C P)} {s : State M C P}
    (h : Machine.run step {} actions = some s) : Inv s :=
  Machine.run_invariant Inv.step inv_init h

/-! ## What lookups find -/

/-- In every interleaving: a lookup of the token of a call started with a caller's token finds that
call's own entry from the enqueue on until the call is stopped; a token of a call without a caller's
token, of a refused one or of a stopped one is not found; and once every tracked call is stopped the
map is empty. -/
theorem lookup_finds_own_call (actions : List (Action M C P)) (s : State M C P)
    (h : Machine.run step {} actions = some s) :
    (∀ newer token found older, s.log = newer ++ .looked token found :: older →
      (∀ i call, .enqueued i token (some call) ∈ older → .removed i token ∉ older → found = some ⟨i, call⟩) ∧
      (∀ i, .enqueued i token none ∈ s.log ∨ .refused i token ∈ s.log ∨ .removed i token ∈ older → found = none)) ∧
    ((∀ i token call, .enqueued i token (some call) ∈ s.log → .removed i token ∈ s.log) → s.calls = ∅) := by
  have hinv := inv_run h
  refine ⟨fun newer token found older hlog => ?_, fun hstopped => ?_⟩
  · have hsound : Sound (.looked token found) older := by
      have := hinv.sound
      rw [hlog] at this
      exact this.sound
    have hold : ∀ e ∈ older, e ∈ s.log := fun e he => by rw [hlog]; simp [he]
    refine ⟨fun i call henqueued hremoved => (hsound ⟨i, call⟩).mpr ⟨henqueued, hremoved⟩, fun i hi => ?_⟩
    cases hfound : found with
    | none => rfl
    | some tracked =>
      obtain ⟨henqueued, hremoved⟩ := (hsound tracked).mp hfound
      rcases hi with hi | hi | hi
      · cases hinv.issued _ (hold _ henqueued) _ hi token rfl rfl
      · cases hinv.issued _ (hold _ henqueued) _ hi token rfl rfl
      · obtain ⟨call, hcall⟩ := hinv.token i token ((hinv.removed i token).mp (hold _ hi)).1
        cases hinv.issued _ (hold _ henqueued) _ hcall token rfl rfl
        exact absurd hi hremoved
  · refine AList.ext (List.eq_nil_iff_forall_not_mem.mpr ?_)
    rintro ⟨token, tracked⟩ hmem
    have hlookup : s.calls.lookup token = some tracked := AList.mem_lookup_iff.mpr hmem
    obtain ⟨⟨henqueued, hremoved⟩, -⟩ := (hinv.calls token tracked).mp hlookup
    exact hremoved (hstopped _ _ _ henqueued)

/-- A call for the caller's token `"p"`. -/
def sampleCall : InFlightToolCall Unit Unit Unit := ⟨⟨.string "p"⟩, none, ()⟩

/-- A tracked call and one without a caller's token, each looked up once while it runs. -/
def sampleActions : List (Action Unit Unit Unit) :=
  [.acquire 0 sampleCall, .send 1 ⟨.number 1⟩, .enqueue 0 ⟨.number 2⟩, .publish 0, .release 0, .readLock 0, .readLock 1,
    .lookup 1 ⟨.number 1⟩, .lookup 0 ⟨.number 2⟩, .readUnlock 0, .readUnlock 1, .acquireStop 0, .remove 0, .releaseStop 0]

theorem lookup_finds_own_call_sampleActions :
    ∃ s, Machine.run step {} sampleActions = some s ∧
      (∃ newer older, s.log = newer ++ .looked ⟨.number 2⟩ (some ⟨0, sampleCall⟩) :: older) ∧ s.calls = ∅ := by
  refine ⟨_, rfl, ⟨[.removed 0 ⟨.number 2⟩], _, rfl⟩, (lookup_finds_own_call sampleActions _ rfl).2 ?_⟩
  intro i token call he
  simp [State.logged, State.setPhase, State.dropGuard] at he ⊢
  simp [he]

end DataPlane.Gateway.Tracking
