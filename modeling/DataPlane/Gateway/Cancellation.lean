/-
A cancelled tool call does not wait for its backend, and the lock on the tracked calls does not stand in its way. From
every reachable state of any number of calls, one that was cancelled, has its reply or failed to start is answered
within a bounded number of steps of calls and lookups already under way: none of them needs a further reply, a further
cancellation or a new call.
-/
import DataPlane.Gateway.ToolCalls

namespace DataPlane.Gateway.ToolCalls

open DataPlane.Json DataPlane.Cpex

variable {M C P : Type}

/-! ## Steps that are always taken -/

/-- The steps of calls and lookups that have begun, where the transport still takes a request of the calls
`accepted`. -/
inductive Goes (accepted : Nat → Bool) : Tracking.Action M C P → Prop
  | enqueue {i} (token) : accepted i = true → Goes accepted (.enqueue i token)
  | refuse {i} (token) : accepted i = false → Goes accepted (.refuse i token)
  | publish (i) : Goes accepted (.publish i)
  | release (i) : Goes accepted (.release i)
  | acquireStop (i) : Goes accepted (.acquireStop i)
  | remove (i) : Goes accepted (.remove i)
  | releaseStop (i) : Goes accepted (.releaseStop i)
  | readUnlock (j) : Goes accepted (.readUnlock j)

/-- The steps of calls under way, where a start that fails does so with `error`. -/
inductive Own (accepted : Nat → Bool) (error : ServiceError) : Label M C P → Prop
  | track {action} : Goes accepted action → Own accepted error (.track action)
  | relay (i) : Own accepted error (.relay i)
  | finish (i) : Own accepted error (.finish i)
  | failStart (i) : Own accepted error (.failStart i error)

/-- How many steps the holder of the write guard is away from dropping it. -/
def guardRank : Tracking.Phase M C P → Nat
  | .sending _ => 3
  | .enqueued _ _ | .stopping _ => 2
  | .published _ | .removed _ => 1
  | .idle | .started _ | .failed | .stopped _ => 0

/-- How many steps the lock is away from being free. -/
def lockRank (s : Tracking.State M C P) : Nat :=
  s.readers.length + s.writer.elim 0 fun j => guardRank (s.phase j)

/-- How far a call is from its answer; a step that takes the write guard pays for the steps to its drop. -/
def callRank : Task → Tracking.Phase M C P → Nat
  | .returned, _ => 0
  | _, .sending _ => 10
  | _, .enqueued _ _ => 9
  | _, .published _ => 8
  | .pending, .started _ => 7
  | _, .started _ => 6
  | _, .stopping _ => 3
  | _, .removed _ => 2
  | _, .stopped _ | _, .failed => 1
  | _, .idle => 0

def rank (i : Nat) (s : State M C P) : Nat := callRank (s.task i) (s.tracking.phase i) + lockRank s.tracking

theorem rank_le (i : Nat) (s : State M C P) : rank i s ≤ 13 + s.tracking.readers.length := by
  have hcall : callRank (s.task i) (s.tracking.phase i) ≤ 10 := by
    unfold callRank
    split <;> decide
  have hguard : s.tracking.writer.elim 0 (fun j => guardRank (s.tracking.phase j)) ≤ 3 := by
    cases s.tracking.writer with
    | none => exact Nat.zero_le _
    | some j =>
      rw [Option.elim_some]
      unfold guardRank
      split <;> decide
  unfold rank lockRank
  omega

/-! ## The lock becomes free -/

instance : Infinite ProgressToken :=
  Infinite.of_injective (fun n : Nat => ⟨.number n⟩) fun m n h => by simpa using h

/-- The counter of `rmcp` has a next value. -/
theorem exists_fresh (log : List (Tracking.Event M C P)) : ∃ token, Tracking.Fresh log token := by
  obtain ⟨token, htoken⟩ := Infinite.exists_notMem_finset (log.filterMap Tracking.Event.issued).toFinset
  refine ⟨token, fun e he hissued => htoken ?_⟩
  rw [List.mem_toFinset]
  exact List.mem_filterMap.mpr ⟨e, he, hissued⟩

section Lock

variable {s t : Tracking.State M C P} {i j : Nat} {accepted : Nat → Bool} {action : Tracking.Action M C P}
  {old phase : Tracking.Phase M C P}

/-- The step of a guard's holder brings it nearer the drop, and the call no further from its answer. -/
theorem Next.nears (h : Next action j old phase) (hguards : old.guards = true) :
    phase ≠ .idle ∧ guardRank phase < guardRank old ∧ ∀ task, callRank task phase ≤ callRank task old := by
  cases h with
  | acquire _ _ | send _ _ | sendRefused _ _ | acquireStop _ _ => cases hguards
  | _ => refine ⟨by simp, by simp [guardRank], fun task => ?_⟩; cases task <;> simp [callRank]

/-- A step which no call has to be ready for; it brings the lock nearer to being free and no call further from its
answer. -/
def Frees (accepted : Nat → Bool) (s : Tracking.State M C P) : Prop :=
  ∃ action t, Goes accepted action ∧ (∀ calls : State M C P, mayTrack calls action = true) ∧
    Tracking.step s action = some t ∧ lockRank t < lockRank s ∧
    ∀ i, (s.phase i ≠ .idle → t.phase i ≠ .idle) ∧ (s.phase i = .failed → t.phase i = .failed) ∧
      ∀ task, callRank task (t.phase i) ≤ callRank task (s.phase i)

/-- A step of the guard's holder. -/
theorem Frees.of_writer (hi : Tracking.Inv s) (hwriter : s.writer = some j) (hgoes : Goes accepted action)
    (hmay : ∀ calls : State M C P, mayTrack calls action = true) (hnext : Next action j (s.phase j) phase)
    (hstep : Tracking.step s action = some t) (hphase : t.phase = Function.update s.phase j phase)
    (hreaders : t.readers = s.readers) (ht : t.writer = some j ∨ t.writer = none) : Frees accepted s := by
  have hguards := (hi.writer j).mpr hwriter
  obtain ⟨hidle, hguard, hcall⟩ := hnext.nears hguards
  refine ⟨action, t, hgoes, hmay, hstep, ?_, fun i => ?_⟩
  · unfold lockRank
    rw [hwriter, hreaders]
    rcases ht with ht | ht
    · rw [ht, hphase, Option.elim_some, Option.elim_some, Function.update_self]
      omega
    · rw [ht, Option.elim_some, Option.elim_none]
      omega
  · rw [hphase]
    by_cases hij : i = j
    · -- the holder itself has not failed, since it holds the guard
      subst hij
      rw [Function.update_self]
      refine ⟨fun _ => hidle, fun hfailed => ?_, hcall⟩
      rw [hfailed] at hguards
      cases hguards
    · rw [Function.update_of_ne hij]
      exact ⟨id, id, fun task => le_rfl⟩

/-- Whoever holds the write guard goes on, whether or not the transport takes its request. -/
theorem frees_writer (hi : Tracking.Inv s) (hwriter : s.writer = some j) : Frees accepted s := by
  have hguards := (hi.writer j).mpr hwriter
  cases hphase : s.phase j with
  | sending call =>
    -- only here does the outcome depend on the transport
    obtain ⟨token, hfresh⟩ := exists_fresh s.log
    cases haccepted : accepted j with
    | true =>
      have hstep : Tracking.step s (.enqueue j token) =
          some ((s.setPhase j (.enqueued call token)).logged (.enqueued j token (some call))) := by
        simp only [Tracking.step, hphase, if_pos hfresh]
      exact .of_writer hi hwriter (.enqueue token haccepted) (fun _ => rfl) (hphase ▸ .enqueue j call token) hstep rfl
        rfl (.inl hwriter)
    | false =>
      have hstep : Tracking.step s (.refuse j token) = some ((s.dropGuard j .failed).logged (.refused j token)) := by
        simp only [Tracking.step, hphase, if_pos hfresh]
      exact .of_writer hi hwriter (.refuse token haccepted) (fun _ => rfl) (hphase ▸ .refuse j call token) hstep rfl rfl
        (.inr rfl)
  | enqueued call token =>
    have hstep : Tracking.step s (.publish j) =
        some { s.setPhase j (.published token) with calls := s.calls.insert token ⟨j, call⟩ } := by
      simp only [Tracking.step, hphase]
    exact .of_writer hi hwriter (.publish j) (fun _ => rfl) (hphase ▸ .publish j call token) hstep rfl rfl
      (.inl hwriter)
  | published token =>
    have hstep : Tracking.step s (.release j) = some (s.dropGuard j (.started token)) := by
      simp only [Tracking.step, hphase]
    exact .of_writer hi hwriter (.release j) (fun _ => rfl) (hphase ▸ .release j token) hstep rfl rfl (.inr rfl)
  | stopping token =>
    have hstep : Tracking.step s (.remove j) =
        some ({ s.setPhase j (.removed token) with calls := s.calls.erase token }.logged (.removed j token)) := by
      simp only [Tracking.step, hphase]
    exact .of_writer hi hwriter (.remove j) (fun _ => rfl) (hphase ▸ .remove j token) hstep rfl rfl (.inl hwriter)
  | removed token =>
    have hstep : Tracking.step s (.releaseStop j) = some (s.dropGuard j (.stopped token)) := by
      simp only [Tracking.step, hphase]
    exact .of_writer hi hwriter (.releaseStop j) (fun _ => rfl) (hphase ▸ .releaseStop j token) hstep rfl rfl (.inr rfl)
  | _ =>
    rw [hphase] at hguards
    cases hguards

/-- So does every lookup. -/
theorem frees_reader {readers : List Nat} (hreaders : s.readers = j :: readers) : Frees accepted s := by
  have hmem : j ∈ s.readers := hreaders ▸ List.mem_cons_self ..
  refine ⟨.readUnlock j, { s with readers := s.readers.erase j }, .readUnlock j, fun _ => rfl, ?_, ?_, fun i => ?_⟩
  · simp only [Tracking.step, if_pos hmem]
  · have hpos := List.length_pos_of_mem hmem
    have hlen := List.length_erase_of_mem hmem
    simp only [lockRank]
    omega
  · exact ⟨id, id, fun task => le_rfl⟩

end Lock

/-! ## A call that is due -/

/-- The call has begun, and waits for no reply: its client cancelled it, it has the reply, or the start failed. -/
def Due (s : State M C P) (i : Nat) : Prop :=
  s.tracking.phase i ≠ .idle ∧ (s.cancelled i = true ∨ s.task i ≠ .pending ∨ s.tracking.phase i = .failed)

section Progress

variable {post : Nat → CallToolResult → Except ErrorData CallToolResult} {accepted : Nat → Bool} {error : ServiceError}
  {s : State M C P} {i : Nat}

/-- A step of calls under way that brings one nearer its answer. -/
def Nearer (post : Nat → CallToolResult → Except ErrorData CallToolResult) (accepted : Nat → Bool)
    (error : ServiceError) (i : Nat) (s : State M C P) : Prop :=
  ∃ label t, Own accepted error label ∧ step post s label = some t ∧ Due t i ∧ rank i t < rank i s

/-- While the lock is held. -/
theorem nearer_frees (hdue : Due s i) (h : Frees accepted s.tracking) : Nearer post accepted error i s := by
  obtain ⟨action, tracking, hgoes, hmay, hstep, hlock, hphase⟩ := h
  obtain ⟨hidle, hfailed, hcall⟩ := hphase i
  refine ⟨.track action, { s with tracking }, .track hgoes, ?_, ⟨hidle hdue.1, ?_⟩, ?_⟩
  · simp only [step, hmay s, if_true, hstep]
  · exact hdue.2.imp_right fun h => h.imp_right hfailed
  · have hrank := hcall (s.task i)
    simp only [rank]
    omega

/-- A move of the call itself. -/
theorem nearer_move {label : Label M C P} {task : Task} {events : List Event} (hdue : Due s i)
    (hown : Own accepted error label) (hstep : step post s label = some (s.move i task events)) (htask : task ≠ .pending)
    (hlt : callRank task (s.tracking.phase i) < callRank (s.task i) (s.tracking.phase i)) :
    Nearer post accepted error i s := by
  have hmoved : (s.move i task events).task i = task := Function.update_self ..
  refine ⟨label, _, hown, hstep, ⟨hdue.1, .inr (.inl ?_)⟩, ?_⟩
  · rw [hmoved]
    exact htask
  · simp only [rank, hmoved]
    simp only [State.move]
    omega

/-- The call takes the free lock to stop its tracking. -/
theorem nearer_stop {token : ProgressToken} {result : Except CallError CallToolResult}
    (hphase : s.tracking.phase i = .started token) (htask : s.task i = .ended result)
    (hwriter : s.tracking.writer = none) (hreaders : s.tracking.readers = []) : Nearer post accepted error i s := by
  refine ⟨.track (.acquireStop i),
    { s with tracking := { s.tracking.setPhase i (.stopping token) with writer := some i } }, .track (.acquireStop i),
    ?_, ⟨?_, .inr (.inl ?_)⟩, ?_⟩
  · simp only [step, mayTrack, htask, Tracking.step, hphase, Tracking.State.lockWrite, hwriter, hreaders, and_self,
      if_true]
  · simp [Tracking.State.setPhase]
  · simp [htask]
  · simp [rank, lockRank, htask, hphase, hwriter, hreaders, Tracking.State.setPhase, callRank, guardRank]

/-- A call without its reply relays the cancellation, or reports the start that failed. -/
theorem nearer_pending (hdue : Due s i) (htask : s.task i = .pending) (hguards : (s.tracking.phase i).guards = false)
    (hfits : Fits (s.task i) (s.tracking.phase i)) : Nearer post accepted error i s := by
  cases hphase : s.tracking.phase i with
  | idle => exact absurd hphase hdue.1
  | started token =>
    have hcancelled : s.cancelled i = true := by
      rcases hdue.2 with h | h | h
      · exact h
      · exact absurd htask h
      · rw [hphase] at h
        cases h
    have hstep : step post s (.relay i) = some
        (s.move i (.ended (.error (.cancelled (some cancelReason)))) [.cancelRelayed i token cancelReason]) := by
      simp only [step, hphase, htask, hcancelled, if_true]
    refine nearer_move hdue (.relay i) hstep (by simp) ?_
    rw [hphase, htask]
    exact Nat.lt_succ_self 6
  | failed =>
    have hstep : step post s (.failStart i error) =
        some (s.move i .returned [.returned i (.error (backendForwardError error))]) := by
      simp only [step, hphase, htask]
    refine nearer_move hdue (.failStart i) hstep (by simp) ?_
    rw [hphase, htask]
    exact Nat.zero_lt_one
  | sending | enqueued | published =>
    rw [hphase] at hguards
    cases hguards
  | stopping | removed | stopped =>
    rw [hphase, htask] at hfits
    exact hfits.elim

/-- A call with its reply stops its tracking, or answers. -/
theorem nearer_ended {result : Except CallError CallToolResult} (hdue : Due s i) (htask : s.task i = .ended result)
    (hwriter : s.tracking.writer = none) (hreaders : s.tracking.readers = [])
    (hguards : (s.tracking.phase i).guards = false) (hfits : Fits (s.task i) (s.tracking.phase i)) :
    Nearer post accepted error i s := by
  cases hphase : s.tracking.phase i with
  | started token => exact nearer_stop hphase htask hwriter hreaders
  | stopped token =>
    have hlt : callRank .returned (s.tracking.phase i) < callRank (s.task i) (s.tracking.phase i) := by
      rw [hphase, htask]
      exact Nat.zero_lt_one
    cases result with
    | error failure =>
      have hstep : step post s (.finish i) = some (s.move i .returned [.returned i (.error failure.forward)]) := by
        simp only [step, hphase, htask]
      exact nearer_move hdue (.finish i) hstep (by simp) hlt
    | ok response =>
      have hstep : step post s (.finish i) =
          some (s.move i .returned [.returned i (post i response), .hooked i response]) := by
        simp only [step, hphase, htask]
      exact nearer_move hdue (.finish i) hstep (by simp) hlt
  | stopping | removed =>
    rw [hphase] at hguards
    cases hguards
  | _ =>
    rw [hphase, htask] at hfits
    exact hfits.elim

/-- Wherever a call that is due stands, it has been answered or a step of calls under way brings it nearer. -/
theorem nearer (hi : Inv post s) (hdue : Due s i) : s.task i = .returned ∨ Nearer post accepted error i s := by
  rcases hwriter : s.tracking.writer with _ | j
  swap
  · exact .inr (nearer_frees hdue (frees_writer hi.tracking hwriter))
  rcases hreaders : s.tracking.readers with _ | ⟨j, readers⟩
  swap
  · exact .inr (nearer_frees hdue (frees_reader hreaders))
  -- the lock is free, so the call holds no guard
  have hguards : (s.tracking.phase i).guards = false := by
    rw [← Bool.not_eq_true, hi.tracking.writer i, hwriter]
    simp
  cases htask : s.task i with
  | pending => exact .inr (nearer_pending hdue htask hguards (hi.fits i))
  | ended result => exact .inr (nearer_ended hdue htask hwriter hreaders hguards (hi.fits i))
  | returned => exact .inl rfl

end Progress

/-- From every state of every interleaving, whether or not the transport takes the requests still to be sent: a call
that was cancelled, has its reply or failed to start is answered by at most `13` steps, and one for each lookup that
holds the lock, of calls and lookups under way; no backend has to reply and no client to cancel. -/
theorem dueCall_answered {post : Nat → CallToolResult → Except ErrorData CallToolResult} {labels : List (Label M C P)}
    {s : State M C P} (h : Machine.run (step post) {} labels = some s) (accepted : Nat → Bool) (error : ServiceError)
    {i : Nat} (hbegun : s.tracking.phase i ≠ .idle)
    (hdue : s.cancelled i = true ∨ s.task i ≠ .pending ∨ s.tracking.phase i = .failed) :
    ∃ further t result, Machine.run (step post) s further = some t ∧ (∀ label ∈ further, Own accepted error label) ∧
      further.length ≤ 13 + s.tracking.readers.length ∧ .returned i result ∈ t.log := by
  obtain ⟨further, t, hrun, hown, hlen, ⟨hinv, -⟩, hreturned⟩ :=
    Machine.run_progress (fun s => Inv post s ∧ Due s i) (fun s => s.task i = .returned) (Own accepted error) (rank i)
      (fun ⟨hinv, hdue⟩ => (nearer hinv hdue).imp_right fun ⟨label, t, hown, hstep, hdue, hlt⟩ =>
        ⟨label, t, hown, hstep, ⟨inv_step hinv hstep, hdue⟩, hlt⟩) ⟨inv_run h, hbegun, hdue⟩
  have htask := hinv.task i
  rw [hreturned] at htask
  obtain ⟨result, hresult⟩ := htask
  exact ⟨further, t, result, hrun, hown, hlen.trans (rank_le i s), hresult⟩

/-- A call cancelled while another holds the write guard to send its request. -/
theorem dueCall_answered_held : ∃ (labels : List (Label Unit Unit Unit)) (s : State Unit Unit Unit),
    Machine.run (step fun _ response => .ok response) {} labels = some s ∧ s.tracking.writer = some 1 ∧
    ∃ further t result, Machine.run (step fun _ response => .ok response) s further = some t ∧
      (∀ label ∈ further, Own (fun _ => false) (.other "closed") label) ∧ further.length ≤ 13 ∧
      .returned 0 result ∈ t.log := by
  let labels : List (Label Unit Unit Unit) :=
    [.track (.send 0 ⟨.number 1⟩), .track (.acquire 1 ⟨⟨.string "abc"⟩, none, ()⟩), .cancel 0]
  obtain ⟨s, hs⟩ :=
    Option.isSome_iff_exists.mp (rfl : (Machine.run (step fun _ response => .ok response) {} labels).isSome)
  have hwriter : s.tracking.writer = some 1 := by cases hs; rfl
  have hreaders : s.tracking.readers = [] := by cases hs; rfl
  have hcancelled : s.cancelled 0 = true := by cases hs; rfl
  have hbegun : s.tracking.phase 0 ≠ .idle := by
    cases hs
    simp [Tracking.State.setPhase, Tracking.State.logged]
  obtain ⟨further, t, result, hrun, hown, hlen, hresult⟩ := dueCall_answered hs _ _ hbegun (.inl hcancelled)
  rw [hreaders] at hlen
  exact ⟨labels, s, hs, hwriter, further, t, result, hrun, hown, hlen, hresult⟩

end DataPlane.Gateway.ToolCalls
