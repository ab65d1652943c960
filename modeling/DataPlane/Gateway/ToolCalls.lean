/-
Tool calls from their start at the backend to their answer to the client, any number of them interleaved with the
backend's replies, the clients' cancellations and the progress lookups. Each call is answered once. A cancellation is
relayed to the backend only when the client asked for it and no reply was taken, and then no reply is. Before the
client is answered the call is no longer tracked, however it ended.
-/
import DataPlane.Gateway.Routing
import DataPlane.Gateway.Tracking

namespace DataPlane.Gateway.ToolCalls

open DataPlane.Json DataPlane.Cpex

variable {M C P : Type}

/-! ## One call -/

/-- `rmcp::service::ServiceError`, with the errors that `call_backend_tool` raises itself. -/
inductive CallError where
  | service (error : ServiceError)
  | transportClosed
  | unexpectedResponse
  | cancelled (reason : Option String)

/-- `backend_forward_error`. -/
def CallError.forward : CallError → ErrorData
  | service error => backendForwardError error
  | transportClosed | unexpectedResponse | cancelled _ =>
    .internalError "Routing problem... got no responses from backends"

/-- What the receiver of a request handle yields: nothing when its sender is gone, the service's error, or a result,
which may be of another kind of request. -/
inductive Reply where
  | closed
  | error (error : ServiceError)
  | callToolResult (result : CallToolResult)
  | other

/-- `call_backend_tool` once the receiver has won. -/
def callBackendTool : Reply → Except CallError CallToolResult
  | .closed => .error .transportClosed
  | .error error => .error (.service error)
  | .callToolResult result => .ok result
  | .other => .error .unexpectedResponse

/-- The reason a backend is given. -/
def cancelReason : String := "tool call cancelled by the downstream client"

/-! ## The machine -/

/-- A call is under way, has the result of `call_backend_tool`, or has answered its client. -/
inductive Task where
  | pending
  | ended (result : Except CallError CallToolResult)
  | returned

/-- `cancelRelayed` is `handle.cancel`, whose failure is only logged. -/
inductive Event where
  | cancelRequested (i : Nat)
  | cancelRelayed (i : Nat) (token : ProgressToken) (reason : String)
  | answered (i : Nat) (reply : Reply)
  | hooked (i : Nat) (response : CallToolResult)
  | returned (i : Nat) (result : Except ErrorData CallToolResult)

structure State (M C P : Type) where
  tracking : Tracking.State M C P := {}
  cancelled : Nat → Bool := fun _ => false
  task : Nat → Task := fun _ => .pending
  log : List Event := []

/-- `answer` and `relay` are the branches of the select in `call_backend_tool`; `finish` comes after
`stop_tracking_tool_call` and the close of the connection, `failStart` after a `start_tool_call` that failed. -/
inductive Label (M C P : Type) where
  | track (action : Tracking.Action M C P)
  | cancel (i : Nat)
  | answer (i : Nat) (reply : Reply)
  | relay (i : Nat)
  | finish (i : Nat)
  | failStart (i : Nat) (error : ServiceError)

def State.move (s : State M C P) (i : Nat) (task : Task) (events : List Event) : State M C P :=
  { s with task := Function.update s.task i task, log := events ++ s.log }

/-- Tracking is stopped once `call_backend_tool` has returned. -/
def mayTrack (s : State M C P) : Tracking.Action M C P → Bool
  | .acquireStop i => match s.task i with
    | .ended _ => true
    | _ => false
  | _ => true

/-- `post` is the post hook of each call, where it has one. -/
def step (post : Nat → CallToolResult → Except ErrorData CallToolResult) (s : State M C P) :
    Label M C P → Option (State M C P)
  | .track action =>
    if mayTrack s action then
      match Tracking.step s.tracking action with
      | some tracking => some { s with tracking }
      | none => none
    else none
  | .cancel i => some { s with cancelled := Function.update s.cancelled i true, log := .cancelRequested i :: s.log }
  | .answer i reply => match s.tracking.phase i, s.task i with
    | .started _, .pending => some (s.move i (.ended (callBackendTool reply)) [.answered i reply])
    | _, _ => none
  | .relay i => match s.tracking.phase i, s.task i with
    | .started token, .pending =>
      if s.cancelled i then
        some (s.move i (.ended (.error (.cancelled (some cancelReason)))) [.cancelRelayed i token cancelReason])
      else none
    | _, _ => none
  | .finish i => match s.tracking.phase i, s.task i with
    | .stopped _, .ended (.error error) => some (s.move i .returned [.returned i (.error error.forward)])
    | .stopped _, .ended (.ok response) =>
      some (s.move i .returned [.returned i (post i response), .hooked i response])
    | _, _ => none
  | .failStart i error => match s.tracking.phase i, s.task i with
    | .failed, .pending => some (s.move i .returned [.returned i (.error (backendForwardError error))])
    | _, _ => none

/-! ## Steps of the tracking -/

/-- The step an action of the tracking makes a call take. -/
inductive Next : Tracking.Action M C P → Nat → Tracking.Phase M C P → Tracking.Phase M C P → Prop where
  | acquire (i call) : Next (.acquire i call) i .idle (.sending call)
  | enqueue (i call token) : Next (.enqueue i token) i (.sending call) (.enqueued call token)
  | refuse (i call token) : Next (.refuse i token) i (.sending call) .failed
  | publish (i call token) : Next (.publish i) i (.enqueued call token) (.published token)
  | release (i token) : Next (.release i) i (.published token) (.started token)
  | send (i token) : Next (.send i token) i .idle (.started token)
  | sendRefused (i token) : Next (.sendRefused i token) i .idle .failed
  | acquireStop (i token) : Next (.acquireStop i) i (.started token) (.stopping token)
  | remove (i token) : Next (.remove i) i (.stopping token) (.removed token)
  | releaseStop (i token) : Next (.releaseStop i) i (.removed token) (.stopped token)

theorem lockWrite_phase {s t : Tracking.State M C P} {i : Nat} {phase : Tracking.Phase M C P}
    (h : s.lockWrite i phase = some t) : t.phase = Function.update s.phase i phase := by
  unfold Tracking.State.lockWrite at h
  split at h
  · cases h
    rfl
  · cases h

/-- An action leaves all calls where they are, or makes one take its next step. -/
theorem phase_step {s t : Tracking.State M C P} {action : Tracking.Action M C P} (h : Tracking.step s action = some t) :
    t.phase = s.phase ∨
      ∃ i phase, Next action i (s.phase i) phase ∧ t.phase = Function.update s.phase i phase := by
  cases action with
  | acquire i call =>
    simp only [Tracking.step] at h
    split at h
    · rename_i hphase
      exact .inr ⟨i, _, hphase ▸ .acquire i call, lockWrite_phase h⟩
    · cases h
  | enqueue i token =>
    simp only [Tracking.step] at h
    split at h
    · rename_i call hphase
      split at h
      · cases h
        exact .inr ⟨i, _, hphase ▸ .enqueue i call token, rfl⟩
      · cases h
    · cases h
  | refuse i token =>
    simp only [Tracking.step] at h
    split at h
    · rename_i call hphase
      split at h
      · cases h
        exact .inr ⟨i, _, hphase ▸ .refuse i call token, rfl⟩
      · cases h
    · cases h
  | publish i =>
    simp only [Tracking.step] at h
    split at h
    · rename_i call token hphase
      cases h
      exact .inr ⟨i, _, hphase ▸ .publish i call token, rfl⟩
    · cases h
  | release i =>
    simp only [Tracking.step] at h
    split at h
    · rename_i token hphase
      cases h
      exact .inr ⟨i, _, hphase ▸ .release i token, rfl⟩
    · cases h
  | send i token =>
    simp only [Tracking.step] at h
    split at h
    · rename_i hphase
      split at h
      · cases h
        exact .inr ⟨i, _, hphase ▸ .send i token, rfl⟩
      · cases h
    · cases h
  | sendRefused i token =>
    simp only [Tracking.step] at h
    split at h
    · rename_i hphase
      split at h
      · cases h
        exact .inr ⟨i, _, hphase ▸ .sendRefused i token, rfl⟩
      · cases h
    · cases h
  | acquireStop i =>
    simp only [Tracking.step] at h
    split at h
    · rename_i token hphase
      exact .inr ⟨i, _, hphase ▸ .acquireStop i token, lockWrite_phase h⟩
    · cases h
  | remove i =>
    simp only [Tracking.step] at h
    split at h
    · rename_i token hphase
      cases h
      exact .inr ⟨i, _, hphase ▸ .remove i token, rfl⟩
    · cases h
  | releaseStop i =>
    simp only [Tracking.step] at h
    split at h
    · rename_i token hphase
      cases h
      exact .inr ⟨i, _, hphase ▸ .releaseStop i token, rfl⟩
    · cases h
  | readLock j =>
    simp only [Tracking.step] at h
    split at h
    · cases h
      exact .inl rfl
    · cases h
  | lookup j token =>
    simp only [Tracking.step] at h
    split at h
    · cases h
      exact .inl rfl
    · cases h
  | readUnlock j =>
    simp only [Tracking.step] at h
    split at h
    · cases h
      exact .inl rfl
    · cases h

/-- Which phases of the tracking a call may be in. -/
def Fits : Task → Tracking.Phase M C P → Prop
  | .pending, .stopping _ | .pending, .removed _ | .pending, .stopped _ => False
  | .pending, _ => True
  | .ended _, .started _ | .ended _, .stopping _ | .ended _, .removed _ | .ended _, .stopped _ => True
  | .ended _, _ => False
  | .returned, .stopped _ | .returned, .failed => True
  | .returned, _ => False

/-- The tracking takes no step that a call is not ready for. -/
theorem fits_step {s : State M C P} {tracking : Tracking.State M C P} {action : Tracking.Action M C P}
    (hfits : ∀ i, Fits (s.task i) (s.tracking.phase i)) (hmay : mayTrack s action = true)
    (h : Tracking.step s.tracking action = some tracking) (i : Nat) : Fits (s.task i) (tracking.phase i) := by
  rcases phase_step h with hphase | ⟨j, phase, hnext, hphase⟩
  · rw [hphase]
    exact hfits i
  · rw [hphase]
    by_cases hij : i = j
    · subst hij
      rw [Function.update_self]
      have hfit := hfits i
      generalize s.tracking.phase i = old at hnext hfit
      cases hnext with
      | acquireStop i token =>
        simp only [mayTrack] at hmay
        split at hmay
        · rename_i htask
          rw [htask]
          trivial
        · cases hmay
      | _ =>
        rcases htask : s.task i with _ | result | _
        all_goals
          rw [htask] at hfit
          first
          | exact hfit.elim
          | trivial
    · rw [Function.update_of_ne hij]
      exact hfits i

/-! ## The invariant -/

/-- A reply was taken or a cancellation relayed. -/
def Event.settles (i : Nat) : Event → Prop
  | .answered j _ => j = i
  | .cancelRelayed j _ _ => j = i
  | _ => False

/-- The client was answered, or the response handed on to that end. -/
def Event.concludes (i : Nat) : Event → Prop
  | .hooked j _ => j = i
  | .returned j _ => j = i
  | _ => False

/-- How `call_backend_tool` came to its result. -/
def Settled (log : List Event) (i : Nat) (result : Except CallError CallToolResult) : Prop :=
  (∃ reply, .answered i reply ∈ log ∧ result = callBackendTool reply ∧
    ∀ token reason, .cancelRelayed i token reason ∉ log) ∨
  ∃ token, .cancelRelayed i token cancelReason ∈ log ∧ .cancelRequested i ∈ log ∧
    result = .error (.cancelled (some cancelReason)) ∧ ∀ reply, .answered i reply ∉ log

variable (post : Nat → CallToolResult → Except ErrorData CallToolResult)

/-- What an event tells about the events before it. -/
def Sound : Event → List Event → Prop
  | .cancelRequested _, _ => True
  | .answered i _, older => ∀ e ∈ older, ¬ e.settles i ∧ ¬ e.concludes i
  | .cancelRelayed i _ reason, older => .cancelRequested i ∈ older ∧ reason = cancelReason ∧
      ∀ e ∈ older, ¬ e.settles i ∧ ¬ e.concludes i
  | .hooked i response, older => Settled older i (.ok response) ∧ ∀ e ∈ older, ¬ e.concludes i
  | .returned i result, older => (∀ r, .returned i r ∉ older) ∧
      ((∃ error, Settled older i (.error error) ∧ result = .error error.forward ∧ ∀ r, .hooked i r ∉ older) ∨
        (∃ response, Settled older i (.ok response) ∧ .hooked i response ∈ older ∧ result = post i response) ∨
        ((∀ e ∈ older, ¬ e.settles i) ∧ ∃ error, result = .error (backendForwardError error)))

/-- What the log knows about a call at each of its tasks. -/
def TaskInv (log : List Event) (i : Nat) : Task → Prop
  | .pending => ∀ e ∈ log, ¬ e.settles i ∧ ¬ e.concludes i
  | .ended result => Settled log i result ∧ ∀ e ∈ log, ¬ e.concludes i
  | .returned => ∃ result, .returned i result ∈ log

structure Inv (s : State M C P) : Prop where
  tracking : Tracking.Inv s.tracking
  fits : ∀ i, Fits (s.task i) (s.tracking.phase i)
  cancelled : ∀ i, s.cancelled i = true → .cancelRequested i ∈ s.log
  task : ∀ i, TaskInv s.log i (s.task i)
  sound : Machine.Justified (Sound post) s.log

theorem inv_init : Inv post ({} : State M C P) where
  tracking := Tracking.inv_init
  fits i := trivial
  cancelled i h := by cases h
  task i e he := by cases he
  sound := trivial

/-! ## Every step keeps it -/

section Steps

variable {post} {s t : State M C P} {i : Nat}

theorem Settled.cons {log : List Event} {result : Except CallError CallToolResult} (h : Settled log i result) {e : Event}
    (he : ¬ e.settles i) : Settled (e :: log) i result := by
  rcases h with ⟨reply, hanswered, hresult, hrelayed⟩ | ⟨token, hrelayed, hrequested, hresult, hanswered⟩
  · refine .inl ⟨reply, List.mem_cons_of_mem _ hanswered, hresult, fun token reason hmem => ?_⟩
    rcases List.mem_cons.mp hmem with rfl | hmem
    · exact he rfl
    · exact hrelayed token reason hmem
  · refine .inr ⟨token, List.mem_cons_of_mem _ hrelayed, List.mem_cons_of_mem _ hrequested, hresult,
      fun reply hmem => ?_⟩
    rcases List.mem_cons.mp hmem with rfl | hmem
    · exact he rfl
    · exact hanswered reply hmem

/-- Events of other calls leave a call's history as it was. -/
theorem TaskInv.append {log : List Event} {task : Task} (h : TaskInv log i task) :
    ∀ {events : List Event}, (∀ e ∈ events, ¬ e.settles i ∧ ¬ e.concludes i) → TaskInv (events ++ log) i task
  | [], _ => h
  | e :: events, he => by
    obtain ⟨⟨hsettles, hconcludes⟩, hevents⟩ := List.forall_mem_cons.mp he
    have ih := h.append hevents
    rw [List.cons_append]
    cases task with
    | pending => exact List.forall_mem_cons.mpr ⟨⟨hsettles, hconcludes⟩, ih⟩
    | ended result => exact ⟨ih.1.cons hsettles, List.forall_mem_cons.mpr ⟨hconcludes, ih.2⟩⟩
    | returned => exact ih.imp fun _ => List.mem_cons_of_mem _

/-- Moving one call, with events of its own. -/
theorem Inv.move (hi : Inv post s) {task : Task} {events : List Event} (hfits : Fits task (s.tracking.phase i))
    (hown : ∀ j, j ≠ i → ∀ e ∈ events, ¬ e.settles j ∧ ¬ e.concludes j)
    (htask : TaskInv (events ++ s.log) i task) (hsound : Machine.Justified (Sound post) (events ++ s.log)) :
    Inv post (s.move i task events) where
  tracking := hi.tracking
  fits j := by
    change Fits (Function.update s.task i task j) (s.tracking.phase j)
    by_cases hj : j = i
    · rw [hj, Function.update_self]
      exact hfits
    · rw [Function.update_of_ne hj]
      exact hi.fits j
  cancelled j h := List.mem_append_right _ (hi.cancelled j h)
  task j := by
    change TaskInv (events ++ s.log) j (Function.update s.task i task j)
    by_cases hj : j = i
    · rw [hj, Function.update_self]
      exact htask
    · rw [Function.update_of_ne hj]
      exact (hi.task j).append (hown j hj)
  sound := hsound

theorem inv_track {action : Tracking.Action M C P} (hi : Inv post s) (h : step post s (.track action) = some t) :
    Inv post t := by
  simp only [step] at h
  split at h
  · rename_i hmay
    split at h
    · rename_i tracking htrack
      cases h
      exact ⟨hi.tracking.step htrack, fun j => fits_step hi.fits hmay htrack j, hi.cancelled, hi.task, hi.sound⟩
    · cases h
  · cases h

theorem inv_cancel (hi : Inv post s) (h : step post s (.cancel i) = some t) : Inv post t := by
  cases h
  refine ⟨hi.tracking, hi.fits, ?_, ?_, trivial, hi.sound⟩
  · intro j hj
    change Function.update s.cancelled i true j = true at hj
    by_cases hij : j = i
    · rw [hij]
      exact List.mem_cons_self ..
    · rw [Function.update_of_ne hij] at hj
      exact List.mem_cons_of_mem _ (hi.cancelled j hj)
  · intro j
    have hrequested : ∀ e ∈ [Event.cancelRequested i], ¬ e.settles j ∧ ¬ e.concludes j :=
      List.forall_mem_singleton.mpr ⟨id, id⟩
    exact (hi.task j).append hrequested

theorem inv_answer {reply : Reply} (hi : Inv post s) (h : step post s (.answer i reply) = some t) : Inv post t := by
  simp only [step] at h
  have htask := hi.task i
  split at h
  · rename_i token hphase hpending
    cases h
    rw [hpending] at htask
    refine hi.move ?_ ?_ ⟨.inl ⟨reply, List.mem_cons_self .., rfl, ?_⟩, ?_⟩ ⟨htask, hi.sound⟩
    · rw [hphase]
      trivial
    · intro j hj
      exact List.forall_mem_singleton.mpr ⟨fun h => hj h.symm, id⟩
    · intro token reason hmem
      rcases List.mem_cons.mp hmem with hmem | hmem
      · cases hmem
      · exact (htask _ hmem).1 rfl
    · exact List.forall_mem_cons.mpr ⟨id, fun e he => (htask e he).2⟩
  · cases h

theorem inv_relay (hi : Inv post s) (h : step post s (.relay i) = some t) : Inv post t := by
  simp only [step] at h
  have htask := hi.task i
  split at h
  · rename_i token hphase hpending
    split at h
    · rename_i hcancelled
      cases h
      rw [hpending] at htask
      have hrequested := hi.cancelled i hcancelled
      refine hi.move ?_ ?_ ⟨.inr ⟨token, List.mem_cons_self .., List.mem_cons_of_mem _ hrequested, rfl, ?_⟩, ?_⟩
        ⟨⟨hrequested, rfl, htask⟩, hi.sound⟩
      · rw [hphase]
        trivial
      · intro j hj
        exact List.forall_mem_singleton.mpr ⟨fun h => hj h.symm, id⟩
      · intro reply hmem
        rcases List.mem_cons.mp hmem with hmem | hmem
        · cases hmem
        · exact (htask _ hmem).1 rfl
      · exact List.forall_mem_cons.mpr ⟨id, fun e he => (htask e he).2⟩
    · cases h
  · cases h

theorem inv_finish (hi : Inv post s) (h : step post s (.finish i) = some t) : Inv post t := by
  simp only [step] at h
  have htask := hi.task i
  split at h
  · rename_i token error hphase hended
    cases h
    rw [hended] at htask
    obtain ⟨hsettled, hopen⟩ := htask
    refine hi.move ?_ ?_ ⟨_, List.mem_cons_self ..⟩
      ⟨⟨fun r hr => hopen _ hr rfl, .inl ⟨error, hsettled, rfl, fun r hr => hopen _ hr rfl⟩⟩, hi.sound⟩
    · rw [hphase]
      trivial
    · intro j hj
      exact List.forall_mem_singleton.mpr ⟨id, fun h => hj h.symm⟩
  · rename_i token response hphase hended
    cases h
    rw [hended] at htask
    obtain ⟨hsettled, hopen⟩ := htask
    have hhooked : Settled (.hooked i response :: s.log) i (.ok response) := hsettled.cons id
    refine hi.move ?_ ?_ ⟨_, List.mem_cons_self ..⟩
      ⟨⟨?_, .inr (.inl ⟨response, hhooked, List.mem_cons_self .., rfl⟩)⟩, ⟨hsettled, hopen⟩, hi.sound⟩
    · rw [hphase]
      trivial
    · intro j hj
      exact List.forall_mem_cons.mpr ⟨⟨id, fun h => hj h.symm⟩,
        List.forall_mem_singleton.mpr ⟨id, fun h => hj h.symm⟩⟩
    · intro r hr
      rcases List.mem_cons.mp hr with hr | hr
      · cases hr
      · exact hopen _ hr rfl
  · cases h

theorem inv_failStart {error : ServiceError} (hi : Inv post s) (h : step post s (.failStart i error) = some t) :
    Inv post t := by
  simp only [step] at h
  have htask := hi.task i
  split at h
  · rename_i hphase hpending
    cases h
    rw [hpending] at htask
    refine hi.move ?_ ?_ ⟨_, List.mem_cons_self ..⟩
      ⟨⟨fun r hr => (htask _ hr).2 rfl, .inr (.inr ⟨fun e he => (htask e he).1, error, rfl⟩)⟩, hi.sound⟩
    · rw [hphase]
      trivial
    · intro j hj
      exact List.forall_mem_singleton.mpr ⟨id, fun h => hj h.symm⟩
  · cases h

theorem inv_step {label : Label M C P} (hi : Inv post s) (h : step post s label = some t) : Inv post t := by
  cases label with
  | track action => exact inv_track hi h
  | cancel i => exact inv_cancel hi h
  | answer i reply => exact inv_answer hi h
  | relay i => exact inv_relay hi h
  | finish i => exact inv_finish hi h
  | failStart i error => exact inv_failStart hi h

theorem inv_run {labels : List (Label M C P)} (h : Machine.run (step post) {} labels = some s) : Inv post s :=
  Machine.run_invariant inv_step (inv_init post) h

end Steps

/-! ## What every run shows -/

/-- The answer to the client for a result of `call_backend_tool`. -/
def conclude (i : Nat) : Except CallError CallToolResult → Except ErrorData CallToolResult
  | .error error => .error error.forward
  | .ok response => post i response

section Results

variable {post} {log : List Event} {i : Nat}

theorem sound_settles {a : Event} {older : List Event} (ha : a.settles i) (h : Sound post a older) :
    ∀ e ∈ older, ¬ e.settles i ∧ ¬ e.concludes i := by
  cases a with
  | answered j reply =>
    obtain rfl : j = i := ha
    exact h
  | cancelRelayed j token reason =>
    obtain rfl : j = i := ha
    exact h.2.2
  | _ => exact ha.elim

theorem answered_of_settled {response : CallToolResult} (h : Settled log i (.ok response)) :
    ∃ reply, .answered i reply ∈ log ∧ callBackendTool reply = .ok response := by
  rcases h with ⟨reply, hanswered, hresult, -⟩ | ⟨-, -, -, hresult, -⟩
  · exact ⟨reply, hanswered, hresult.symm⟩
  · cases hresult

/-- How an answer came about, seen from its place in the history. -/
theorem returned_cases {result : Except ErrorData CallToolResult} {older : List Event}
    (h : Sound post (.returned i result) older) :
    (∃ reply, .answered i reply ∈ older ∧ result = conclude post i (callBackendTool reply)) ∨
    (∃ token reason, .cancelRelayed i token reason ∈ older ∧
      result = conclude post i (.error (.cancelled (some cancelReason)))) ∨
    ((∀ e ∈ older, ¬ e.settles i) ∧ ∃ error, result = .error (backendForwardError error)) := by
  obtain ⟨-, ⟨error, hsettled, rfl, -⟩ | ⟨response, hsettled, -, rfl⟩ | hfailed⟩ := h
  · rcases hsettled with ⟨reply, hanswered, hresult, -⟩ | ⟨token, hrelayed, -, hresult, -⟩
    · refine .inl ⟨reply, hanswered, ?_⟩
      rw [← hresult]
      rfl
    · cases hresult
      exact .inr (.inl ⟨token, cancelReason, hrelayed, rfl⟩)
  · obtain ⟨reply, hanswered, hreply⟩ := answered_of_settled hsettled
    refine .inl ⟨reply, hanswered, ?_⟩
    rw [hreply]
    rfl
  · exact .inr (.inr hfailed)

/-- The client was answered. -/
def Event.returns (i : Nat) : Event → Prop
  | .returned j _ => j = i
  | _ => False

theorem sound_returns {a : Event} {older : List Event} (ha : a.returns i) (h : Sound post a older) :
    ∀ e ∈ older, ¬ e.returns i := by
  intro e he hreturns
  cases a with
  | returned j result =>
    obtain rfl : j = i := ha
    cases e with
    | returned k r =>
      obtain rfl : k = j := hreturns
      exact h.1 r he
    | _ => exact hreturns
  | _ => exact ha.elim

variable {s : State M C P}

/-- Where an event stands in the history, what it tells about the older ones, and that these are there. -/
theorem Inv.sound_at (hi : Inv post s) {e : Event} (he : e ∈ s.log) :
    ∃ newer older, s.log = newer ++ e :: older ∧ (∀ e' ∈ older, e' ∈ s.log) ∧ Sound post e older := by
  obtain ⟨newer, older, hlog⟩ := List.append_of_mem he
  have hsound := hi.sound
  rw [hlog] at hsound
  refine ⟨newer, older, hlog, fun e' he' => ?_, hsound.sound⟩
  rw [hlog]
  exact List.mem_append_right _ (List.mem_cons_of_mem _ he')

theorem Inv.settles_once (hi : Inv post s) {newer older : List Event} {e : Event} (hlog : s.log = newer ++ e :: older)
    (he : e.settles i) : ∀ e' ∈ newer ++ older, ¬ e'.settles i :=
  Machine.Justified.once (fun hb hs e' he' => (sound_settles hb hs e' he').1) (hlog ▸ hi.sound) he

theorem Inv.returns_once (hi : Inv post s) {newer older : List Event} {e : Event} (hlog : s.log = newer ++ e :: older)
    (he : e.returns i) : ∀ e' ∈ newer ++ older, ¬ e'.returns i :=
  Machine.Justified.once sound_returns (hlog ▸ hi.sound) he

theorem Inv.relayed (hi : Inv post s) {token : ProgressToken} {reason : String}
    (h : .cancelRelayed i token reason ∈ s.log) :
    .cancelRequested i ∈ s.log ∧ reason = cancelReason ∧ ∀ response, .hooked i response ∉ s.log := by
  obtain ⟨newer, older, hlog, hold, hrequested, hreason, -⟩ := hi.sound_at h
  refine ⟨hold _ hrequested, hreason, fun response hhooked => ?_⟩
  obtain ⟨_, _, -, hold', hsettled, -⟩ := hi.sound_at hhooked
  obtain ⟨reply, hanswered, -⟩ := answered_of_settled hsettled
  -- the reply a hooked response came from is another event that settles the call
  have hmem := hold' _ hanswered
  have hother : .answered i reply ∈ newer ++ older := by
    rw [hlog] at hmem
    rcases List.mem_append.mp hmem with hmem | hmem
    · exact List.mem_append_left _ hmem
    · rcases List.mem_cons.mp hmem with hmem | hmem
      · cases hmem
      · exact List.mem_append_right _ hmem
  exact hi.settles_once hlog rfl _ hother rfl

theorem Inv.returned (hi : Inv post s) {result : Except ErrorData CallToolResult} (h : .returned i result ∈ s.log) :
    (∃ reply, .answered i reply ∈ s.log ∧ result = conclude post i (callBackendTool reply)) ∨
    (∃ token reason, .cancelRelayed i token reason ∈ s.log ∧
      result = conclude post i (.error (.cancelled (some cancelReason)))) ∨
    ((∀ e ∈ s.log, ¬ e.settles i) ∧ ∃ error, result = .error (backendForwardError error)) := by
  obtain ⟨newer, older, hlog, hmem, hsound⟩ := hi.sound_at h
  rcases returned_cases hsound with ⟨reply, hanswered, hresult⟩ | ⟨token, reason, hrelayed, hresult⟩ | ⟨hno, herror⟩
  · exact .inl ⟨reply, hmem _ hanswered, hresult⟩
  · exact .inr (.inl ⟨token, reason, hmem _ hrelayed, hresult⟩)
  · refine .inr (.inr ⟨fun e he hsettles => ?_, herror⟩)
    rw [hlog] at he
    rcases List.mem_append.mp he with he | he
    · -- nothing settles a call after its answer
      obtain ⟨newest, between, rfl⟩ := List.append_of_mem he
      have hsound := hi.sound
      rw [hlog, List.append_assoc] at hsound
      exact (sound_settles hsettles hsound.sound _ (List.mem_append_right _ (List.mem_cons_self ..))).2 rfl
    · rcases List.mem_cons.mp he with rfl | he
      · exact hsettles
      · exact hno e he hsettles

theorem Inv.untracked (hi : Inv post s) {result : Except ErrorData CallToolResult} (h : .returned i result ∈ s.log)
    {token : ProgressToken} {tracked : Tracking.TrackedCall M C P}
    (hlookup : s.tracking.calls.lookup token = some tracked) : tracked.owner ≠ i := by
  rintro rfl
  have htask := hi.task tracked.owner
  have hfits := hi.fits tracked.owner
  obtain ⟨⟨henqueued, hremoved⟩, -⟩ := (hi.tracking.calls token tracked).mp hlookup
  have htoken := hi.tracking.enqueued _ _ _ henqueued
  cases hcase : s.task tracked.owner with
  | pending =>
    rw [hcase] at htask
    exact (htask _ h).2 rfl
  | ended result =>
    rw [hcase] at htask
    exact htask.2 _ h rfl
  | returned =>
    rw [hcase] at hfits
    cases hphase : s.tracking.phase tracked.owner with
    | stopped token' =>
      refine hremoved ((hi.tracking.removed _ _).mpr ⟨htoken, ?_⟩)
      rw [hphase]
      rfl
    | failed =>
      rw [hphase] at htoken
      cases htoken
    | _ =>
      rw [hphase] at hfits
      exact hfits.elim

end Results

/-- For every interleaving of tool calls with replies, cancellations and progress lookups. Of a reply and a relayed
cancellation a call has at most one, once; it answers its client at most once, by the reply it took, by an error when
it relayed a cancellation, or by the error of a start that failed, when it had neither. A cancellation is relayed only
on the client's request, and then no response reaches a post hook. A call that has answered is no longer tracked. -/
theorem toolCalls_conclude {labels : List (Label M C P)} {s : State M C P}
    (h : Machine.run (step post) {} labels = some s) :
    (∀ newer i e older, s.log = newer ++ e :: older → e.settles i → ∀ e' ∈ newer ++ older, ¬ e'.settles i) ∧
    (∀ newer i e older, s.log = newer ++ e :: older → e.returns i → ∀ e' ∈ newer ++ older, ¬ e'.returns i) ∧
    (∀ i token reason, .cancelRelayed i token reason ∈ s.log →
      .cancelRequested i ∈ s.log ∧ reason = cancelReason ∧ ∀ response, .hooked i response ∉ s.log) ∧
    (∀ i result, .returned i result ∈ s.log →
      (∃ reply, .answered i reply ∈ s.log ∧ result = conclude post i (callBackendTool reply)) ∨
      (∃ token reason, .cancelRelayed i token reason ∈ s.log ∧
        result = conclude post i (.error (.cancelled (some cancelReason)))) ∨
      ((∀ e ∈ s.log, ¬ e.settles i) ∧ ∃ error, result = .error (backendForwardError error))) ∧
    (∀ i result, .returned i result ∈ s.log → ∀ token tracked, s.tracking.calls.lookup token = some tracked →
      tracked.owner ≠ i) := by
  have hi := inv_run h
  refine ⟨fun _ _ _ _ => hi.settles_once, fun _ _ _ _ => hi.returns_once, fun _ _ _ => hi.relayed,
    fun _ _ => hi.returned, fun _ _ hreturned _ _ => hi.untracked hreturned⟩

theorem toolCalls_conclude_cancelled : ∃ (labels : List (Label Unit Unit Unit)) (s : State Unit Unit Unit),
    Machine.run (step fun _ response => .ok response) {} labels = some s ∧
    .cancelRelayed 0 ⟨.number 1⟩ cancelReason ∈ s.log ∧ (∀ response, .hooked 0 response ∉ s.log) ∧
    ∀ result, .returned 0 result ∈ s.log → ∀ token tracked, s.tracking.calls.lookup token = some tracked →
      tracked.owner ≠ 0 := by
  let call : InFlightToolCall Unit Unit Unit := ⟨⟨.string "abc"⟩, none, ()⟩
  let labels : List (Label Unit Unit Unit) := [.track (.acquire 0 call), .track (.enqueue 0 ⟨.number 1⟩),
    .track (.publish 0), .cancel 0, .track (.release 0), .relay 0, .track (.acquireStop 0), .track (.remove 0),
    .track (.releaseStop 0), .finish 0]
  obtain ⟨s, hs⟩ :=
    Option.isSome_iff_exists.mp (rfl : (Machine.run (step fun _ response => .ok response) {} labels).isSome)
  obtain ⟨-, -, hrelayed, -, huntracked⟩ := toolCalls_conclude _ hs
  have hmem : .cancelRelayed 0 ⟨.number 1⟩ cancelReason ∈ s.log := by
    cases hs
    simp [State.move]
  exact ⟨labels, s, hs, hmem, (hrelayed _ _ _ hmem).2.2, huntracked 0⟩

end DataPlane.Gateway.ToolCalls
