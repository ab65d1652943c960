/-
The gateway process with runtime plugins, as `main` runs it: the registry is initialized before the first request is
served, and afterwards only the watcher loads, beside the requests and the writers of the store. What a load leaves
behind, and what a step of a request records.
-/
import DataPlane.Cpex.Registry
import DataPlane.Cpex.Requests

namespace DataPlane.Gateway.Process

open DataPlane.Json DataPlane.Cpex

variable {M C V E W : Type}

/-! ## The process -/

/-- Where `main` is: in `initialize`, out of it with an error, or serving while the watcher waits for its next tick or
holds what it read from the store. -/
inductive Task where
  | initializing (fetched : Option Stored)
  | exited
  | serving (lastAppliedConfig : Option (List UInt8)) (fetched : Option Stored)

/-- The process and the store, with everything the store has held, the requests whose `before_*` returned `Ok`, and
those that went on to `connect_backend_for_request`. -/
structure State (M C E : Type) where
  requests : Cpex.State M C E
  task : Task
  store : Stored
  held : List Stored
  passed : List Nat
  contacts : List Nat

/-- `fetch` is the moment a load reads the store, `finish` its swap of the runtime; requests and writes come at any
time. `contact` is a request that opens the connection to its backend. -/
inductive Label (M C E W : Type) where
  | fetch
  | finish (world : W)
  | request (label : Cpex.Label M C E)
  | contact (request : Nat)
  | write (stored : Stored)

/-- The labels of the requests' machine that are not loads. -/
def ofRequest : Cpex.Label M C E → Bool
  | .reload _ | .applyConfig _ => false
  | _ => true

/-- The request whose `before_*` returns `Ok` in a step: without a pre hook when it enters, else when the hook returns.
After any other end of `before_*` the handler returns the error. -/
def passes [Inhabited C] (s : Cpex.State M C E) : Cpex.Label M C E → Option Nat
  | .enter r => match s.phase r with
    | .loaded start runtime => match (start.before (C := C) runtime s.counter).1 with
      | .done (.ok _) => some r
      | _ => none
    | _ => none
  | .preReturned r result => match s.phase r with
    | .before _ resume => match resume result with
      | .ok _ => some r
      | .error _ => none
    | _ => none
  | _ => none

/-- `GatewayPluginRuntime::default`. -/
def emptyRuntime (lib : LoadLib M W) : GatewayPluginRuntime M := ⟨lib.empty, fun _ => {}⟩

/-- The requests after a load: a skipped one swaps nothing. -/
def settle (requests : Cpex.State M C E) :
    Except GatewayPluginRuntimeError (Option (List UInt8)) × RuntimeState M → Cpex.State M C E
  | (.ok none, _) => requests
  | (_, runtime) => requests.publish runtime

/-- `initialize_cpex_runtime` after its load: `start_config_watcher`, and `main` goes on to `run_gateway`. -/
def initialized : Except GatewayPluginRuntimeError (Option (List UInt8)) → Task
  | .ok initialConfig => .serving initialConfig none
  | .error _ => .exited

/-- The end of a round of the watcher's loop. -/
def ticked (lastAppliedConfig : Option (List UInt8)) :
    Except GatewayPluginRuntimeError (Option (List UInt8)) → Task
  | .ok (some fingerprint) => .serving (some fingerprint) none
  | .ok none => .serving lastAppliedConfig none
  | .error _ => .serving none none

def init (lib : LoadLib M W) (store : Stored) : State M C E :=
  ⟨.init (.active (emptyRuntime lib)), .initializing none, store, [store], [], []⟩

def step [Inhabited C] [DecidableEq V] (lib : LoadLib M W) (hookLib : HookLib V E) (s : State M C E) :
    Label M C E W → Option (State M C E)
  | .fetch => match s.task with
    | .initializing none => some { s with task := .initializing (some s.store) }
    | .serving lastAppliedConfig none => some { s with task := .serving lastAppliedConfig (some s.store) }
    | _ => none
  | .finish world => match s.task with
    | .initializing (some stored) =>
      let load := lib.reloadRuntime world (some stored) none s.requests.runtime
      some { s with requests := settle s.requests load, task := initialized load.1 }
    | .serving lastAppliedConfig (some stored) =>
      let load := lib.reloadRuntime world (some stored) lastAppliedConfig s.requests.runtime
      some { s with requests := settle s.requests load, task := ticked lastAppliedConfig load.1 }
    | _ => none
  | .request label => match s.task with
    | .serving _ _ =>
      if ofRequest label then
        match Cpex.step hookLib s.requests label with
        | some requests => some { s with requests, passed := (passes s.requests label).toList ++ s.passed }
        | none => none
      else none
    | _ => none
  | .contact r => if r ∈ s.passed then some { s with contacts := r :: s.contacts } else none
  | .write stored => some { s with store := stored, held := stored :: s.held }

/-! ## Documents -/

/-- A runtime built from a document that the store has held. -/
def Documented (lib : LoadLib M W) (held : List Stored) (runtime : GatewayPluginRuntime M) (config : List UInt8) : Prop :=
  Stored.bytes config ∈ held ∧ ∃ document, lib.decodeConfigDocument config = some document ∧ BuiltFrom lib document runtime

/-- The watcher's fingerprint is that of the runtime in place; after a failure it has none. -/
def Current (lib : LoadLib M W) (held : List Stored) (lastAppliedConfig : Option (List UInt8)) : RuntimeState M → Prop
  | .active runtime => ∃ config, lastAppliedConfig = some config ∧ Documented lib held runtime config
  | .failed _ => lastAppliedConfig = none

/-- What a load leaves behind: the runtime of the bytes it read, with their fingerprint, or a failed one without. -/
def Loaded (lib : LoadLib M W) (stored : Stored) (task : Task) : RuntimeState M → Prop
  | .active runtime => ∃ config document, stored = .bytes config ∧ lib.decodeConfigDocument config = some document ∧
      BuiltFrom lib document runtime ∧ task = .serving (some config) none
  | .failed _ => task = .exited ∨ task = .serving none none

theorem Documented.mono {lib : LoadLib M W} {held held' : List Stored} {runtime : GatewayPluginRuntime M}
    {config : List UInt8} (h : Documented lib held runtime config) (hheld : ∀ st ∈ held, st ∈ held') :
    Documented lib held' runtime config :=
  ⟨hheld _ h.1, h.2⟩

theorem Current.mono {lib : LoadLib M W} {held held' : List Stored} {last : Option (List UInt8)} {runtime : RuntimeState M}
    (h : Current lib held last runtime) (hheld : ∀ st ∈ held, st ∈ held') : Current lib held' last runtime := by
  cases runtime with
  | active runtime =>
    obtain ⟨config, hlast, hdoc⟩ := h
    exact ⟨config, hlast, hdoc.mono hheld⟩
  | failed error => exact h

/-! ## Loads -/

section Loads

variable {lib : LoadLib M W} {world : W} {stored : Stored} {last : Option (List UInt8)}

/-- `reload_runtime` fails, skips the bytes of the fingerprint it was given, or takes the document in the store. -/
theorem reloadRuntime_cases (lib : LoadLib M W) (world : W) (stored : Stored) (last : Option (List UInt8))
    (runtime : RuntimeState M) :
    (∃ error : GatewayPluginRuntimeError,
      lib.reloadRuntime world (some stored) last runtime = (.error error, .failed error.text)) ∨
    ∃ config document, stored = .bytes config ∧ lib.decodeConfigDocument config = some document ∧
      ((last = some config ∧ lib.reloadRuntime world (some stored) last runtime = (.ok none, runtime)) ∨
        ∃ loaded, BuiltFrom lib document loaded ∧
          lib.reloadRuntime world (some stored) last runtime = (.ok (some config), .active loaded)) := by
  unfold LoadLib.reloadRuntime
  dsimp only
  rcases load_cases lib world stored last with ⟨error, h⟩ | ⟨config, document, hstored, hdecode, hcases⟩
  · exact .inl ⟨error, by rw [h]⟩
  · refine .inr ⟨config, document, hstored, hdecode, ?_⟩
    rcases hcases with ⟨hlast, h⟩ | ⟨loaded, hbuilt, h⟩
    · exact .inl ⟨hlast, by rw [h]⟩
    · exact .inr ⟨loaded, hbuilt, by rw [h]⟩

/-- A first load is never skipped. -/
theorem initialize_loaded (requests : Cpex.State M C E) :
    Loaded lib stored (initialized (lib.reloadRuntime world (some stored) none requests.runtime).1)
      (settle requests (lib.reloadRuntime world (some stored) none requests.runtime)).runtime := by
  rcases reloadRuntime_cases lib world stored none requests.runtime with
    ⟨error, h⟩ | ⟨config, document, hstored, hdecode, ⟨hlast, -⟩ | ⟨loaded, hbuilt, h⟩⟩
  · rw [h]
    exact .inl rfl
  · cases hlast
  · rw [h]
    exact ⟨config, document, hstored, hdecode, hbuilt, rfl⟩

/-- A skipped tick finds in place the runtime of the bytes it read. -/
theorem tick_loaded {held : List Stored} {requests : Cpex.State M C E} (h : Current lib held last requests.runtime) :
    Loaded lib stored (ticked last (lib.reloadRuntime world (some stored) last requests.runtime).1)
      (settle requests (lib.reloadRuntime world (some stored) last requests.runtime)).runtime := by
  rcases reloadRuntime_cases lib world stored last requests.runtime with
    ⟨error, h'⟩ | ⟨config, document, hstored, hdecode, ⟨rfl, h'⟩ | ⟨loaded, hbuilt, h'⟩⟩
  · rw [h']
    exact .inr rfl
  · rw [h']
    show Loaded lib stored (.serving (some config) none) requests.runtime
    cases hruntime : requests.runtime with
    | active runtime =>
      rw [hruntime] at h
      obtain ⟨config', hconfig, -, document', hdecode', hbuilt⟩ := h
      cases hconfig
      exact ⟨config, document', hstored, hdecode', hbuilt, rfl⟩
    | failed error =>
      rw [hruntime] at h
      cases h
  · rw [h']
    exact ⟨config, document, hstored, hdecode, hbuilt, rfl⟩

/-- The runtime a load leaves is that of the fingerprint it leaves. -/
theorem Loaded.current {held : List Stored} {task : Task} {runtime : RuntimeState M} (h : Loaded lib stored task runtime)
    (hheld : stored ∈ held) :
    task = .exited ∨ ∃ last, task = .serving last none ∧ Current lib held last runtime := by
  cases runtime with
  | active runtime =>
    obtain ⟨config, document, rfl, hdecode, hbuilt, rfl⟩ := h
    exact .inr ⟨_, rfl, config, rfl, hheld, document, hdecode, hbuilt⟩
  | failed error =>
    rcases h with rfl | rfl
    · exact .inl rfl
    · exact .inr ⟨none, rfl, rfl⟩

theorem settle_eq (requests : Cpex.State M C E)
    (load : Except GatewayPluginRuntimeError (Option (List UInt8)) × RuntimeState M) :
    settle requests load = requests ∨ settle requests load = requests.publish load.2 := by
  unfold settle
  split
  · exact .inl rfl
  · exact .inr rfl

end Loads

/-! ## Requests -/

theorem map_await {α β : Type} {f : α → β} {task : Resumption M C α} {invocation : Invocation M C}
    {resume : PipelineResult C → β} (h : task.map f = .await invocation resume) :
    ∃ resume', task = .await invocation resume' := by
  cases task with
  | done a => cases h
  | await invocation' resume' =>
    cases h
    exact ⟨resume', rfl⟩

/-- What is running was invoked. -/
theorem busy_invoked {r : Nat} : ∀ {log : List (Event M C E)}, busy r log = true →
    ∃ stage invocation, .invoked r stage invocation ∈ log
  | [], h => by cases h
  | e :: older, h => by
    by_cases hbusy : busy r older = true
    · obtain ⟨stage, invocation, hmem⟩ := busy_invoked hbusy
      exact ⟨stage, invocation, List.mem_cons_of_mem _ hmem⟩
    · -- the newest event made the request busy
      cases e with
      | invoked r' stage invocation =>
        unfold busy at h
        split at h
        · rename_i heq
          rw [heq]
          exact ⟨stage, invocation, List.mem_cons_self ..⟩
        · exact absurd h hbusy
      | returned r' result =>
        unfold busy at h
        split at h
        · cases h
        · exact absurd h hbusy
      | _ => exact absurd h hbusy

section Requests

variable [Inhabited C] [DecidableEq V] {hookLib : HookLib V E}

/-- What a request records in a step after its start: its pre hook runs on the runtime it loaded, which has that
hook. -/
def Emits (s : Cpex.State M C E) : Event M C E → Prop
  | .published _ | .loaded .. | .refused _ => False
  | .invoked r .pre invocation => ∃ start, s.phase r = .loaded start invocation.runtime ∧
      invocation.hook = start.operation.hooks.1 ∧ (invocation.runtime.hooks start.operation).pre = true
  | _ => True

/-- The start of a request: it loads the runtime in place, or is refused with the failed one. -/
inductive Started (s : Cpex.State M C E) (log : List (Event M C E)) (r : Nat) (start : Start) : Prop where
  | loaded (runtime : GatewayPluginRuntime M) (active : s.runtime = .active runtime)
      (eq : log = .loaded r start runtime :: s.log)
  | refused (error : String) (failed : s.runtime = .failed error) (eq : log = .refused r :: s.log)

/-- What a step of a request adds to the history: its start, or the events of a later step. -/
inductive Extends (s : Cpex.State M C E) (log : List (Event M C E)) : Prop where
  | start (r : Nat) (start : Start) (fresh : s.phase r = .fresh) (started : Started s log r start)
  | later (events : List (Event M C E)) (eq : log = events ++ s.log) (emits : ∀ e ∈ events, Emits s e)

/-- A `before` that awaits runs the pre hook of its runtime. -/
theorem before_await {U : Type} [Inhabited U] {runtime : GatewayPluginRuntime M} {operation : Operation} {name : String}
    {payload : String → MessagePayload} {update : MessagePayload → String → Except ErrorData U} {counter : UInt64}
    {invocation : Invocation M C} {resume : PipelineResult C → Except ErrorData (U × Option (CallState M C))}
    (h : (runtime.before operation name payload update counter).1 = .await invocation resume) :
    invocation.runtime = runtime ∧ invocation.hook = operation.hooks.1 ∧ (runtime.hooks operation).pre = true := by
  unfold GatewayPluginRuntime.before at h
  dsimp only at h
  split at h
  · cases h
  · dsimp only at h
    split at h
    · rename_i hpre
      cases h
      exact ⟨rfl, rfl, hpre⟩
    · cases h

theorem start_await {start : Start} {runtime : GatewayPluginRuntime M} {counter : UInt64} {invocation : Invocation M C}
    {resume : PipelineResult C → Except ErrorData (Option (CallState M C))}
    (h : (start.before runtime counter).1 = .await invocation resume) :
    invocation.runtime = runtime ∧ invocation.hook = start.operation.hooks.1 ∧
      (runtime.hooks start.operation).pre = true := by
  cases start with
  | tool request toolName backendName =>
    obtain ⟨_, h⟩ := map_await h
    obtain ⟨_, h⟩ := map_await h
    exact before_await h
  | prompt request promptName backendName =>
    obtain ⟨_, h⟩ := map_await h
    obtain ⟨_, h⟩ := map_await h
    exact before_await h
  | resource resourceUri =>
    obtain ⟨_, h⟩ := map_await h
    obtain ⟨_, h⟩ := map_await h
    exact before_await h

omit [Inhabited C] in
theorem Extends.append {requests : Cpex.State M C E} {log : List (Event M C E)} (h : Extends requests log) :
    ∃ events, log = events ++ requests.log ∧
      ∀ r invocation, .invoked r .pre invocation ∈ events → Emits requests (.invoked r .pre invocation) := by
  cases h with
  | start r start hfresh hstarted =>
    cases hstarted with
    | loaded runtime hactive hlog => exact ⟨[_], hlog, by simp⟩
    | refused error hfailed hlog => exact ⟨[_], hlog, by simp⟩
  | later events hlog hemits => exact ⟨events, hlog, fun _ _ hmem => hemits _ hmem⟩

theorem step_start {s t : Cpex.State M C E} {r : Nat} {start : Start}
    (h : Cpex.step hookLib s (.start r start) = some t) :
    t.runtime = s.runtime ∧ s.phase r = .fresh ∧ Started s t.log r start := by
  simp only [Cpex.step] at h
  split at h
  · rename_i runtime hfresh hcurrent
    cases h
    refine ⟨rfl, hfresh, .loaded runtime ?_ rfl⟩
    cases hruntime : s.runtime with
    | active _ =>
      rw [hruntime] at hcurrent
      cases hcurrent
      rfl
    | failed _ =>
      rw [hruntime] at hcurrent
      cases hcurrent
  · rename_i hfresh hcurrent
    cases h
    cases hruntime : s.runtime with
    | active _ =>
      rw [hruntime] at hcurrent
      cases hcurrent
    | failed error => exact ⟨hruntime, hfresh, .refused error hruntime rfl⟩
  · cases h

/-- A step of a request leaves the runtime in place and only adds to the history. -/
theorem request_extends {s t : Cpex.State M C E} {label : Cpex.Label M C E} (hlabel : ofRequest label = true)
    (h : Cpex.step hookLib s label = some t) : t.runtime = s.runtime ∧ Extends s t.log := by
  cases label with
  | start r start =>
    obtain ⟨hruntime, hfresh, hstarted⟩ := step_start h
    exact ⟨hruntime, .start r start hfresh hstarted⟩
  | enter r =>
    simp only [Cpex.step] at h
    split at h
    · rename_i start runtime hphase
      have hdrawn : ∀ e ∈ (if (start.before (C := C) runtime s.counter).2 = s.counter then []
          else [Event.drawn r (correlationId start.operation s.counter)]), Emits s e := by
        intro e he
        split at he
        · cases he
        · obtain rfl := List.mem_singleton.mp he
          trivial
      split at h
      · cases h
        exact ⟨rfl, .later _ rfl hdrawn⟩
      · rename_i invocation resume hawait
        cases h
        obtain ⟨hruntime, hhook, hpre⟩ := start_await hawait
        refine ⟨rfl, .later _ rfl (List.forall_mem_cons.mpr ⟨⟨start, ?_, hhook, ?_⟩, hdrawn⟩)⟩
        · rw [hphase, hruntime]
        · rw [hruntime]
          exact hpre
    · cases h
  | preReturned r result =>
    simp only [Cpex.step] at h
    split at h
    · cases h
      exact ⟨rfl, .later _ rfl (List.forall_mem_singleton.mpr trivial)⟩
    · cases h
  | post r response =>
    simp only [Cpex.step] at h
    split at h
    · split at h
      · split at h
        · cases h
          exact ⟨rfl, .later [] rfl (List.forall_mem_nil _)⟩
        · cases h
          exact ⟨rfl, .later _ rfl (List.forall_mem_singleton.mpr trivial)⟩
      · cases h
    · cases h
  | postReturned r result =>
    simp only [Cpex.step] at h
    split at h
    · cases h
      exact ⟨rfl, .later _ rfl (List.forall_mem_singleton.mpr trivial)⟩
    · cases h
  | reload outcome => cases hlabel
  | applyConfig outcome => cases hlabel

end Requests

end DataPlane.Gateway.Process
