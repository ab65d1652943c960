/-
Nothing comes between the watcher's fingerprint and the runtime it published, so every tick converges; no request gets
the empty runtime of the start, and every hook that runs is one the document of its runtime declares. A request that
comes while the last load is a failed one is refused before its backend is contacted; one that came before it keeps the
runtime it loaded.
-/
import DataPlane.Gateway.Process
import DataPlane.Gateway.Routing

namespace DataPlane.Gateway.Process

open DataPlane.Json DataPlane.Cpex

variable {M C V E W : Type}

/-! ## The invariant -/

def Task.fetched : Task → Option Stored
  | initializing fetched => fetched
  | exited => none
  | serving _ fetched => fetched

/-- While requests are served, the watcher's fingerprint is current. -/
def Serves (lib : LoadLib M W) (held : List Stored) (runtime : RuntimeState M) : Task → Prop
  | .serving lastAppliedConfig _ => Current lib held lastAppliedConfig runtime
  | _ => True

/-- A request is refused while the last load is a failed one; its start, refused or not, is its first event. -/
def Refusal (lib : LoadLib M W) : Event M C E → List (Event M C E) → Prop
  | .refused r, older => (∃ error, lastPublished (.active (emptyRuntime lib)) older = .failed error) ∧ Untouched r older
  | .loaded r _ _, older => Untouched r older
  | _, _ => True

structure Inv [Inhabited C] [DecidableEq V] (lib : LoadLib M W) (hookLib : HookLib V E) (s : State M C E) : Prop where
  requests : Cpex.Inv hookLib (.active (emptyRuntime lib)) s.requests
  store : s.store ∈ s.held
  fetched : ∀ stored, s.task.fetched = some stored → stored ∈ s.held
  serves : Serves lib s.held s.requests.runtime s.task
  loaded : ∀ r start runtime, .loaded r start runtime ∈ s.requests.log → ∃ config, Documented lib s.held runtime config
  pre : ∀ r invocation, .invoked r .pre invocation ∈ s.requests.log → ∃ start,
    .loaded r start invocation.runtime ∈ s.requests.log ∧ invocation.hook = start.operation.hooks.1 ∧
      (invocation.runtime.hooks start.operation).pre = true
  refusals : Machine.Justified (Refusal lib) s.requests.log
  passed : ∀ r ∈ s.passed, ∃ start runtime, .loaded r start runtime ∈ s.requests.log
  contacts : ∀ r ∈ s.contacts, r ∈ s.passed

section Invariant

variable [Inhabited C] [DecidableEq V] {lib : LoadLib M W} {hookLib : HookLib V E} {s t : State M C E}

theorem inv_init (store : Stored) : Inv lib hookLib (init lib store : State M C E) where
  requests := Cpex.inv_init
  store := List.mem_singleton.mpr rfl
  fetched stored h := by cases h
  serves := trivial
  loaded r start runtime h := by cases h
  pre r invocation h := by cases h
  refusals := trivial
  passed r h := by cases h
  contacts r h := by cases h

/-- Whatever a load swaps, the requests keep their history. -/
theorem Inv.settle (hi : Inv lib hookLib s)
    (load : Except GatewayPluginRuntimeError (Option (List UInt8)) × RuntimeState M) {task : Task}
    (hfetched : task.fetched = none) (hserves : Serves lib s.held (settle s.requests load).runtime task) :
    Inv lib hookLib { s with requests := settle s.requests load, task } := by
  have hmem : ∀ e : Event M C E, (∀ runtime, e ≠ .published runtime) →
      (e ∈ (Process.settle s.requests load).log ↔ e ∈ s.requests.log) := by
    intro e hne
    rcases settle_eq s.requests load with h | h
    · rw [h]
    · rw [h]
      exact ⟨fun he => (List.mem_cons.mp he).resolve_left (hne _), List.mem_cons_of_mem _⟩
  refine ⟨?_, hi.store, ?_, hserves, ?_, ?_, ?_, ?_, hi.contacts⟩
  · rcases settle_eq s.requests load with h | h
    · dsimp only
      rw [h]
      exact hi.requests
    · dsimp only
      rw [h]
      exact inv_publish hi.requests _
  · intro stored hstored
    rw [hfetched] at hstored
    cases hstored
  · intro r start runtime h
    exact hi.loaded r start runtime ((hmem _ (by simp)).mp h)
  · intro r invocation h
    obtain ⟨start, hloaded, hhook, hpre⟩ := hi.pre r invocation ((hmem _ (by simp)).mp h)
    exact ⟨start, (hmem _ (by simp)).mpr hloaded, hhook, hpre⟩
  · rcases settle_eq s.requests load with h | h
    · dsimp only
      rw [h]
      exact hi.refusals
    · dsimp only
      rw [h]
      exact ⟨trivial, hi.refusals⟩
  · intro r h
    obtain ⟨start, runtime, hloaded⟩ := hi.passed r h
    exact ⟨start, runtime, (hmem _ (by simp)).mpr hloaded⟩

theorem fetched_initialized (result : Except GatewayPluginRuntimeError (Option (List UInt8))) :
    (initialized result).fetched = none := by
  unfold initialized
  split <;> rfl

theorem fetched_ticked (last : Option (List UInt8)) (result : Except GatewayPluginRuntimeError (Option (List UInt8))) :
    (ticked last result).fetched = none := by
  unfold ticked
  split <;> rfl

/-- A load that ends leaves the runtime of what it read, with its fingerprint. -/
theorem finish_loaded (hi : Inv lib hookLib s) {world : W} (h : step lib hookLib s (.finish world) = some t) :
    ∃ stored, s.task.fetched = some stored ∧ Loaded lib stored t.task t.requests.runtime ∧
      ∃ load, t = { s with requests := settle s.requests load, task := t.task } ∧ t.task.fetched = none := by
  simp only [step] at h
  split at h
  · rename_i stored htask
    cases h
    rw [htask]
    exact ⟨stored, rfl, initialize_loaded _, _, rfl, fetched_initialized _⟩
  · rename_i last stored htask
    cases h
    have hserves := hi.serves
    rw [htask] at hserves ⊢
    exact ⟨stored, rfl, tick_loaded hserves, _, rfl, fetched_ticked _ _⟩
  · cases h

/-- A hook runs on the runtime its request loaded, which has the hook. -/
theorem Inv.invoked (hi : Inv lib hookLib s) {r : Nat} {stage : Stage E} {invocation : Invocation M C}
    (hmem : .invoked r stage invocation ∈ s.requests.log) : ∃ start,
      .loaded r start invocation.runtime ∈ s.requests.log ∧
      ((invocation.hook = start.operation.hooks.1 ∧ (invocation.runtime.hooks start.operation).pre = true) ∨
        (invocation.hook = start.operation.hooks.2 ∧ (invocation.runtime.hooks start.operation).post = true)) := by
  cases stage with
  | pre =>
    obtain ⟨start, hloaded, hpre⟩ := hi.pre r invocation hmem
    exact ⟨start, hloaded, .inl hpre⟩
  | post response =>
    obtain ⟨newer, older, hlog⟩ := List.append_of_mem hmem
    have hsound := hi.requests.sound
    rw [hlog] at hsound
    obtain ⟨start, runtime, id, hloaded, -, hpost, rfl, hhook, -⟩ :
      Sound hookLib (.active (emptyRuntime lib)) (.invoked r (.post response) invocation) older := hsound.sound
    refine ⟨start, ?_, .inr ⟨hhook, hpost⟩⟩
    rw [hlog]
    exact List.mem_append_right _ (List.mem_cons_of_mem _ hloaded)

/-- A request that passes its `before_*` has loaded a runtime. -/
theorem Inv.loaded_of_passes (hi : Inv lib hookLib s) {label : Cpex.Label M C E} {r : Nat}
    (h : passes s.requests label = some r) : ∃ start runtime, .loaded r start runtime ∈ s.requests.log := by
  cases label with
  | enter r' =>
    simp only [passes] at h
    split at h
    · rename_i start runtime hphase
      split at h
      · cases h
        have hp := hi.requests.phase r
        rw [hphase] at hp
        exact ⟨start, runtime, hp.1⟩
      · cases h
    · cases h
  | preReturned r' result =>
    simp only [passes] at h
    split at h
    · rename_i start resume hphase
      split at h
      · cases h
        have hp := hi.requests.phase r
        rw [hphase] at hp
        obtain ⟨stage, invocation, hmem⟩ := busy_invoked hp.1
        obtain ⟨start, hloaded, -⟩ := hi.invoked hmem
        exact ⟨start, invocation.runtime, hloaded⟩
      · cases h
    · cases h
  | _ => cases h

/-- The start of a request is its first event, and it is refused only with a failed runtime in place. -/
theorem Inv.refusals_extends (hi : Inv lib hookLib s) {log : List (Event M C E)} (h : Extends s.requests log) :
    Machine.Justified (Refusal lib) log := by
  cases h with
  | start r start hfresh hstarted =>
    have huntouched := hi.requests.phase r
    rw [hfresh] at huntouched
    cases hstarted with
    | loaded runtime hactive hlog =>
      rw [hlog]
      exact ⟨huntouched, hi.refusals⟩
    | refused error hfailed hlog =>
      rw [hlog]
      exact ⟨⟨⟨error, by rw [← hi.requests.runtime, hfailed]⟩, huntouched⟩, hi.refusals⟩
  | later events hlog hemits =>
    rw [hlog]
    refine hi.refusals.append fun e he older => ?_
    have hemit := hemits e he
    cases e with
    | refused r => cases hemit
    | loaded r start runtime => cases hemit
    | _ => trivial

/-- A request that loads takes the runtime the watcher vouches for. -/
theorem Inv.loaded_extends (hi : Inv lib hookLib s) {last : Option (List UInt8)} {fetched : Option Stored}
    (htask : s.task = .serving last fetched) {log : List (Event M C E)} (h : Extends s.requests log) {r : Nat}
    {start : Start} {runtime : GatewayPluginRuntime M} (hmem : .loaded r start runtime ∈ log) :
    ∃ config, Documented lib s.held runtime config := by
  cases h with
  | start r' start' hfresh hstarted =>
    cases hstarted with
    | loaded runtime' hactive hlog =>
      rw [hlog] at hmem
      rcases List.mem_cons.mp hmem with hnew | hold
      · cases hnew
        have hserves := hi.serves
        rw [htask, hactive] at hserves
        obtain ⟨config, -, hdoc⟩ := hserves
        exact ⟨config, hdoc⟩
      · exact hi.loaded r start runtime hold
    | refused error hfailed hlog =>
      rw [hlog] at hmem
      rcases List.mem_cons.mp hmem with hnew | hold
      · cases hnew
      · exact hi.loaded r start runtime hold
  | later events hlog hemits =>
    rw [hlog] at hmem
    rcases List.mem_append.mp hmem with hnew | hold
    · cases hemits _ hnew
    · exact hi.loaded r start runtime hold

theorem Inv.request (hi : Inv lib hookLib s) {last : Option (List UInt8)} {fetched : Option Stored}
    (htask : s.task = .serving last fetched) {label : Cpex.Label M C E} (hlabel : ofRequest label = true)
    {requests : Cpex.State M C E} (h : Cpex.step hookLib s.requests label = some requests) :
    Inv lib hookLib { s with requests, passed := (passes s.requests label).toList ++ s.passed } := by
  obtain ⟨hruntime, hextends⟩ := request_extends hlabel h
  obtain ⟨events, hlog, hinvoked⟩ := hextends.append
  refine ⟨inv_step hi.requests h, hi.store, hi.fetched, ?_, fun _ _ _ => hi.loaded_extends htask hextends, ?_,
    hi.refusals_extends hextends, ?_, fun r hr => List.mem_append_right _ (hi.contacts r hr)⟩
  · dsimp only
    rw [hruntime]
    exact hi.serves
  · dsimp only
    intro r invocation hmem
    rw [hlog] at hmem ⊢
    rcases List.mem_append.mp hmem with hnew | hold
    · obtain ⟨start, hphase, hhook, hpre⟩ := hinvoked r invocation hnew
      have hloaded := hi.requests.phase r
      rw [hphase] at hloaded
      exact ⟨start, List.mem_append_right _ hloaded.1, hhook, hpre⟩
    · obtain ⟨start, hloaded, hhook, hpre⟩ := hi.pre r invocation hold
      exact ⟨start, List.mem_append_right _ hloaded, hhook, hpre⟩
  · intro r hr
    have hloaded : ∃ start runtime, .loaded r start runtime ∈ s.requests.log := by
      rcases List.mem_append.mp hr with hnew | hold
      · exact hi.loaded_of_passes (Option.mem_toList.mp hnew)
      · exact hi.passed r hold
    obtain ⟨start, runtime, hmem⟩ := hloaded
    refine ⟨start, runtime, ?_⟩
    dsimp only
    rw [hlog]
    exact List.mem_append_right _ hmem

theorem Serves.mono {held held' : List Stored} {runtime : RuntimeState M} {task : Task}
    (h : Serves lib held runtime task) (hheld : ∀ st ∈ held, st ∈ held') : Serves lib held' runtime task := by
  cases task with
  | serving last fetched => exact Current.mono h hheld
  | _ => trivial

/-- A step of a request is one of the requests' machine, while the gateway serves. -/
theorem step_request {label : Cpex.Label M C E} (h : step lib hookLib s (.request label) = some t) :
    ∃ last fetched requests, s.task = .serving last fetched ∧ ofRequest label = true ∧
      Cpex.step hookLib s.requests label = some requests ∧
      t = { s with requests, passed := (passes s.requests label).toList ++ s.passed } := by
  simp only [step] at h
  split at h
  · rename_i last fetched htask
    split at h
    · rename_i hlabel
      split at h
      · rename_i requests hstep
        cases h
        exact ⟨last, fetched, requests, htask, hlabel, hstep, rfl⟩
      · cases h
    · cases h
  · cases h

theorem process_step (hi : Inv lib hookLib s) {label : Label M C E W} (h : step lib hookLib s label = some t) :
    Inv lib hookLib t := by
  cases label with
  | fetch =>
    simp only [step] at h
    have hstore : ∀ stored, some s.store = some stored → stored ∈ s.held := by
      rintro stored ⟨⟩
      exact hi.store
    split at h
    · cases h
      exact ⟨hi.requests, hi.store, hstore, trivial, hi.loaded, hi.pre, hi.refusals, hi.passed, hi.contacts⟩
    · rename_i last htask
      cases h
      have hserves := hi.serves
      rw [htask] at hserves
      exact ⟨hi.requests, hi.store, hstore, hserves, hi.loaded, hi.pre, hi.refusals, hi.passed, hi.contacts⟩
    · cases h
  | finish world =>
    obtain ⟨stored, hstored, hloaded, load, ht, hfetched⟩ := finish_loaded hi h
    have hserves : Serves lib s.held t.requests.runtime t.task := by
      rcases hloaded.current (hi.fetched stored hstored) with htask | ⟨last, htask, hcurrent⟩
      · rw [htask]
        trivial
      · rw [htask]
        exact hcurrent
    rw [ht] at hserves ⊢
    exact hi.settle load hfetched hserves
  | request label =>
    obtain ⟨last, fetched, requests, htask, hlabel, hstep, rfl⟩ := step_request h
    exact hi.request htask hlabel hstep
  | contact r =>
    simp only [step] at h
    split at h
    · rename_i hpassed
      cases h
      exact { hi with contacts := List.forall_mem_cons.mpr ⟨hpassed, hi.contacts⟩ }
    · cases h
  | write stored =>
    cases h
    have hheld : ∀ st ∈ s.held, st ∈ stored :: s.held := fun st => List.mem_cons_of_mem stored
    refine ⟨hi.requests, List.mem_cons_self .., fun st hst => hheld st (hi.fetched st hst), hi.serves.mono hheld, ?_,
      hi.pre, hi.refusals, hi.passed, hi.contacts⟩
    intro r start runtime h
    obtain ⟨config, hdoc⟩ := hi.loaded r start runtime h
    exact ⟨config, hdoc.mono hheld⟩

theorem inv_run {store : Stored} {labels : List (Label M C E W)}
    (h : Machine.run (step lib hookLib) (init lib store) labels = some s) : Inv lib hookLib s :=
  Machine.run_invariant (fun hi hs => process_step hi hs) (inv_init store) h

end Invariant

/-! ## What every run shows -/

section Results

variable [Inhabited C] [DecidableEq V] {lib : LoadLib M W} {hookLib : HookLib V E} {s : State M C E}

/-- A refused request loads no runtime, runs no hook and contacts no backend. -/
theorem Inv.refused (hi : Inv lib hookLib s) {r : Nat} (hmem : .refused r ∈ s.requests.log) :
    (∀ start runtime, .loaded r start runtime ∉ s.requests.log) ∧
      (∀ stage invocation, .invoked r stage invocation ∉ s.requests.log) ∧ r ∉ s.contacts := by
  have hloaded : ∀ start runtime, .loaded r start runtime ∉ s.requests.log := by
    intro start runtime
    refine Machine.Justified.not_both (a := .refused r) (by simp) ?_ ?_ hi.refusals hmem
    · intro older hsound hold
      exact hsound.2 _ hold rfl
    · intro older hsound hold
      exact hsound _ hold rfl
  refine ⟨hloaded, ?_, ?_⟩
  · intro stage invocation hinvoked
    obtain ⟨start, hstart, -⟩ := hi.invoked hinvoked
    exact hloaded start _ hstart
  · intro hcontact
    obtain ⟨start, runtime, hstart⟩ := hi.passed r (hi.contacts r hcontact)
    exact hloaded start runtime hstart

end Results

end DataPlane.Gateway.Process
