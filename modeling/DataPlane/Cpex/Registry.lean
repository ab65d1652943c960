/-
The runtime registry: loading the plugin configuration from its store, publishing the outcome, and
the watcher that reloads it on a tick. The watcher skips a tick whose bytes are those it last
applied. Ticks converge as long as no skipped tick follows a manual load that failed or took another
document; every load that fails leaves the runtime failed.
-/
import DataPlane.Cpex.Runtime
import DataPlane.Lib.Machine

namespace DataPlane.Cpex

open DataPlane.Json

/-! ## Configuration -/

/-- `error::GatewayPluginRuntimeError`, less the sources it carries. -/
inductive GatewayPluginRuntimeError where
  | configuration (hook : String)
  | initialization
  | configStoreUnavailable
  | configWrongFormat
  | configMissing
  | configUnsupported
  | factoryRegistryShared
  deriving DecidableEq

/-- `GatewayPluginRuntimeError`'s `Display`. -/
def GatewayPluginRuntimeError.text : GatewayPluginRuntimeError → String
  | configuration hook => s!"failed to register runtime {hook} hook"
  | initialization => "failed to initialize plugin runtime"
  | configStoreUnavailable => "runtime plugin config store disconnected"
  | configWrongFormat => "runtime plugin config is in wrong format"
  | configMissing => "runtime plugin config is missing"
  | configUnsupported => "runtime plugin config is unsupported"
  | factoryRegistryShared => "runtime plugin factories are already shared"

/-- `plugin::PluginConfig`. -/
structure PluginConfig where
  name : String
  kind : String
  hooks : List String
  conditions : List Value
  config : Option Value

/-- `config::CpexConfig`, as far as the gateway reads it. -/
structure CpexConfig where
  routingEnabled : Bool
  failOnPluginError : Bool
  routes : List Value
  pluginDirs : List String
  policies : List Value
  defaults : List Value
  plugins : List PluginConfig

/-- `RuntimePluginConfigDocument`. -/
structure RuntimePluginConfigDocument where
  version : Nat
  cpex : CpexConfig

def Operation.all : List Operation := [.tool, .prompt, .resource]

/-- `supported_cmf_hook_name`. -/
def supportedCmfHookName (hook : String) : Option String :=
  (Operation.all.flatMap fun operation => [operation.hooks.1, operation.hooks.2]).find? (· == hook)

/-- `declares`. -/
def declares (config : CpexConfig) (hookName : String) : Bool :=
  config.plugins.any fun plugin => plugin.hooks.any (· == hookName)

/-- `validate_gateway_supported_config`. -/
def validateGatewaySupportedConfig (config : CpexConfig) : Except GatewayPluginRuntimeError Unit :=
  if config.routingEnabled || config.failOnPluginError || !config.routes.isEmpty || !config.pluginDirs.isEmpty ||
      !config.policies.isEmpty || !config.defaults.isEmpty then
    .error .configUnsupported
  else if config.plugins.any fun plugin =>
      !plugin.conditions.isEmpty || plugin.hooks.any fun hook => (supportedCmfHookName hook).isNone then
    .error .configUnsupported
  else .ok ()

/-- `RUNTIME_PLUGIN_CONFIG_VERSION`. -/
def runtimePluginConfigVersion : Nat := 1

/-- `cpex_config`. -/
def cpexConfig (document : RuntimePluginConfigDocument) : Except GatewayPluginRuntimeError CpexConfig :=
  if document.version ≠ runtimePluginConfigVersion then .error .configWrongFormat else .ok document.cpex

/-- What the loads take from `serde_json`, `rmp_serde` and the plugin manager. `W` is the choice of
the world at one load: whether a plugin can be created and initialized then. -/
structure LoadLib (M W : Type) where
  /-- `decode_config_document`: JSON or else MessagePack. -/
  decodeConfigDocument : List UInt8 → Option RuntimePluginConfigDocument
  /-- `PluginManager::from_config`. -/
  create : W → CpexConfig → Option M
  /-- `PluginManager::initialize`. -/
  initializeManager : W → M → Bool
  /-- `PluginManager::default`. -/
  empty : M

variable {M W : Type}

/-- `GatewayPluginRuntime::from_config`. -/
def LoadLib.fromConfig (lib : LoadLib M W) (world : W) (config : CpexConfig) :
    Except GatewayPluginRuntimeError (GatewayPluginRuntime M) := do
  validateGatewaySupportedConfig config
  let some manager := lib.create world config | throw (.configuration "config")
  if lib.initializeManager world manager then
    pure ⟨manager, fun operation => ⟨declares config operation.hooks.1, declares config operation.hooks.2⟩⟩
  else throw .initialization

/-! ## Loads -/

/-- What a read of the store finds. -/
inductive Stored where
  | unavailable
  | missing
  | bytes (config : List UInt8)
  deriving DecidableEq

/-- `LoadedRuntimePluginConfig`. -/
structure LoadedRuntimePluginConfig where
  document : RuntimePluginConfigDocument
  fingerprint : List UInt8

/-- `RuntimePluginConfigStore::get_config`. -/
def LoadLib.getConfig (lib : LoadLib M W) :
    Stored → Except GatewayPluginRuntimeError (Option LoadedRuntimePluginConfig)
  | .unavailable => .error .configStoreUnavailable
  | .missing => .ok none
  | .bytes config => match lib.decodeConfigDocument config with
    | some document => .ok (some ⟨document, config⟩)
    | none => .error .configWrongFormat

/-- `apply_runtime_config`: the runtime it publishes. -/
def LoadLib.applyRuntimeConfig (lib : LoadLib M W) (world : W) :
    Option CpexConfig → Except GatewayPluginRuntimeError (RuntimeState M)
  | none => .ok (.active ⟨lib.empty, fun _ => {}⟩)
  | some config => do
    let runtime ← lib.fromConfig world config
    .ok (.active runtime)

/-- The body of `reload_runtime`: the fingerprint and the runtime of a load that was not skipped. -/
def LoadLib.load (lib : LoadLib M W) (world : W) (store : Stored) (lastAppliedConfig : Option (List UInt8)) :
    Except GatewayPluginRuntimeError (Option (List UInt8 × RuntimeState M)) := do
  let some config ← lib.getConfig store | throw .configMissing
  if lastAppliedConfig = some config.fingerprint then
    pure none
  else
    let published ← lib.applyRuntimeConfig world (some (← cpexConfig config.document))
    pure (some (config.fingerprint, published))

/-- `reload_runtime`: its result and the published runtime. -/
def LoadLib.reloadRuntime (lib : LoadLib M W) (world : W) (store : Option Stored)
    (lastAppliedConfig : Option (List UInt8)) (runtime : RuntimeState M) :
    Except GatewayPluginRuntimeError (Option (List UInt8)) × RuntimeState M :=
  match store with
  | none => (.ok none, runtime)
  | some store => match lib.load world store lastAppliedConfig with
    | .error error => (.error error, .failed error.text)
    | .ok none => (.ok none, runtime)
    | .ok (some (fingerprint, published)) => (.ok (some fingerprint), published)

/-! ## The registry -/

/-- `CpexRuntimeRegistry`: the shared runtime, what its store holds, and the watcher's own
`last_applied_config` once it is started. -/
structure CpexRuntimeRegistry (M : Type) where
  runtime : RuntimeState M
  store : Option Stored
  watcher : Option (Option (List UInt8))

namespace CpexRuntimeRegistry

variable (lib : LoadLib M W) (world : W) (registry : CpexRuntimeRegistry M)

/-- `CpexRuntimeRegistry::reload`. -/
def reload : Except GatewayPluginRuntimeError Unit × CpexRuntimeRegistry M :=
  let (result, runtime) := lib.reloadRuntime world registry.store none registry.runtime
  (result.map fun _ => (), { registry with runtime })

/-- `start_config_watcher`. -/
def startConfigWatcher (initialConfig : Option (List UInt8)) : CpexRuntimeRegistry M :=
  match registry.store, registry.watcher with
  | some _, none => { registry with watcher := some initialConfig }
  | _, _ => registry

/-- `CpexRuntimeRegistry::initialize`. -/
def initializeRegistry : Except GatewayPluginRuntimeError Unit × CpexRuntimeRegistry M :=
  match lib.reloadRuntime world registry.store none registry.runtime with
  | (.error error, runtime) => (.error error, { registry with runtime })
  | (.ok initialConfig, runtime) => (.ok (), { registry with runtime }.startConfigWatcher initialConfig)

/-- One round of the watcher's loop, once it is started. -/
def tick (lastAppliedConfig : Option (List UInt8)) :
    Except GatewayPluginRuntimeError (Option (List UInt8)) × CpexRuntimeRegistry M :=
  match lib.reloadRuntime world registry.store lastAppliedConfig registry.runtime with
  | (.ok (some fingerprint), runtime) =>
    (.ok (some fingerprint), { registry with runtime, watcher := some (some fingerprint) })
  | (.ok none, runtime) => (.ok none, { registry with runtime })
  | (.error error, runtime) => (.error error, { registry with runtime, watcher := some none })

end CpexRuntimeRegistry

/-- A registry in a run, with the document the last load took; a failed load takes none, a skipped
tick is no load. -/
structure Watched (M : Type) where
  registry : CpexRuntimeRegistry M
  lastLoad : Option RuntimePluginConfigDocument

/-- `initialize`, `reload` and ticks run to completion; the store changes in between. -/
inductive RegistryLabel (W : Type) where
  | initializeRegistry (world : W)
  | reload (world : W)
  | tick (world : W)
  | write (stored : Stored)

namespace Watched

/-- `CpexRuntimeRegistry::with_redis_config`. -/
def init (lib : LoadLib M W) (store : Stored) : Watched M :=
  ⟨⟨.active ⟨lib.empty, fun _ => {}⟩, some store, none⟩, none⟩

/-- The document in the store. -/
def stored (lib : LoadLib M W) (s : Watched M) : Option RuntimePluginConfigDocument :=
  match s.registry.store with
  | some (.bytes config) => lib.decodeConfigDocument config
  | _ => none

def step (lib : LoadLib M W) (s : Watched M) : RegistryLabel W → Option (Watched M)
  | .initializeRegistry world =>
    let (result, registry) := s.registry.initializeRegistry lib world
    some ⟨registry, if result.isOk then s.stored lib else none⟩
  | .reload world =>
    let (result, registry) := s.registry.reload lib world
    some ⟨registry, if result.isOk then s.stored lib else none⟩
  | .tick world =>
    match s.registry.watcher with
    | none => none
    | some lastAppliedConfig =>
      match s.registry.tick lib world lastAppliedConfig with
      | (.ok none, registry) => some ⟨registry, s.lastLoad⟩
      | (.ok (some _), registry) => some ⟨registry, s.stored lib⟩
      | (.error _, registry) => some ⟨registry, none⟩
  | .write stored => some { s with registry := { s.registry with store := some stored } }

end Watched

/-! ## Convergence -/

/-- A runtime built from a document. -/
def BuiltFrom (lib : LoadLib M W) (document : RuntimePluginConfigDocument) (runtime : GatewayPluginRuntime M) : Prop :=
  ∃ config world, cpexConfig document = .ok config ∧ lib.fromConfig world config = .ok runtime

/-- A tick that ends without error leaves the runtime of the bytes it read; a tick or a reload that
ends in an error leaves the runtime failed. -/
def Converged (lib : LoadLib M W) (s : Watched M) : RegistryLabel W → Watched M → Prop
  | .tick world, t => ∀ lastAppliedConfig, s.registry.watcher = some lastAppliedConfig →
      match (s.registry.tick lib world lastAppliedConfig).1 with
      | .ok _ => ∃ config document runtime, s.registry.store = some (.bytes config) ∧
          lib.decodeConfigDocument config = some document ∧ t.registry.runtime.current = .ok runtime ∧
          BuiltFrom lib document runtime
      | .error _ => ∃ error, t.registry.runtime.current = .error error
  | .reload world, t => ∀ error, (s.registry.reload lib world).1 = .error error →
      ∃ error, t.registry.runtime.current = .error error
  | _, _ => True

/-- A tick that finds the bytes the watcher last applied comes after a load that took their
document. -/
def Undisturbed (lib : LoadLib M W) (s : Watched M) : RegistryLabel W → Prop
  | .tick _ => ∀ config, s.registry.watcher = some (some config) → s.registry.store = some (.bytes config) →
      s.lastLoad = lib.decodeConfigDocument config
  | _ => True

/-- A load fails, is skipped, or takes the document in the store. -/
theorem load_cases (lib : LoadLib M W) (world : W) (store : Stored) (last : Option (List UInt8)) :
    (∃ error, lib.load world store last = .error error) ∨
    ∃ config document, store = .bytes config ∧ lib.decodeConfigDocument config = some document ∧
      ((last = some config ∧ lib.load world store last = .ok none) ∨
        ∃ runtime, BuiltFrom lib document runtime ∧
          lib.load world store last = .ok (some (config, .active runtime))) := by
  cases store with
  | unavailable => exact .inl ⟨_, rfl⟩
  | missing => exact .inl ⟨_, rfl⟩
  | bytes config =>
    cases hd : lib.decodeConfigDocument config with
    | none => exact .inl ⟨.configWrongFormat, by simp only [LoadLib.load, LoadLib.getConfig, hd]; rfl⟩
    | some document =>
      have hload : lib.load world (.bytes config) last =
          if last = some config then .ok none else (cpexConfig document).bind fun cpex =>
            (lib.applyRuntimeConfig world (some cpex)).bind fun published => .ok (some (config, published)) := by
        simp only [LoadLib.load, LoadLib.getConfig, hd]; rfl
      rw [hload]
      split
      · rename_i hl
        exact .inr ⟨config, document, rfl, hd, .inl ⟨hl, rfl⟩⟩
      · cases hc : cpexConfig document with
        | error error => exact .inl ⟨error, rfl⟩
        | ok cpex =>
          cases hf : lib.fromConfig world cpex with
          | error error => exact .inl ⟨error, by simp only [LoadLib.applyRuntimeConfig, bind, Except.bind, hf]⟩
          | ok runtime =>
            refine .inr ⟨config, document, rfl, hd, .inr ⟨runtime, ⟨cpex, world, hc, hf⟩, ?_⟩⟩
            simp only [LoadLib.applyRuntimeConfig, bind, Except.bind, hf]

/-- What holds of a registry with a store along every run. -/
structure WatchInv (lib : LoadLib M W) (s : Watched M) : Prop where
  store : ∃ stored, s.registry.store = some stored
  lastLoad : ∀ document, s.lastLoad = some document →
    ∃ runtime, s.registry.runtime = .active runtime ∧ BuiltFrom lib document runtime
  applied : ∀ config, s.registry.watcher = some (some config) →
    ∃ document, lib.decodeConfigDocument config = some document

theorem watchInv_init (lib : LoadLib M W) (store : Stored) : WatchInv lib (Watched.init lib store) where
  store := ⟨store, rfl⟩
  lastLoad := by intro _ h; cases h
  applied := by intro _ h; cases h

/-- A load outside the watcher fails and leaves the runtime failed, or takes the stored document. -/
theorem reloadRuntime_none (lib : LoadLib M W) (world : W) (store : Stored) (runtime : RuntimeState M) :
    (∃ error text, lib.reloadRuntime world (some store) none runtime = (.error error, .failed text)) ∨
    ∃ config document built, store = .bytes config ∧ lib.decodeConfigDocument config = some document ∧
      BuiltFrom lib document built ∧
      lib.reloadRuntime world (some store) none runtime = (.ok (some config), .active built) := by
  obtain ⟨error, h⟩ | ⟨config, document, hs, hd, ⟨hl, -⟩ | ⟨built, hb, h⟩⟩ := load_cases lib world store none
  · exact .inl ⟨error, error.text, by simp only [LoadLib.reloadRuntime, h]⟩
  · cases hl
  · exact .inr ⟨config, document, built, hs, hd, hb, by simp only [LoadLib.reloadRuntime, h]⟩

section Steps

variable {lib : LoadLib M W} {s t : Watched M} {world : W}

theorem step_initialize (hi : WatchInv lib s) (h : s.step lib (.initializeRegistry world) = some t) :
    WatchInv lib t := by
  obtain ⟨⟨runtime, store, watcher⟩, lastLoad⟩ := s
  obtain ⟨stored, hstore⟩ := hi.store
  cases hstore
  obtain ⟨error, text, he⟩ | ⟨config, document, built, rfl, hd, hb, he⟩ :=
    reloadRuntime_none lib world stored runtime
  · simp only [Watched.step, CpexRuntimeRegistry.initializeRegistry, he, Except.isOk, Except.toBool, Bool.false_eq_true,
      if_false] at h
    cases h
    exact ⟨⟨stored, rfl⟩, (by intro _ h; cases h), hi.applied⟩
  · simp only [Watched.step, CpexRuntimeRegistry.initializeRegistry, he, Except.isOk, Except.toBool, if_true,
      Watched.stored, hd] at h
    cases h
    refine ⟨?_, ?_, ?_⟩
    · cases watcher <;> exact ⟨_, rfl⟩
    · rintro _ ⟨⟩
      cases watcher <;> exact ⟨built, rfl, hb⟩
    · intro applied ha
      cases watcher with
      | none => cases ha; exact ⟨document, hd⟩
      | some last => exact hi.applied applied ha

theorem step_reload (hi : WatchInv lib s) (h : s.step lib (.reload world) = some t) :
    Converged lib s (.reload world) t ∧ WatchInv lib t := by
  obtain ⟨⟨runtime, store, watcher⟩, lastLoad⟩ := s
  obtain ⟨stored, hstore⟩ := hi.store
  cases hstore
  obtain ⟨error, text, he⟩ | ⟨config, document, built, rfl, hd, hb, he⟩ :=
    reloadRuntime_none lib world stored runtime
  · simp only [Watched.step, CpexRuntimeRegistry.reload, he, Except.map, Except.isOk, Except.toBool,
      Bool.false_eq_true, if_false] at h
    cases h
    exact ⟨fun _ _ => ⟨_, rfl⟩, ⟨stored, rfl⟩, (by intro _ h; cases h), hi.applied⟩
  · simp only [Watched.step, CpexRuntimeRegistry.reload, he, Except.map, Except.isOk, Except.toBool, if_true,
      Watched.stored, hd] at h
    cases h
    refine ⟨?_, ⟨_, rfl⟩, ?_, hi.applied⟩
    · intro error herror
      simp only [CpexRuntimeRegistry.reload, he, Except.map] at herror
      cases herror
    · rintro _ ⟨⟩
      exact ⟨built, rfl, hb⟩

theorem step_tick (hi : WatchInv lib s) (hu : Undisturbed lib s (.tick world))
    (h : s.step lib (.tick world) = some t) : Converged lib s (.tick world) t ∧ WatchInv lib t := by
  obtain ⟨⟨runtime, store, watcher⟩, lastLoad⟩ := s
  obtain ⟨stored, hstore⟩ := hi.store
  cases hstore
  cases watcher with
  | none => cases h
  | some last =>
    obtain ⟨error, he⟩ | ⟨config, document, rfl, hd, ⟨rfl, he⟩ | ⟨built, hb, he⟩⟩ :=
      load_cases lib world stored last
    · simp only [Watched.step, CpexRuntimeRegistry.tick, LoadLib.reloadRuntime, he] at h
      cases h
      refine ⟨?_, ⟨stored, rfl⟩, (by intro _ h; cases h), (by intro _ h; cases h)⟩
      rintro _ ⟨⟩
      simp only [CpexRuntimeRegistry.tick, LoadLib.reloadRuntime, he]
      exact ⟨_, rfl⟩
    -- a skipped tick: the last load took the document of these bytes
    · simp only [Watched.step, CpexRuntimeRegistry.tick, LoadLib.reloadRuntime, he] at h
      cases h
      obtain ⟨built, hr, hb⟩ := hi.lastLoad document ((hu config rfl rfl).trans hd)
      refine ⟨?_, ⟨_, rfl⟩, hi.lastLoad, hi.applied⟩
      rintro _ ⟨⟩
      simp only [CpexRuntimeRegistry.tick, LoadLib.reloadRuntime, he]
      refine ⟨config, document, built, rfl, hd, ?_, hb⟩
      show runtime.current = .ok built
      rw [show runtime = .active built from hr]; rfl
    · simp only [Watched.step, CpexRuntimeRegistry.tick, LoadLib.reloadRuntime, he, Watched.stored, hd] at h
      cases h
      refine ⟨?_, ⟨_, rfl⟩, ?_, ?_⟩
      · rintro _ ⟨⟩
        simp only [CpexRuntimeRegistry.tick, LoadLib.reloadRuntime, he]
        exact ⟨config, document, built, rfl, hd, rfl, hb⟩
      · rintro _ ⟨⟩
        exact ⟨built, rfl, hb⟩
      · rintro _ ⟨⟩
        exact ⟨document, hd⟩

end Steps

/-- In every run in which no tick finds the bytes the watcher last applied after a load that failed
or took another document, every tick that ends without error leaves the runtime of the bytes it
read, and every tick or reload that ends in an error leaves the runtime failed. -/
theorem watcher_converges (lib : LoadLib M W) (store : Stored) (labels : List (RegistryLabel W))
    (h : Machine.Along (Watched.step lib) (fun s label _ => Undisturbed lib s label) (.init lib store) labels) :
    Machine.Along (Watched.step lib) (Converged lib) (.init lib store) labels := by
  refine Machine.Along.imp (fun {s label t} hi hu hstep => ?_) (watchInv_init lib store) h
  cases label with
  | initializeRegistry world => exact ⟨trivial, step_initialize hi hstep⟩
  | reload world => exact step_reload hi hstep
  | tick world => exact step_tick hi hu hstep
  | write stored =>
    cases hstep
    exact ⟨trivial, ⟨stored, rfl⟩, hi.lastLoad, hi.applied⟩

/-- Any non-empty text is a document with as many plugins as it has bytes, none of them hooked. -/
def countingLoadLib : LoadLib Nat Unit where
  decodeConfigDocument config := match config with
    | [] => none
    | _ => some ⟨1, ⟨false, false, [], [], [], [], config.map fun _ => ⟨"p", "k", [], [], none⟩⟩⟩
  create _ config := some config.plugins.length
  initializeManager _ _ := true
  empty := 0

/-- A document that is loaded, replaced and taken up by a reload, then by a tick. -/
def replacedDocument : List (RegistryLabel Unit) :=
  [.initializeRegistry (), .tick (), .write (.bytes [1, 2]), .reload (), .tick ()]

theorem watcher_converges_replaced :
    Machine.Along (Watched.step countingLoadLib) (Converged countingLoadLib)
      (.init countingLoadLib (.bytes [1])) replacedDocument := by
  apply watcher_converges
  rintro t₁ ⟨⟩
  refine ⟨trivial, ?_⟩
  rintro t₂ ⟨⟩
  refine ⟨by rintro _ ⟨⟩ ⟨⟩; rfl, ?_⟩
  rintro t₃ ⟨⟩
  refine ⟨trivial, ?_⟩
  rintro t₄ ⟨⟩
  refine ⟨trivial, ?_⟩
  rintro t₅ ⟨⟩
  exact ⟨by rintro _ ⟨⟩ ⟨⟩, trivial⟩

/-- A reload that fails while the store is away: when the same document is back, the tick is
skipped without error and the runtime stays failed. -/
theorem watcher_stays_failed : ¬ Machine.Along (Watched.step countingLoadLib) (Converged countingLoadLib)
    (.init countingLoadLib (.bytes [1]))
    [.initializeRegistry (), .write .unavailable, .reload (), .write (.bytes [1]), .tick ()] := by
  intro h
  obtain ⟨_, h⟩ := h _ rfl
  obtain ⟨_, h⟩ := h _ rfl
  obtain ⟨_, h⟩ := h _ rfl
  obtain ⟨_, h⟩ := h _ rfl
  obtain ⟨hc, _⟩ := h _ rfl
  obtain ⟨_, _, _, _, _, hcur, _⟩ := hc (some [1]) rfl
  cases hcur

end DataPlane.Cpex
