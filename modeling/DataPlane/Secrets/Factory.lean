/-
The plugin factories: for which of the hooks a plugin declares each of them returns a handler. The
gateway accepts the pre and post hooks of every operation. `CmfPluginFactory` registers all of these;
the factory of the secrets-detection plugin drops two of them without an error.
-/
import DataPlane.Cpex.Registry
import DataPlane.Secrets.Config

namespace DataPlane.Secrets

open DataPlane.Json DataPlane.Cpex

/-! ## Instances -/

/-- `PluginError::Config`, the one error of the factories. -/
structure PluginError where
  message : String
  deriving DecidableEq

/-- `PluginInstance`: a plugin and its handlers by hook. -/
structure PluginInstance (P H : Type) where
  plugin : P
  handlers : List (String × H)

/-- A factory's outcome leaves none of the hooks without a handler: the plugin is not created, or
each of them has one. -/
def Registers {P H : Type} (hooks : List String) : Except PluginError (PluginInstance P H) → Prop
  | .error _ => True
  | .ok created => ∀ hook ∈ hooks, ∃ handler, (hook, handler) ∈ created.handlers

/-! ## `CmfPluginFactory` -/

/-- `CmfPluginFactory`. -/
structure CmfPluginFactory (P : Type) where
  build : PluginConfig → P

/-- `CmfPluginFactory::create`: every handler is an adapter of the one plugin. -/
def CmfPluginFactory.create {P : Type} (factory : CmfPluginFactory P) (config : PluginConfig) :
    Except PluginError (PluginInstance P P) :=
  let plugin := factory.build config
  let handlers := (config.hooks.filterMap supportedCmfHookName).map fun hook => (hook, plugin)
  if handlers.isEmpty then .error ⟨s!"plugin '{config.name}' does not declare supported CMF hooks"⟩
  else .ok ⟨plugin, handlers⟩

theorem supportedCmfHookName_eq {hook name : String} (h : supportedCmfHookName hook = some name) : name = hook := by
  simpa using List.find?_some h

/-- The hooks an accepted configuration declares are supported. -/
theorem supported_of_accepted {config : CpexConfig} (haccepted : validateGatewaySupportedConfig config = .ok ())
    {plugin : PluginConfig} (hplugin : plugin ∈ config.plugins) {hook : String} (hhook : hook ∈ plugin.hooks) :
    supportedCmfHookName hook = some hook := by
  unfold validateGatewaySupportedConfig at haccepted
  split at haccepted
  · cases haccepted
  · split at haccepted
    · cases haccepted
    · rename_i hplugins
      have h := List.any_eq_false.mp (Bool.eq_false_of_not_eq_true hplugins) plugin hplugin
      rw [Bool.not_eq_true, Bool.or_eq_false_iff] at h
      have hsome := List.any_eq_false.mp h.2 hook hhook
      obtain ⟨name, hname⟩ := Option.ne_none_iff_exists'.mp fun hnone => hsome (Option.isNone_iff_eq_none.mpr hnone)
      rw [hname, supportedCmfHookName_eq hname]

theorem registers_cmf {P : Type} (factory : CmfPluginFactory P) {plugin : PluginConfig}
    (h : ∀ hook ∈ plugin.hooks, supportedCmfHookName hook = some hook) :
    Registers plugin.hooks (factory.create plugin) := by
  unfold CmfPluginFactory.create
  simp only
  split
  · exact trivial
  · intro hook hhook
    refine ⟨factory.build plugin, ?_⟩
    exact List.mem_map_of_mem (List.mem_filterMap.mpr ⟨hook, hhook, h hook hhook⟩)

/-! ## `SecretsDetectionFactory` -/

/-- `SecretsDetectionCore`. -/
structure SecretsDetectionCore where
  config : PluginConfig
  scannerConfig : SecretsDetectionConfig

variable (texts : ErrorTexts)

/-- `SecretsDetectionCore::new`. -/
def SecretsDetectionCore.new (config : PluginConfig) : Except ConfigError SecretsDetectionCore := do
  let scannerConfig ← SecretsDetectionConfig.fromValue texts config.config
  return ⟨config, scannerConfig⟩

/-- The stage `handler_for_hook` finds. -/
def stageForHook (hook : String) : Option Stage :=
  match hook with
  | "cmf.prompt_pre_fetch" => some .promptPreFetch
  | "cmf.tool_pre_invoke" => some .toolPreInvoke
  | "cmf.tool_post_invoke" => some .toolPostInvoke
  | "cmf.resource_post_fetch" => some .resourcePostFetch
  | _ => none

/-- `handler_for_hook`. -/
def handlerForHook (core : SecretsDetectionCore) (hook : String) : Option (String × StageHandler) := do
  let stage ← stageForHook hook
  return (hook, ⟨core.scannerConfig, stage⟩)

/-- `SecretsDetectionFactory::create`. -/
def SecretsDetectionFactory.create (config : PluginConfig) :
    Except PluginError (PluginInstance SecretsDetectionCore StageHandler) :=
  match SecretsDetectionCore.new texts config with
  | .error err => .error ⟨err.message⟩
  | .ok core => .ok ⟨core, config.hooks.filterMap (handlerForHook core)⟩

/-- Of the supported hooks two have no stage. -/
theorem stageForHook_isSome_iff {hook : String} (h : supportedCmfHookName hook = some hook) :
    (stageForHook hook).isSome ↔ hook ≠ "cmf.prompt_post_fetch" ∧ hook ≠ "cmf.resource_pre_fetch" := by
  have hmem := List.mem_of_find?_eq_some h
  simp only [Operation.all, Operation.hooks, List.flatMap_cons, List.flatMap_nil, List.cons_append, List.nil_append,
    List.mem_cons, List.not_mem_nil, or_false] at hmem
  obtain rfl | rfl | rfl | rfl | rfl | rfl := hmem <;> decide

theorem mem_handlers_iff (core : SecretsDetectionCore) (hooks : List String) (hook : String) :
    (∃ handler, (hook, handler) ∈ hooks.filterMap (handlerForHook core)) ↔
      hook ∈ hooks ∧ (stageForHook hook).isSome := by
  constructor
  · rintro ⟨handler, hmem⟩
    obtain ⟨hook', hhook, hhandler⟩ := List.mem_filterMap.mp hmem
    obtain ⟨stage, hstage, heq⟩ := Option.bind_eq_some_iff.mp hhandler
    cases heq
    exact ⟨hhook, Option.isSome_iff_exists.mpr ⟨stage, hstage⟩⟩
  · rintro ⟨hhook, hsome⟩
    obtain ⟨stage, hstage⟩ := Option.isSome_iff_exists.mp hsome
    refine ⟨⟨core.scannerConfig, stage⟩, List.mem_filterMap.mpr ⟨hook, hhook, ?_⟩⟩
    exact Option.bind_eq_some_iff.mpr ⟨stage, hstage, rfl⟩

theorem registers_secrets_iff {plugin : PluginConfig}
    (h : ∀ hook ∈ plugin.hooks, supportedCmfHookName hook = some hook) :
    Registers plugin.hooks (SecretsDetectionFactory.create texts plugin) ↔
      (∃ err, SecretsDetectionConfig.fromValue texts plugin.config = .error err) ∨
        "cmf.prompt_post_fetch" ∉ plugin.hooks ∧ "cmf.resource_pre_fetch" ∉ plugin.hooks := by
  unfold SecretsDetectionFactory.create SecretsDetectionCore.new
  rcases SecretsDetectionConfig.fromValue texts plugin.config with err | scannerConfig
  · exact ⟨fun _ => .inl ⟨err, rfl⟩, fun _ => trivial⟩
  · have hhandled := mem_handlers_iff ⟨plugin, scannerConfig⟩ plugin.hooks
    constructor
    · intro hregisters
      have hstage : ∀ hook ∈ plugin.hooks, (stageForHook hook).isSome = true :=
        fun hook hhook => ((hhandled hook).mp (hregisters hook hhook)).2
      exact .inr ⟨fun hhook => Bool.false_ne_true (hstage _ hhook), fun hhook => Bool.false_ne_true (hstage _ hhook)⟩
    · rintro (⟨err, hrefused⟩ | ⟨hprompt, hresource⟩) hook hhook
      · cases hrefused
      · refine (hhandled hook).mpr ⟨hhook, (stageForHook_isSome_iff (h hook hhook)).mpr ⟨?_, ?_⟩⟩
        · rintro rfl; exact hprompt hhook
        · rintro rfl; exact hresource hhook

/-- For a plugin of an accepted configuration both factories fail or return a handler for every hook
it declares, exactly when the secrets-detection configuration is refused or neither of the two hooks
without a stage is declared. -/
theorem factories_register_iff {P : Type} (factory : CmfPluginFactory P) (config : CpexConfig)
    (haccepted : validateGatewaySupportedConfig config = .ok ()) (plugin : PluginConfig)
    (hplugin : plugin ∈ config.plugins) :
    Registers plugin.hooks (factory.create plugin) ∧
        Registers plugin.hooks (SecretsDetectionFactory.create texts plugin) ↔
      (∃ err, SecretsDetectionConfig.fromValue texts plugin.config = .error err) ∨
        "cmf.prompt_post_fetch" ∉ plugin.hooks ∧ "cmf.resource_pre_fetch" ∉ plugin.hooks := by
  have hsupported : ∀ hook ∈ plugin.hooks, supportedCmfHookName hook = some hook :=
    fun hook hhook => supported_of_accepted haccepted hplugin hhook
  rw [registers_secrets_iff texts hsupported]
  exact and_iff_right (registers_cmf factory hsupported)

/-- A configuration with one plugin of the secrets-detection kind. -/
def secretsConfig (hooks : List String) : CpexConfig where
  routingEnabled := false
  failOnPluginError := false
  routes := []
  pluginDirs := []
  policies := []
  defaults := []
  plugins := [⟨"secrets-detection", "validator/secrets-detection", hooks, [], none⟩]

theorem factories_register_toolHooks :
    Registers ["cmf.tool_pre_invoke", "cmf.tool_post_invoke"] (SecretsDetectionFactory.create ⟨fun _ => "", id⟩
      ⟨"secrets-detection", "validator/secrets-detection", ["cmf.tool_pre_invoke", "cmf.tool_post_invoke"], [], none⟩) :=
  ((factories_register_iff ⟨fun _ => "", id⟩ (⟨fun _ => ()⟩ : CmfPluginFactory Unit)
    (secretsConfig ["cmf.tool_pre_invoke", "cmf.tool_post_invoke"]) rfl _ List.mem_cons_self).mpr
    (.inr ⟨by decide, by decide⟩)).2

/-- A plugin for the results of prompts is created without a handler for them. -/
theorem promptPostFetch_inert :
    validateGatewaySupportedConfig (secretsConfig ["cmf.prompt_post_fetch"]) = .ok () ∧
      ∃ plugin ∈ (secretsConfig ["cmf.prompt_post_fetch"]).plugins,
        ¬Registers plugin.hooks (SecretsDetectionFactory.create ⟨fun _ => "", id⟩ plugin) := by
  refine ⟨rfl, _, List.mem_cons_self, fun h => ?_⟩
  obtain ⟨handler, hmem⟩ := h "cmf.prompt_post_fetch" List.mem_cons_self
  exact List.not_mem_nil hmem

end DataPlane.Secrets
