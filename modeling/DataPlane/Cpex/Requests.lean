/-
Requests that run concurrently with reloads: request starts, progress events, final responses and
published load outcomes in any order, with arbitrary plugin pipelines. Each request stays on the
runtime and the correlation id its `before` took, and its context table passes from one invocation
to the next without a lost update.
-/
import DataPlane.Cpex.Runtime
import DataPlane.Lib.Machine

namespace DataPlane.Cpex

open DataPlane.Json

/-! ## Requests and responses -/

/-- What a request asks for: the arguments of its `before_*`. -/
inductive Start where
  | tool (request : CallToolRequestParams) (toolName backendName : String)
  | prompt (request : GetPromptRequestParams) (promptName backendName : String)
  | resource (resourceUri : String)

/-- What a post hook runs on; `E` is the type of progress and logging notifications. -/
inductive Response (E : Type) where
  | toolResult (response : CallToolResult)
  | toolEvent (event : E)
  | prompt (response : GetPromptResult)
  | resource (response : ReadResourceResult)

/-- The serializers the conversions use. -/
structure HookLib (V E : Type) where
  tool : ToolLib
  messageValue : Message → Option V
  eventToValue : E → Option Value
  eventFromValue : Value → Except String E
  base64 : Base64

variable {M C V E : Type} [DecidableEq V]

namespace Start

def operation : Start → Operation
  | tool .. => .tool
  | prompt .. => .prompt
  | resource _ => .resource

def name : Start → String
  | tool _ toolName _ => toolName
  | prompt _ promptName _ => promptName
  | resource resourceUri => resourceUri

/-- The request's `before_*`, of which later steps only see the call state. -/
def before [Inhabited C] (start : Start) (runtime : GatewayPluginRuntime M) (counter : UInt64) :
    Resumption M C (Except ErrorData (Option (CallState M C))) × UInt64 :=
  match start with
  | tool request toolName backendName =>
    let (task, counter) := beforeToolCall runtime request toolName backendName counter
    (task.map (·.map (·.state)), counter)
  | prompt request promptName backendName =>
    let (task, counter) := beforeGetPrompt runtime request promptName backendName counter
    (task.map (·.map (·.state)), counter)
  | resource resourceUri =>
    let (task, counter) := beforeReadResource runtime resourceUri counter
    (task.map (·.map (·.call)), counter)

end Start

namespace Response

def operation : Response E → Operation
  | toolResult _ => .tool
  | toolEvent _ => .tool
  | prompt _ => .prompt
  | resource _ => .resource

def toPayload (lib : HookLib V E) : Response E → String → String → Except ErrorData MessagePayload
  | toolResult response => (callToolResultCmf lib.tool).toPayload response
  | toolEvent event => (toolEventCmf lib.eventToValue lib.eventFromValue).toPayload event
  | prompt response => (getPromptResultCmf lib.messageValue).toPayload response
  | resource response => (readResourceResultCmf lib.base64).toPayload response

/-- `after_tool_call`, `after_stream_event`, `after_get_prompt` and `after_read_resource` on the
call state they hold. -/
def after (lib : HookLib V E) (state : CallState M C) :
    Response E → Resumption M C (Except ErrorData (Option (Response E)) × CallState M C)
  | toolResult response => (state.after (callToolResultCmf lib.tool) response).map
      fun (result, state) => (result.map (some ∘ toolResult), state)
  | toolEvent event => (state.afterStreamEvent (toolEventCmf lib.eventToValue lib.eventFromValue) event).map
      fun (result, state) => (result.map (·.map toolEvent), state)
  | prompt response => (state.after (getPromptResultCmf lib.messageValue) response).map
      fun (result, state) => (result.map (some ∘ prompt), state)
  | resource response => (state.after (readResourceResultCmf lib.base64) response).map
      fun (result, state) => (result.map (some ∘ resource), state)

end Response

/-! ## The machine -/

/-- Where a request stands. `opened` holds the call state with its lock free; `held` is a post
invocation that holds the lock. -/
inductive Phase (M C : Type) where
  | fresh
  | loaded (start : Start) (runtime : GatewayPluginRuntime M)
  | before (start : Start) (resume : PipelineResult C → Except ErrorData (Option (CallState M C)))
  | opened (operation : Operation) (state : CallState M C)
  | held (operation : Operation) (resume : PipelineResult C → CallState M C)
  | ended

inductive Stage (E : Type) where
  | pre
  | post (response : Response E)

inductive Event (M C E : Type) where
  | published (runtime : RuntimeState M)
  | refused (request : Nat)
  | loaded (request : Nat) (start : Start) (runtime : GatewayPluginRuntime M)
  | drawn (request : Nat) (id : String)
  | invoked (request : Nat) (stage : Stage E) (invocation : Invocation M C)
  | returned (request : Nat) (result : PipelineResult C)

structure State (M C E : Type) where
  runtime : RuntimeState M
  counter : UInt64
  phase : Nat → Phase M C
  log : List (Event M C E)

/-- `start` loads the current runtime, `enter` runs `before` up to its await, `post` is a post hook
that gets the state lock. The outcome of a load and the result of a pipeline are arbitrary. -/
inductive Label (M C E : Type) where
  | start (request : Nat) (start : Start)
  | enter (request : Nat)
  | preReturned (request : Nat) (result : PipelineResult C)
  | post (request : Nat) (response : Response E)
  | postReturned (request : Nat) (result : PipelineResult C)
  | reload (outcome : Except String (GatewayPluginRuntime M))
  | applyConfig (outcome : Except String (GatewayPluginRuntime M))

/-- Only tool calls share their state; a prompt or a resource gives it up to its one post hook. -/
def Phase.released (operation : Operation) (state : CallState M C) : Phase M C :=
  match operation with
  | .tool => .opened operation state
  | _ => .ended

def Phase.ofResult (operation : Operation) : Except ErrorData (Option (CallState M C)) → Phase M C
  | .ok (some state) => .opened operation state
  | _ => .ended

namespace State

/-- Requests start at 1, the initial value of `CORRELATION_ID`. -/
def init (runtime : RuntimeState M) : State M C E := ⟨runtime, 1, fun _ => .fresh, []⟩

/-- Move one request and record what happened, newest event first. -/
def move (s : State M C E) (r : Nat) (phase : Phase M C) (events : List (Event M C E)) : State M C E :=
  { s with phase := fun r' => if r' = r then phase else s.phase r', log := events ++ s.log }

def publish (s : State M C E) (runtime : RuntimeState M) : State M C E :=
  { s with runtime, log := .published runtime :: s.log }

end State

def step [Inhabited C] (lib : HookLib V E) (s : State M C E) : Label M C E → Option (State M C E)
  | .start r start =>
    match s.phase r, s.runtime.current with
    | .fresh, .ok runtime => some (s.move r (.loaded start runtime) [.loaded r start runtime])
    | .fresh, .error _ => some (s.move r .ended [.refused r])
    | _, _ => none
  | .enter r =>
    match s.phase r with
    | .loaded start runtime =>
      let (task, counter) := start.before (C := C) runtime s.counter
      let drawn := if counter = s.counter then [] else [.drawn r (correlationId start.operation s.counter)]
      match task with
      | .done result => some { s.move r (.ofResult start.operation result) drawn with counter }
      | .await invocation resume =>
        some { s.move r (.before start resume) (.invoked r .pre invocation :: drawn) with counter }
    | _ => none
  | .preReturned r result =>
    match s.phase r with
    | .before start resume => some (s.move r (.ofResult start.operation (resume result)) [.returned r result])
    | _ => none
  | .post r response =>
    match s.phase r with
    | .opened operation state =>
      if response.operation = operation then
        match response.after lib state with
        | .done (_, state) => some (s.move r (.released operation state) [])
        | .await invocation resume => some (s.move r (.held operation fun result => (resume result).2)
            [.invoked r (.post response) invocation])
      else none
    | _ => none
  | .postReturned r result =>
    match s.phase r with
    | .held operation resume => some (s.move r (.released operation (resume result)) [.returned r result])
    | _ => none
  | .reload (.ok runtime) => some (s.publish (.active runtime))
  | .reload (.error error) => some (s.publish (.failed error))
  | .applyConfig (.ok runtime) => some (s.publish (.active runtime))
  -- `apply_config` returns the error and leaves the runtime as it is
  | .applyConfig (.error _) => some s

/-! ## What one call does -/

/-- What `before` may do: nothing, draw an id for the post hook, or draw one and run the pre hook. -/
inductive Entry [Inhabited C] (runtime : GatewayPluginRuntime M) (operation : Operation) (name : String) (counter : UInt64) :
    Resumption M C (Except ErrorData (Option (CallState M C))) × UInt64 → Prop where
  | skipped : Entry runtime operation name counter (.done (.ok none), counter)
  | postOnly (post : (runtime.hooks operation).post = true) :
      Entry runtime operation name counter
        (.done (.ok (some ⟨runtime, default, name, correlationId operation counter⟩)), counter + 1)
  | pre (payload : MessagePayload) (resume : PipelineResult C → Except ErrorData (Option (CallState M C)))
      (resumes : ∀ result state, resume result = .ok (some state) → result.denied = false ∧
        (runtime.hooks operation).post = true ∧
        state = ⟨runtime, result.contextTable, name, correlationId operation counter⟩) :
      Entry runtime operation name counter
        (.await ⟨runtime, operation.hooks.1, payload, none⟩ resume, counter + 1)

theorem resumeBefore_eq_ok {U : Type} [Inhabited U] {runtime : GatewayPluginRuntime M} {operation : Operation}
    {name id : String} {update : MessagePayload → String → Except ErrorData U} {result : PipelineResult C}
    {edit : U} {state : CallState M C}
    (h : runtime.resumeBefore operation name id update result = .ok (edit, some state)) :
    result.denied = false ∧ (runtime.hooks operation).post = true ∧
      state = ⟨runtime, result.contextTable, name, id⟩ := by
  have hstate : ∀ st, runtime.callState operation name id result.contextTable = some st →
      (runtime.hooks operation).post = true ∧ st = ⟨runtime, result.contextTable, name, id⟩ := by
    intro st hs
    unfold GatewayPluginRuntime.callState at hs
    split at hs <;> cases hs
    exact ⟨‹_›, rfl⟩
  unfold GatewayPluginRuntime.resumeBefore at h
  split at h
  · cases h
  · refine ⟨by simpa using ‹¬ result.denied = true›, hstate state ?_⟩
    split at h
    · rename_i payload _
      cases hu : update payload id with
      | error error => rw [hu] at h; cases h
      | ok u =>
        rw [hu] at h
        exact (Prod.mk.inj (Except.ok.inj h)).2
    · exact (Prod.mk.inj (Except.ok.inj h)).2

theorem before_entry [Inhabited C] {U : Type} [Inhabited U] (runtime : GatewayPluginRuntime M) (operation : Operation)
    (name : String) (payload : String → MessagePayload) (update : MessagePayload → String → Except ErrorData U)
    (counter : UInt64) :
    Entry (C := C) runtime operation name counter
      ((runtime.before operation name payload update counter).1.map (Except.map Prod.snd),
        (runtime.before (C := C) operation name payload update counter).2) := by
  cases hpre : (runtime.hooks operation).pre with
  | true =>
    simp only [GatewayPluginRuntime.before, hpre, Bool.not_true, Bool.false_and, Bool.false_eq_true, if_false,
      if_true, Resumption.map]
    refine .pre _ _ fun result state h => ?_
    cases hr : runtime.resumeBefore operation name (correlationId operation counter) update result with
    | error error => rw [hr] at h; cases h
    | ok out =>
      rw [hr] at h
      obtain ⟨edit, st⟩ := out
      cases h
      exact resumeBefore_eq_ok hr
  | false =>
    cases hpost : (runtime.hooks operation).post with
    | true =>
      simp only [GatewayPluginRuntime.before, GatewayPluginRuntime.callState, hpre, hpost, Bool.not_true,
        Bool.and_false, Bool.false_eq_true, if_false, if_true, Resumption.map]
      exact .postOnly hpost
    | false =>
      simp only [GatewayPluginRuntime.before, hpre, hpost, Bool.not_false, Bool.and_self, if_true, Resumption.map]
      exact .skipped

theorem Start.before_entry [Inhabited C] (start : Start) (runtime : GatewayPluginRuntime M) (counter : UInt64) :
    Entry (C := C) runtime start.operation start.name counter (start.before runtime counter) := by
  cases start with
  | tool request toolName backendName =>
    simp only [Start.before, beforeToolCall, Resumption.map_map_except]
    apply DataPlane.Cpex.before_entry
  | prompt request promptName backendName =>
    simp only [Start.before, beforeGetPrompt, Resumption.map_map_except]
    apply DataPlane.Cpex.before_entry
  | resource resourceUri =>
    simp only [Start.before, beforeReadResource, Resumption.map_map_except]
    apply DataPlane.Cpex.before_entry

/-- What a post hook may do: refuse to project the response, or run on the pinned runtime with the
state's context table. -/
theorem Response.after_cases (lib : HookLib V E) (state : CallState M C) (response : Response E) :
    (∃ out, response.after lib state = .done (out, state)) ∨
    ∃ payload resume, response.toPayload lib state.name state.id = .ok payload ∧
      response.after lib state = .await
        ⟨state.runtime, response.operation.hooks.2, payload, some state.contextTable⟩ resume ∧
      ∀ result, (resume result).2 = state.resumed result := by
  cases response with
  | toolResult response =>
    obtain ⟨_, h⟩ | ⟨payload, hp, h⟩ := state.invoke_cases (callToolResultCmf lib.tool) response
    · exact .inl ⟨_, by simp only [after, CallState.after, h]; rfl⟩
    · exact .inr ⟨payload, _, hp, by simp only [after, CallState.after, h]; rfl, fun _ => rfl⟩
  | toolEvent event =>
    obtain ⟨_, h⟩ | ⟨payload, hp, h⟩ :=
      state.invoke_cases (toolEventCmf lib.eventToValue lib.eventFromValue) event
    · exact .inl ⟨_, by simp only [after, CallState.afterStreamEvent, h]; rfl⟩
    · exact .inr ⟨payload, _, hp, by simp only [after, CallState.afterStreamEvent, h]; rfl, fun _ => rfl⟩
  | prompt response =>
    obtain ⟨_, h⟩ | ⟨payload, hp, h⟩ := state.invoke_cases (getPromptResultCmf lib.messageValue) response
    · exact .inl ⟨_, by simp only [after, CallState.after, h]; rfl⟩
    · exact .inr ⟨payload, _, hp, by simp only [after, CallState.after, h]; rfl, fun _ => rfl⟩
  | resource response =>
    obtain ⟨_, h⟩ | ⟨payload, hp, h⟩ := state.invoke_cases (readResourceResultCmf lib.base64) response
    · exact .inl ⟨_, by simp only [after, CallState.after, h]; rfl⟩
    · exact .inr ⟨payload, _, hp, by simp only [after, CallState.after, h]; rfl, fun _ => rfl⟩

/-! ## Histories -/

/-- The request an event belongs to. -/
def Event.request : Event M C E → Option Nat
  | published _ => none
  | refused r => some r
  | loaded r _ _ => some r
  | drawn r _ => some r
  | invoked r _ _ => some r
  | returned r _ => some r

/-- The last published load outcome. -/
def lastPublished (first : RuntimeState M) : List (Event M C E) → RuntimeState M
  | [] => first
  | .published runtime :: _ => runtime
  | _ :: older => lastPublished first older

/-- The context table the last non-denied invocation of a request returned; empty before the first. -/
def lastContext [Inhabited C] (r : Nat) : List (Event M C E) → C
  | [] => default
  | .returned r' result :: older =>
    if r' = r ∧ result.denied = false then result.contextTable else lastContext r older
  | _ :: older => lastContext r older

/-- Whether an invocation of a request is running. -/
def busy (r : Nat) : List (Event M C E) → Bool
  | [] => false
  | .invoked r' _ _ :: older => if r' = r then true else busy r older
  | .returned r' _ :: older => if r' = r then false else busy r older
  | _ :: older => busy r older

/-- How many correlation ids were drawn. -/
def draws : List (Event M C E) → Nat
  | [] => 0
  | .drawn _ _ :: older => draws older + 1
  | _ :: older => draws older

def Untouched (r : Nat) (log : List (Event M C E)) : Prop := ∀ e ∈ log, e.request ≠ some r

/-- What an event tells about the events before it. -/
def Sound [Inhabited C] (lib : HookLib V E) (first : RuntimeState M) : Event M C E → List (Event M C E) → Prop
  | .loaded r _ runtime, older => lastPublished first older = .active runtime ∧ Untouched r older
  | .drawn r id, older => (∀ id', .drawn r id' ∉ older) ∧
      ∃ operation, id = correlationId operation (UInt64.ofNat (1 + draws older))
  | .invoked r (.post response) invocation, older => ∃ start runtime id,
      .loaded r start runtime ∈ older ∧ .drawn r id ∈ older ∧ (runtime.hooks start.operation).post = true ∧
      invocation.runtime = runtime ∧ invocation.hook = start.operation.hooks.2 ∧
      response.toPayload lib start.name id = .ok invocation.payload ∧
      invocation.contextTable = some (lastContext r older) ∧ busy r older = false
  | .returned r _, older => busy r older = true
  | _, _ => True

/-- A call state belongs to a request: its runtime, name and id are those of the request's `before`. -/
structure Pinned (log : List (Event M C E)) (r : Nat) (operation : Operation) (state : CallState M C) : Prop where
  loaded : ∃ start, .loaded r start state.runtime ∈ log ∧ start.operation = operation ∧ start.name = state.name
  drawn : .drawn r state.id ∈ log
  post : (state.runtime.hooks operation).post = true

/-- What the log knows about a request in each phase. -/
def PhaseInv [Inhabited C] (log : List (Event M C E)) (r : Nat) : Phase M C → Prop
  | .fresh => Untouched r log
  | .loaded start runtime => .loaded r start runtime ∈ log ∧ (∀ id, .drawn r id ∉ log) ∧ busy r log = false ∧
      lastContext r log = default
  | .before start resume => busy r log = true ∧ ∀ result state, resume result = .ok (some state) →
      result.denied = false ∧ Pinned log r start.operation state ∧ state.contextTable = result.contextTable
  | .opened operation state => Pinned log r operation state ∧ busy r log = false ∧
      lastContext r log = state.contextTable
  | .held operation resume => busy r log = true ∧ ∃ state, Pinned log r operation state ∧
      lastContext r log = state.contextTable ∧ ∀ result, resume result = state.resumed result
  | .ended => True

structure Inv [Inhabited C] (lib : HookLib V E) (first : RuntimeState M) (s : State M C E) : Prop where
  runtime : s.runtime = lastPublished first s.log
  counter : s.counter = UInt64.ofNat (1 + draws s.log)
  sound : Machine.Justified (Sound lib first) s.log
  phase : ∀ r, PhaseInv s.log r (s.phase r)

/-! ## Events of other requests -/

theorem lastPublished_append {first : RuntimeState M} : ∀ {events older : List (Event M C E)},
    (∀ e ∈ events, ∃ r, e.request = some r) → lastPublished first (events ++ older) = lastPublished first older
  | [], _, _ => rfl
  | e :: events, older, h => by
    have ih : lastPublished first (events ++ older) = lastPublished first older :=
      lastPublished_append fun e he => h e (List.mem_cons_of_mem _ he)
    cases e with
    | published _ => obtain ⟨_, hr⟩ := h _ (List.mem_cons_self ..); cases hr
    | _ => exact ih

theorem busy_cons_ne {r : Nat} {e : Event M C E} {older : List (Event M C E)} (h : e.request ≠ some r) :
    busy r (e :: older) = busy r older := by
  cases e with
  | invoked r' _ _ => exact if_neg fun hr => h (congrArg some hr)
  | returned r' _ => exact if_neg fun hr => h (congrArg some hr)
  | _ => rfl

theorem lastContext_cons_ne [Inhabited C] {r : Nat} {e : Event M C E} {older : List (Event M C E)}
    (h : e.request ≠ some r) : lastContext r (e :: older) = lastContext r older := by
  cases e with
  | returned r' _ => exact if_neg fun hr => h (congrArg some hr.1)
  | _ => rfl

theorem Pinned.mono {log log' : List (Event M C E)} {r : Nat} {operation : Operation} {state : CallState M C}
    (h : Pinned log r operation state) (hsub : ∀ e ∈ log, e ∈ log') : Pinned log' r operation state := by
  obtain ⟨⟨start, hl, hs⟩, hd, hp⟩ := h
  exact ⟨⟨start, hsub _ hl, hs⟩, hsub _ hd, hp⟩

theorem PhaseInv.cons_ne [Inhabited C] {r : Nat} {e : Event M C E} {log : List (Event M C E)}
    (h : e.request ≠ some r) : ∀ {phase : Phase M C}, PhaseInv log r phase → PhaseInv (e :: log) r phase := by
  have hsub : ∀ e' ∈ log, e' ∈ e :: log := fun _ => List.mem_cons_of_mem _
  intro phase hp
  cases phase with
  | fresh =>
    intro e' he'
    rcases List.mem_cons.mp he' with rfl | he'
    · exact h
    · exact hp e' he'
  | loaded start runtime =>
    obtain ⟨hl, hd, hb, hc⟩ := hp
    refine ⟨hsub _ hl, ?_, by rw [busy_cons_ne h, hb], by rw [lastContext_cons_ne h, hc]⟩
    intro id hid
    rcases List.mem_cons.mp hid with rfl | hid
    · exact h rfl
    · exact hd id hid
  | before start resume =>
    refine ⟨by rw [busy_cons_ne h]; exact hp.1, fun result state hr => ?_⟩
    obtain ⟨hd, hpin, hc⟩ := hp.2 result state hr
    exact ⟨hd, hpin.mono hsub, hc⟩
  | opened operation state =>
    obtain ⟨hpin, hb, hc⟩ := hp
    exact ⟨hpin.mono hsub, by rw [busy_cons_ne h, hb], by rw [lastContext_cons_ne h, hc]⟩
  | held operation resume =>
    obtain ⟨hb, state, hpin, hc, hr⟩ := hp
    exact ⟨by rw [busy_cons_ne h, hb], state, hpin.mono hsub, by rw [lastContext_cons_ne h, hc], hr⟩
  | ended => trivial

theorem PhaseInv.append_ne [Inhabited C] {r : Nat} {log : List (Event M C E)} {phase : Phase M C}
    (hp : PhaseInv log r phase) : ∀ {events : List (Event M C E)}, (∀ e ∈ events, e.request ≠ some r) →
      PhaseInv (events ++ log) r phase
  | [], _ => hp
  | e :: events, h => by
    apply PhaseInv.cons_ne (h e (List.mem_cons_self ..))
    exact append_ne hp fun e he => h e (List.mem_cons_of_mem _ he)

/-- Moving one request keeps the invariant when the new events are sound, belong to it and leave
it in a phase the log accounts for. -/
theorem Inv.move [Inhabited C] {lib : HookLib V E} {first : RuntimeState M} {s : State M C E} {r : Nat}
    {phase : Phase M C} {events : List (Event M C E)} {counter : UInt64} (hi : Inv lib first s)
    (hown : ∀ e ∈ events, e.request = some r)
    (hcounter : counter = UInt64.ofNat (1 + draws (events ++ s.log)))
    (hsound : Machine.Justified (Sound lib first) (events ++ s.log))
    (hphase : PhaseInv (events ++ s.log) r phase) :
    Inv lib first { s.move r phase events with counter } where
  runtime := by
    show s.runtime = lastPublished first (events ++ s.log)
    rw [lastPublished_append fun e he => ⟨r, hown e he⟩, hi.runtime]
  counter := hcounter
  sound := hsound
  phase r' := by
    show PhaseInv (events ++ s.log) r' (if r' = r then phase else s.phase r')
    split
    · rename_i h; rw [h]; exact hphase
    · rename_i hne
      refine (hi.phase r').append_ne fun e he => ?_
      rw [hown e he]
      intro h; exact hne (Option.some.inj h).symm

/-! ## Every step keeps the invariant -/

section Steps

variable [Inhabited C] {lib : HookLib V E} {first : RuntimeState M} {s t : State M C E} {r : Nat}

omit [Inhabited C] in
theorem busy_untouched : ∀ {log : List (Event M C E)}, Untouched r log → busy r log = false
  | [], _ => rfl
  | e :: older, h => by
    rw [busy_cons_ne (h e (List.mem_cons_self ..))]
    exact busy_untouched fun e he => h e (List.mem_cons_of_mem _ he)

theorem lastContext_untouched : ∀ {log : List (Event M C E)}, Untouched r log → lastContext r log = default
  | [], _ => rfl
  | e :: older, h => by
    rw [lastContext_cons_ne (h e (List.mem_cons_self ..))]
    exact lastContext_untouched fun e he => h e (List.mem_cons_of_mem _ he)

theorem PhaseInv.released {log : List (Event M C E)} {operation : Operation} {state : CallState M C}
    (h : PhaseInv log r (.opened operation state)) : PhaseInv log r (.released operation state) := by
  cases operation with
  | tool => exact h
  | prompt => trivial
  | resource => trivial

theorem succ_ne_self (n : UInt64) : n + 1 ≠ n := by
  intro h
  have := congrArg UInt64.toNat h
  have := n.toNat_lt
  rw [UInt64.toNat_add] at *
  simp at *

theorem counter_succ {n : UInt64} {d : Nat} (h : n = UInt64.ofNat (1 + d)) :
    n + 1 = UInt64.ofNat (1 + (d + 1)) := by
  rw [h, ← Nat.add_assoc, UInt64.ofNat_add (1 + d) 1]; rfl

theorem inv_start (hi : Inv lib first s) {start : Start} (h : step lib s (.start r start) = some t) :
    Inv lib first t := by
  have hp := hi.phase r
  simp only [step] at h
  split at h
  · rename_i runtime hf hcur
    cases h
    rw [hf] at hp
    have hact : s.runtime = .active runtime := by
      cases hr : s.runtime with
      | active _ => rw [hr] at hcur; cases hcur; rfl
      | failed _ => rw [hr] at hcur; cases hcur
    have hb : busy r s.log = false := busy_untouched hp
    have hc : lastContext r s.log = default := lastContext_untouched hp
    refine hi.move (by simp [Event.request]) hi.counter ?_ ?_
    · exact ⟨⟨hi.runtime.symm.trans hact, hp⟩, hi.sound⟩
    · refine ⟨List.mem_cons_self .., ?_, hb, hc⟩
      intro id hid
      rcases List.mem_cons.mp hid with h | h
      · cases h
      · exact hp _ h rfl
  · cases h
    refine hi.move (by simp [Event.request]) hi.counter ?_ trivial
    exact ⟨trivial, hi.sound⟩
  · cases h

theorem inv_enter (hi : Inv lib first s) (h : step lib s (.enter r) = some t) : Inv lib first t := by
  have hp := hi.phase r
  simp only [step] at h
  split at h
  · rename_i start runtime hph
    rw [hph] at hp
    obtain ⟨hl, hd, hb, hc⟩ := hp
    have entry := start.before_entry (C := C) runtime s.counter
    generalize start.before (C := C) runtime s.counter = out at entry h
    have hsound : Sound lib first (.drawn r (correlationId start.operation s.counter)) s.log :=
      ⟨hd, start.operation, by rw [hi.counter]⟩
    cases entry with
    | skipped =>
      simp only [if_true] at h
      cases h
      exact hi.move (by simp) hi.counter hi.sound trivial
    | postOnly hpost =>
      simp only [succ_ne_self, if_false] at h
      cases h
      refine hi.move (by simp [Event.request]) (counter_succ hi.counter) ?_ ?_
      · exact ⟨hsound, hi.sound⟩
      · exact ⟨⟨⟨start, List.mem_cons_of_mem _ hl, rfl, rfl⟩, List.mem_cons_self .., hpost⟩, hb, hc⟩
    | pre payload resume resumes =>
      simp only [succ_ne_self, if_false] at h
      cases h
      refine hi.move (by simp [Event.request]) (counter_succ hi.counter) ?_ ?_
      · exact ⟨trivial, hsound, hi.sound⟩
      · refine ⟨if_pos rfl, fun result state hr => ?_⟩
        obtain ⟨hden, hpost, rfl⟩ := resumes result state hr
        refine ⟨hden, ⟨⟨start, ?_, rfl, rfl⟩, ?_, hpost⟩, rfl⟩
        · exact List.mem_append_right _ hl
        · exact List.mem_append_left _ (List.mem_cons_of_mem _ (List.mem_cons_self ..))
  · cases h

theorem inv_preReturned (hi : Inv lib first s) {result : PipelineResult C}
    (h : step lib s (.preReturned r result) = some t) : Inv lib first t := by
  have hp := hi.phase r
  simp only [step] at h
  split at h
  · rename_i start resume hph
    cases h
    rw [hph] at hp
    obtain ⟨hb, hr⟩ := hp
    refine hi.move (by simp [Event.request]) hi.counter ?_ ?_
    · exact ⟨hb, hi.sound⟩
    unfold Phase.ofResult
    split
    · rename_i state hres
      obtain ⟨hden, hpin, hc⟩ := hr result state hres
      exact ⟨hpin.mono fun _ => List.mem_cons_of_mem _, if_pos rfl, (if_pos ⟨rfl, hden⟩).trans hc.symm⟩
    · trivial
  · cases h

theorem inv_post (hi : Inv lib first s) {response : Response E} (h : step lib s (.post r response) = some t) :
    Inv lib first t := by
  have hp := hi.phase r
  simp only [step] at h
  split at h
  · rename_i operation state hph
    rw [hph] at hp
    split at h
    · rename_i hop
      obtain ⟨out, hout⟩ | ⟨payload, resume, hpay, hout, hres⟩ := response.after_cases lib state
      · rw [hout] at h
        cases h
        exact hi.move (by simp) hi.counter hi.sound hp.released
      · rw [hout] at h
        cases h
        obtain ⟨hpin, hb, hc⟩ := hp
        obtain ⟨start, hl, hso, hsn⟩ := hpin.loaded
        refine hi.move (by simp [Event.request]) hi.counter ?_ ?_
        · refine ⟨⟨start, state.runtime, state.id, hl, hpin.drawn, ?_, rfl, ?_, ?_, ?_, hb⟩, hi.sound⟩
          · rw [hso]; exact hpin.post
          · rw [hso, ← hop]
          · rw [hsn]; exact hpay
          · exact congrArg some hc.symm
        · exact ⟨if_pos rfl, state, hpin.mono fun _ => List.mem_cons_of_mem _, hc, hres⟩
    · cases h
  · cases h

theorem inv_postReturned (hi : Inv lib first s) {result : PipelineResult C}
    (h : step lib s (.postReturned r result) = some t) : Inv lib first t := by
  have hp := hi.phase r
  simp only [step] at h
  split at h
  · rename_i operation resume hph
    cases h
    rw [hph] at hp
    obtain ⟨hb, state, hpin, hc, hres⟩ := hp
    refine hi.move (by simp [Event.request]) hi.counter ?_ ?_
    · exact ⟨hb, hi.sound⟩
    apply PhaseInv.released
    have hpin' := hpin.mono fun e he => List.mem_cons_of_mem (.returned r result) he
    rw [hres]
    unfold CallState.resumed
    -- a denied invocation leaves the context table, any other replaces it
    split
    · rename_i hden
      exact ⟨hpin', if_pos rfl, (if_neg (by simp [hden])).trans hc⟩
    · rename_i hden
      refine ⟨⟨hpin'.loaded, hpin'.drawn, hpin'.post⟩, if_pos rfl, if_pos ⟨rfl, by simpa using hden⟩⟩
  · cases h

theorem inv_publish (hi : Inv lib first s) (runtime : RuntimeState M) : Inv lib first (s.publish runtime) where
  runtime := rfl
  counter := hi.counter
  sound := ⟨trivial, hi.sound⟩
  phase r := (hi.phase r).cons_ne (by simp [Event.request])

theorem inv_step (hi : Inv lib first s) {label : Label M C E} (h : step lib s label = some t) : Inv lib first t := by
  cases label with
  | start r start => exact inv_start hi h
  | enter r => exact inv_enter hi h
  | preReturned r result => exact inv_preReturned hi h
  | post r response => exact inv_post hi h
  | postReturned r result => exact inv_postReturned hi h
  | reload outcome =>
    cases outcome <;> cases h <;> exact inv_publish hi _
  | applyConfig outcome =>
    cases outcome with
    | ok runtime => cases h; exact inv_publish hi _
    | error error => cases h; exact hi

theorem inv_init : Inv lib first (State.init first : State M C E) where
  runtime := rfl
  counter := rfl
  sound := trivial
  phase r := by intro e he; cases he

theorem inv_run {labels : List (Label M C E)} (h : Machine.run (step lib) (State.init first) labels = some s) :
    Inv lib first s :=
  Machine.run_invariant (fun hi hs => inv_step hi hs) inv_init h

end Steps

/-! ## What every run shows -/

theorem correlationId_toList (operation : Operation) (n : UInt64) :
    (correlationId operation n).toList = operation.idPrefix.toList ++ '-' :: natText n.toNat := by
  simp [correlationId, natText, Nat.repr]; rfl

theorem idPrefix_append_inj {operation operation' : Operation} {a b : List Char}
    (h : operation.idPrefix.toList ++ a = operation'.idPrefix.toList ++ b) : a = b := by
  cases operation <;> cases operation' <;> simp [Operation.idPrefix] at h <;> exact h

theorem correlationId_inj {operation operation' : Operation} {n n' : UInt64}
    (h : correlationId operation n = correlationId operation' n') : n = n' := by
  have h' := congrArg String.toList h
  rw [correlationId_toList, correlationId_toList] at h'
  have hd := congrArg Decimal.val (List.cons.inj (idPrefix_append_inj h')).2
  rw [val_natText, val_natText] at hd
  exact UInt64.toNat_inj.mp hd

theorem ofNat_ne {a b : Nat} (hlt : b < a) (ha : a < 2 ^ 64) : UInt64.ofNat (1 + a) ≠ UInt64.ofNat (1 + b) := by
  intro h
  have := congrArg UInt64.toNat h
  rw [UInt64.toNat_ofNat', UInt64.toNat_ofNat'] at this
  omega

section Runs

variable [Inhabited C] {lib : HookLib V E} {first : RuntimeState M}

open Machine in
/-- A request loads a runtime at most once. -/
theorem loaded_unique {r : Nat} {start start' : Start} {runtime runtime' : GatewayPluginRuntime M} :
    ∀ {log : List (Event M C E)}, Justified (Sound lib first) log → .loaded r start runtime ∈ log →
      .loaded r start' runtime' ∈ log → start = start' ∧ runtime = runtime'
  | e :: older, hj, h, h' => by
    rcases List.mem_cons.mp h with rfl | hm <;> rcases List.mem_cons.mp h' with he | hm'
    · cases he; exact ⟨rfl, rfl⟩
    · exact absurd rfl (hj.1.2 _ hm')
    · subst he; exact absurd rfl (hj.1.2 _ hm)
    · exact loaded_unique hj.2 hm hm'

open Machine in
/-- A request draws at most one correlation id. -/
theorem drawn_unique {r : Nat} {id id' : String} : ∀ {log : List (Event M C E)}, Justified (Sound lib first) log →
    .drawn r id ∈ log → .drawn r id' ∈ log → id = id'
  | e :: older, hj, h, h' => by
    rcases List.mem_cons.mp h with rfl | hm <;> rcases List.mem_cons.mp h' with he | hm'
    · cases he; rfl
    · exact absurd hm' (hj.1.1 _)
    · subst he; exact absurd hm (hj.1.1 _)
    · exact drawn_unique hj.2 hm hm'

open Machine in
/-- The id of a draw is made from the number of draws before it. -/
theorem drawn_eq {r : Nat} {id : String} : ∀ {log : List (Event M C E)}, Justified (Sound lib first) log →
    .drawn r id ∈ log → ∃ operation n, n < draws log ∧ id = correlationId operation (UInt64.ofNat (1 + n))
  | e :: older, hj, h => by
    rcases List.mem_cons.mp h with rfl | h
    · obtain ⟨operation, hid⟩ := hj.1.2
      exact ⟨operation, draws older, Nat.lt_succ_self _, hid⟩
    · obtain ⟨operation, n, hn, hid⟩ := drawn_eq hj.2 h
      refine ⟨operation, n, ?_, hid⟩
      cases e with
      | drawn _ _ => exact Nat.lt_succ_of_lt hn
      | _ => exact hn

open Machine in
/-- While the counter has not wrapped, two requests have two ids. -/
theorem drawn_ne {r r' : Nat} {id id' : String} (hne : r ≠ r') : ∀ {log : List (Event M C E)},
    Justified (Sound lib first) log → draws log < 2 ^ 64 → .drawn r id ∈ log → .drawn r' id' ∈ log → id ≠ id'
  | e :: older, hj, hlt, h, h' => by
    have hle : draws older ≤ draws (e :: older) := by cases e <;> simp [draws]
    -- a draw and any earlier one: the counter stood at two different values
    have hdiff : ∀ {q q' : Nat} {i i' : String}, e = .drawn q i → .drawn q' i' ∈ older → i ≠ i' := by
      rintro q q' i i' rfl hq' rfl
      obtain ⟨operation, hid⟩ := hj.1.2
      obtain ⟨operation', n, hn, hid'⟩ := drawn_eq hj.2 hq'
      exact ofNat_ne hn (by omega) (correlationId_inj (hid.symm.trans hid'))
    rcases List.mem_cons.mp h with he | h <;> rcases List.mem_cons.mp h' with he' | h'
    · rw [← he] at he'; cases he'; exact absurd rfl hne
    · exact hdiff he.symm h'
    · exact (hdiff he'.symm h).symm
    · exact drawn_ne hne hj.2 (by omega) h h'

open Machine in
/-- A post hook runs on the runtime that was current when its request's `before` loaded it. -/
theorem invoked_pinned {r : Nat} {response : Response E} {invocation : Invocation M C}
    {older : List (Event M C E)} (hs : Sound lib first (.invoked r (.post response) invocation) older)
    (hj : Justified (Sound lib first) older) :
    ∃ start runtime id mid before, older = mid ++ .loaded r start runtime :: before ∧
      lastPublished first before = .active runtime ∧ .drawn r id ∈ mid ∧ invocation.runtime = runtime ∧
      response.toPayload lib start.name id = .ok invocation.payload := by
  obtain ⟨start, runtime, id, hl, hd, -, hr, -, hp, -⟩ := hs
  obtain ⟨mid, before, rfl⟩ := List.append_of_mem hl
  obtain ⟨hpub, hun⟩ : Sound lib first (.loaded r start runtime) before := hj.sound
  refine ⟨start, runtime, id, mid, before, rfl, hpub, ?_, hr, hp⟩
  -- nothing of the request is older than its load
  rcases List.mem_append.mp hd with hd | hd
  · exact hd
  · rcases List.mem_cons.mp hd with hd | hd
    · cases hd
    · exact absurd rfl (hun _ hd)

open Machine in
/-- Along every interleaving of request starts, progress events, final responses and published load
outcomes:
every post hook of a request runs on the runtime that was current when its `before` loaded it, with
the one correlation id drawn there, and ids of distinct requests are distinct while fewer than 2^64
were drawn; a request whose runtime has no post hook never runs one; every post hook is given the
context table of the request's last non-denied invocation, with no other invocation of the request
running; and no request loads a runtime while the last published outcome is a failure. -/
theorem requests_pinned {labels : List (Label M C E)} {s : State M C E}
    (h : run (step lib) (State.init first) labels = some s) :
    (∀ newer r response invocation older, s.log = newer ++ .invoked r (.post response) invocation :: older →
      ∃ start runtime id mid before, older = mid ++ .loaded r start runtime :: before ∧
        lastPublished first before = .active runtime ∧ .drawn r id ∈ mid ∧ invocation.runtime = runtime ∧
        response.toPayload lib start.name id = .ok invocation.payload ∧
        (∀ start' runtime', .loaded r start' runtime' ∈ s.log → start' = start ∧ runtime' = runtime) ∧
        ∀ id', .drawn r id' ∈ s.log → id' = id) ∧
    (draws s.log < 2 ^ 64 → ∀ r r' id id', r ≠ r' → .drawn r id ∈ s.log → .drawn r' id' ∈ s.log → id ≠ id') ∧
    (∀ r start runtime response invocation, .loaded r start runtime ∈ s.log →
      (runtime.hooks start.operation).post = false → .invoked r (.post response) invocation ∉ s.log) ∧
    (∀ newer r response invocation older, s.log = newer ++ .invoked r (.post response) invocation :: older →
      invocation.contextTable = some (lastContext r older) ∧ busy r older = false) ∧
    (∀ newer r start runtime older, s.log = newer ++ .loaded r start runtime :: older →
      lastPublished first older = .active runtime) := by
  have hj := (inv_run h).sound
  refine ⟨?_, ?_, ?_, ?_, ?_⟩
  · intro newer r response invocation older hlog
    rw [hlog] at hj
    obtain ⟨start, runtime, id, mid, before, rfl, hpub, hd, hr, hp⟩ := invoked_pinned hj.sound hj.older.2
    rw [hlog]
    refine ⟨start, runtime, id, mid, before, rfl, hpub, hd, hr, hp, ?_, ?_⟩
    · intro start' runtime' hl
      exact loaded_unique hj hl (by simp)
    · intro id' hd'
      exact drawn_unique hj hd' (by simp [hd])
  · intro hlt r r' id id' hne hd hd'
    exact drawn_ne hne hj hlt hd hd'
  · intro r start runtime response invocation hl hpost hinv
    obtain ⟨newer, older, hlog⟩ := List.append_of_mem hinv
    rw [hlog] at hj hl
    obtain ⟨start', runtime', id, hl', -, hpost', -⟩ :
      Sound lib first (.invoked r (.post response) invocation) older := hj.sound
    obtain ⟨rfl, rfl⟩ := loaded_unique hj hl (List.mem_append_right newer (List.mem_cons_of_mem _ hl'))
    rw [hpost] at hpost'
    cases hpost'
  · intro newer r response invocation older hlog
    rw [hlog] at hj
    obtain ⟨_, _, _, -, -, -, -, -, -, hc, hb⟩ :
      Sound lib first (.invoked r (.post response) invocation) older := hj.sound
    exact ⟨hc, hb⟩
  · intro newer r start runtime older hlog
    rw [hlog] at hj
    exact (hj.sound : Sound lib first (.loaded r start runtime) older).1

end Runs

/-- Nothing is serialized; context tables are numbers and events are texts. -/
def plainHookLib : HookLib Unit String where
  tool := plainToolLib
  messageValue _ := some ()
  eventToValue event := some (.string event)
  eventFromValue value := match value with
    | .string event => .ok event
    | _ => .error "not a string"
  base64 := ⟨fun _ => none, fun _ => ""⟩

/-- A tool call that outlives its runtime: the pre hook leaves context 1, a reload fails, one event
is denied, the next leaves context 2, and the response follows. -/
def reloadedCall : List (Label Unit Nat String) :=
  let allow (contextTable : Nat) : PipelineResult Nat := ⟨false, none, none, contextTable⟩
  [.start 0 (.tool ⟨"sum", none⟩ "sum" "backend"), .enter 0, .preReturned 0 (allow 1), .reload (.error "bad config"),
    .start 1 (.resource "file:///a"), .post 0 (.toolEvent "half"), .postReturned 0 ⟨true, none, none, 7⟩,
    .post 0 (.toolEvent "most"), .postReturned 0 (allow 2), .post 0 (.toolResult ⟨[], none, none, none⟩)]

theorem requests_pinned_reload : ∃ s, Machine.run (step plainHookLib)
      (State.init (.active ⟨(), fun _ => ⟨true, true⟩⟩)) reloadedCall = some s ∧
    ∀ newer r response invocation older, s.log = newer ++ .invoked r (.post response) invocation :: older →
      invocation.contextTable = some (lastContext r older) ∧ busy r older = false := by
  obtain ⟨s, hs⟩ := Option.isSome_iff_exists.mp (rfl : (Machine.run (step plainHookLib)
    (State.init (.active ⟨(), fun _ => ⟨true, true⟩⟩)) reloadedCall).isSome = true)
  exact ⟨s, hs, (requests_pinned hs).2.2.2.1⟩

end DataPlane.Cpex
