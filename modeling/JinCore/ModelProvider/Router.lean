import JinCore.ModelProvider.Failover

/-!
# The router (`router.logic.ts`, `router.service.ts`, `sampling.ts`)

A model is selected for the profile of a task, and the other one of the profile is what the call
falls back to.

* `selectModel`, `resolveCandidates`   the two models of a call;
* `executeWithFailover`                the failover of a call that does not stream;
* `routerCall`                         one call of the router, streaming or not;
* `limitSent`                          the limit of output tokens that the provider is sent;
* `routerCall_returned`                what is returned was given by a provider of a candidate;
* `stream_agrees_iff`                  a call that streams ends as one that does not, unless it is interrupted;
* `router_stream_agrees`.
-/

namespace ModelProvider
open JsString Common

inductive TaskProfile where
  | reasoningHeavy | codingDefault | longContext | extractionFast | chatConversational
  | codeExecutionPlanner | memoryConsolidation | historyCompaction | visionAnalysis
  deriving DecidableEq, Repr

def TaskProfile.name : TaskProfile → JsString
  | .reasoningHeavy => lit "reasoning_heavy"
  | .codingDefault => lit "coding_default"
  | .longContext => lit "long_context"
  | .extractionFast => lit "extraction_fast"
  | .chatConversational => lit "chat_conversational"
  | .codeExecutionPlanner => lit "code_execution_planner"
  | .memoryConsolidation => lit "memory_consolidation"
  | .historyCompaction => lit "history_compaction"
  | .visionAnalysis => lit "vision_analysis"

structure ModelProfileConfig where
  primary : JsString
  fallback : JsString
  maxTokensInput : Nat
  deriving DecidableEq, Repr

/-- the nine profiles are all there -/
abbrev ModelsConfig := TaskProfile → ModelProfileConfig

inductive LatencyRequirement where
  | low | normal
  deriving DecidableEq, Repr

structure SelectModelHints where
  estimatedInputTokens : Option Nat
  latencyRequirement : Option LatencyRequirement
  budgetRemaining : Option Rat

inductive Tier where
  | primary | fallback
  deriving DecidableEq, Repr

structure SelectedModel where
  modelId : JsString
  tier : Tier
  deriving DecidableEq, Repr

/-! ## the selection -/

def lowBudgetRemainingThreshold : Rat := 1 / 5

def selectModel (profiles : ModelsConfig) (taskProfile : TaskProfile) (hints : SelectModelHints) :
    SelectedModel :=
  let profile := profiles taskProfile
  let tier := Tier.primary
  let tier :=
    if hints.estimatedInputTokens.any fun n => decide (n > profile.maxTokensInput) then .fallback
    else tier
  let tier := if hints.latencyRequirement = some .low then .fallback else tier
  let tier :=
    if hints.budgetRemaining.any fun r => decide (r < lowBudgetRemainingThreshold) then .fallback
    else tier
  ⟨if tier = .primary then profile.primary else profile.fallback, tier⟩

/-- what `resolveCandidates` reads: the profiles, the model that the owner prefers for a chat, and
the models that the flags override -/
structure RouterState where
  profiles : ModelsConfig
  chatPreference : Option JsString
  modelOverride : TaskProfile → Option JsString

structure Candidates where
  selected : SelectedModel
  secondaryModelId : JsString
  deriving DecidableEq, Repr

def resolveCandidates (router : RouterState) (taskProfile : TaskProfile) (hints : SelectModelHints) :
    Candidates :=
  let chatPreference := if taskProfile = .chatConversational then router.chatPreference else none
  let modelOverride := chatPreference.or (router.modelOverride taskProfile)
  -- an empty override is none
  let effectiveProfiles : ModelsConfig :=
    match modelOverride.filter (· ≠ lit "") with
    | some modelId => fun t =>
      if t = taskProfile then { router.profiles t with primary := modelId } else router.profiles t
    | none => router.profiles
  let selected := selectModel effectiveProfiles taskProfile hints
  let profile := effectiveProfiles taskProfile
  ⟨selected, if selected.modelId = profile.primary then profile.fallback else profile.primary⟩

def candidatesContext (taskProfile : TaskProfile) (candidates : Candidates) : FailoverContext :=
  ⟨taskProfile.name, candidates.selected.modelId, candidates.secondaryModelId⟩

/-! ## the calls -/

section
variable {ρ ε : Type}

def retryOnce (runs : Attempt → Except ε ρ) : Except ε ρ :=
  match runs .primary with
  | .ok value => .ok value
  | .error _ => runs .retry

def executeWithFailover (context : FailoverContext) (runs : Attempt → Except ε ρ) :
    StreamEnd ρ ε :=
  match retryOnce runs with
  | .ok value => .returned value
  | .error _ =>
    match runs .fallback with
    | .ok value => .returned value
    | .error fallbackError =>
      .threw (allProvidersFailedError context.taskProfile context.primaryModelId
        context.fallbackModelId) fallbackError

end

section
variable {ρ ε : Type} (jin : JinError → ε) (content : ρ → JsString)

def completeThrough (modelId : JsString) (provider : Vendor → ProviderRun ρ ε) : Except ε ρ :=
  match providerFor modelId with
  | none => .error (jin (unknownModelVendorError modelId))
  | some vendor => (provider vendor).complete

/-- `complete`, or `completeStream`, of the router -/
def routerCall (streaming : Bool) (context : FailoverContext)
    (providers : Attempt → Vendor → ProviderRun ρ ε) : StreamEnd ρ ε :=
  if streaming then (completeStream jin content context providers).1
  else executeWithFailover context fun attempt =>
    completeThrough jin (context.modelId attempt) (providers attempt)

end

/-! ## the limit of output tokens -/

def alwaysOnThinkingPrefixes : List JsString := [lit "claude-opus-5-5", lit "claude-sonnet-5-5"]

def hasThinkingAlwaysOn (modelId : JsString) : Bool :=
  alwaysOnThinkingPrefixes.any fun p => p.units.isPrefixOf modelId.units

def alwaysOnThinkingMinMaxTokens : Nat := 16000

def anthropicMaxTokens (modelId : JsString) (requested : Nat) : Nat :=
  if hasThinkingAlwaysOn modelId then max requested alwaysOnThinkingMinMaxTokens else requested

/-- `max_tokens`, `maxOutputTokens`, `max_completion_tokens` -/
def limitSent (vendor : Vendor) (modelId : JsString) (requested : Nat) : Nat :=
  match vendor with
  | .anthropic => anthropicMaxTokens modelId requested
  | .google | .openai => requested

theorem requested_le_limitSent (vendor : Vendor) (modelId : JsString) (requested : Nat) :
    requested ≤ limitSent vendor modelId requested := by
  cases vendor with
  | anthropic =>
    show requested ≤ anthropicMaxTokens modelId requested
    rw [anthropicMaxTokens]
    split
    · exact Nat.le_max_left _ _
    · exact Nat.le_refl _
  | google => exact Nat.le_refl _
  | openai => exact Nat.le_refl _

/-- the limit is only raised for a model that always thinks, and no further than its minimum -/
theorem limitSent_raised {vendor : Vendor} {modelId : JsString} {requested : Nat}
    (h : requested < limitSent vendor modelId requested) :
    hasThinkingAlwaysOn modelId = true ∧
      limitSent vendor modelId requested = alwaysOnThinkingMinMaxTokens := by
  cases vendor with
  | anthropic =>
    change requested < anthropicMaxTokens modelId requested at h
    show _ ∧ anthropicMaxTokens modelId requested = _
    rw [anthropicMaxTokens] at h ⊢
    split at h
    next hthinks =>
      rw [if_pos hthinks]
      exact ⟨hthinks, Nat.max_eq_right (by omega)⟩
    next => exact absurd h (Nat.lt_irrefl _)
  | google => exact absurd h (Nat.lt_irrefl _)
  | openai => exact absurd h (Nat.lt_irrefl _)

/-! ## what the router returns -/

section
variable {ρ ε : Type} {jin : JinError → ε} {content : ρ → JsString} {context : FailoverContext}
  {providers : Attempt → Vendor → ProviderRun ρ ε} {value : ρ}

/-- a call of the provider, streaming or not, gives the value -/
def ProviderRun.Gives (run : ProviderRun ρ ε) (value : ρ) : Prop :=
  run.complete = .ok value ∨ ∃ stream, run.completeStream = some stream ∧ stream.result = .ok value

/-- the value is given by the provider of a candidate -/
def GivenBy (context : FailoverContext) (providers : Attempt → Vendor → ProviderRun ρ ε)
    (a : Attempt) (vendor : Vendor) (value : ρ) : Prop :=
  providerFor (context.modelId a) = some vendor ∧ (providers a vendor).Gives value

theorem executeWithFailover_returned {runs : Attempt → Except ε ρ}
    (h : executeWithFailover context runs = .returned value) : ∃ a, runs a = .ok value := by
  rw [executeWithFailover, retryOnce] at h
  cases hprimary : runs .primary with
  | ok v =>
    rw [hprimary] at h
    cases h
    exact ⟨.primary, hprimary⟩
  | error e =>
    rw [hprimary] at h
    cases hretry : runs .retry with
    | ok v =>
      rw [hretry] at h
      cases h
      exact ⟨.retry, hretry⟩
    | error e =>
      rw [hretry] at h
      cases hfallback : runs .fallback with
      | ok v =>
        rw [hfallback] at h
        cases h
        exact ⟨.fallback, hfallback⟩
      | error e =>
        rw [hfallback] at h
        cases h

theorem completeThrough_ok {modelId : JsString} {provider : Vendor → ProviderRun ρ ε}
    (h : completeThrough jin modelId provider = .ok value) :
    ∃ vendor, providerFor modelId = some vendor ∧ (provider vendor).complete = .ok value := by
  rw [completeThrough] at h
  cases hvendor : providerFor modelId with
  | none =>
    rw [hvendor] at h
    cases h
  | some vendor =>
    rw [hvendor] at h
    exact ⟨vendor, rfl, h⟩

theorem completeOrStream_ok {modelId : JsString} {provider : Vendor → ProviderRun ρ ε}
    (h : (completeOrStream jin content modelId provider).result = .ok value) :
    ∃ vendor, providerFor modelId = some vendor ∧ (provider vendor).Gives value := by
  rw [completeOrStream] at h
  cases hvendor : providerFor modelId with
  | none =>
    rw [hvendor] at h
    cases h
  | some vendor =>
    rw [hvendor] at h
    refine ⟨vendor, rfl, ?_⟩
    cases hstream : (provider vendor).completeStream with
    | some stream =>
      simp only [hstream] at h
      exact .inr ⟨stream, hstream, h⟩
    | none =>
      simp only [hstream] at h
      cases hcomplete : (provider vendor).complete with
      | ok v =>
        rw [hcomplete] at h
        cases h
        exact .inl hcomplete
      | error e =>
        rw [hcomplete] at h
        cases h

theorem routerCall_returned {streaming : Bool}
    (h : routerCall jin content streaming context providers = .returned value) :
    ∃ a vendor, GivenBy context providers a vendor value := by
  rw [routerCall] at h
  split at h
  next =>
    obtain ⟨a, -, hresult, -⟩ := (streamSpec_execute context _).returned value h
    obtain ⟨vendor, hvendor, hgives⟩ := completeOrStream_ok hresult
    exact ⟨a, vendor, hvendor, hgives⟩
  next =>
    obtain ⟨a, hresult⟩ := executeWithFailover_returned h
    obtain ⟨vendor, hvendor, hcomplete⟩ := completeThrough_ok hresult
    exact ⟨a, vendor, hvendor, .inl hcomplete⟩

/-- a provider of the primary that does not stream and gives a value settles the call -/
theorem routerCall_primary {vendor : Vendor} (streaming : Bool)
    (hvendor : providerFor context.primaryModelId = some vendor)
    (hvalue : providers .primary vendor = ⟨.ok value, none⟩) :
    routerCall jin content streaming context providers = .returned value := by
  have hcomplete : completeThrough jin (context.modelId .primary) (providers .primary)
      = .ok value := by
    show completeThrough jin context.primaryModelId _ = _
    rw [completeThrough, hvendor]
    show (providers .primary vendor).complete = _
    rw [hvalue]
  have hstream : (completeOrStream jin content (context.modelId .primary)
      (providers .primary)).result = .ok value := by
    show (completeOrStream jin content context.primaryModelId _).result = _
    rw [completeOrStream, hvendor]
    simp only [hvalue]
  cases streaming with
  | false =>
    rw [routerCall, if_neg Bool.false_ne_true, executeWithFailover, retryOnce, hcomplete]
  | true =>
    rw [routerCall, if_pos rfl, completeStream, executeWithFailoverStream, retryOnceStream,
      callAttempt, hstream]

end

/-! ## streaming and not -/

section
variable {ρ ε : Type} {context : FailoverContext} {runs : Attempt → CallRun ρ ε}

/-- an attempt has failed after a delta -/
def Interrupted (runs : Attempt → CallRun ρ ε) (events : List StreamEvent) : Prop :=
  ∃ a error, .started a ∈ events ∧ (runs a).deltas ≠ [] ∧ (runs a).result = .error error

theorem executeWithFailover_threw {results : Attempt → Except ε ρ} {error : JinError} {cause : ε}
    (h : executeWithFailover context results = .threw error cause) :
    error = allProvidersFailedError context.taskProfile context.primaryModelId context.fallbackModelId := by
  unfold executeWithFailover at h
  split at h
  · cases h
  · split at h
    · cases h
    · cases h
      rfl

/-- calls that fail, and then the last one -/
theorem executeWithFailover_split {results : Attempt → Except ε ρ} {silent rest : List Attempt} {a : Attempt}
    (hsplit : attempts = silent ++ a :: rest) (hsilent : ∀ b ∈ silent, ∃ error, results b = .error error) :
    (∀ value, results a = .ok value → executeWithFailover context results = .returned value) ∧
      ∀ error, results a = .error error → rest = [] → executeWithFailover context results =
        .threw (allProvidersFailedError context.taskProfile context.primaryModelId context.fallbackModelId) error := by
  unfold attempts at hsplit
  unfold executeWithFailover retryOnce
  rcases silent with _ | ⟨b, _ | ⟨c, _ | ⟨d, silent⟩⟩⟩
  · rw [List.nil_append, List.cons.injEq] at hsplit
    obtain ⟨rfl, hrest⟩ := hsplit
    refine ⟨fun value hvalue => by rw [hvalue], fun error _ hnil => ?_⟩
    rw [hnil] at hrest
    cases hrest
  · rw [List.cons_append, List.nil_append, List.cons.injEq, List.cons.injEq] at hsplit
    obtain ⟨rfl, rfl, hrest⟩ := hsplit
    obtain ⟨error, hprimary⟩ := hsilent _ List.mem_cons_self
    refine ⟨fun value hvalue => by rw [hprimary, hvalue], fun error _ hnil => ?_⟩
    rw [hnil] at hrest
    cases hrest
  · rw [List.cons_append, List.cons_append, List.nil_append, List.cons.injEq, List.cons.injEq, List.cons.injEq] at hsplit
    obtain ⟨rfl, rfl, rfl, -⟩ := hsplit
    obtain ⟨_, hprimary⟩ := hsilent _ List.mem_cons_self
    obtain ⟨_, hretry⟩ := hsilent _ (List.mem_cons_of_mem _ List.mem_cons_self)
    exact ⟨fun value hvalue => by rw [hprimary, hretry, hvalue],
      fun error herror _ => by rw [hprimary, hretry, herror]⟩
  · have hlength := congrArg List.length hsplit
    rw [List.length_append] at hlength
    simp only [List.length_cons, List.length_nil] at hlength
    omega

/-- **A call that streams ends as one that does not**, unless an attempt fails after a delta. -/
theorem stream_agrees_iff (context : FailoverContext) (runs : Attempt → CallRun ρ ε) :
    (executeWithFailoverStream context runs).1 = executeWithFailover context (fun a => (runs a).result) ↔
      ¬ Interrupted runs (executeWithFailoverStream context runs).2.events := by
  have hspec := streamSpec_execute context runs
  constructor
  · intro hagree hinterrupted
    obtain ⟨modelId, cause, hout⟩ := hspec.interrupted.mpr hinterrupted
    rw [hout] at hagree
    exact errors_differ _ _ _ _ (executeWithFailover_threw hagree.symm)
  · intro hquiet
    obtain ⟨silent, a, rest, h⟩ := failover_shape context runs
    have hstarted : .started a ∈ (executeWithFailoverStream context runs).2.events := by
      rw [h.events]
      exact List.mem_append_right _ List.mem_cons_self
    obtain ⟨hok, herror⟩ := @executeWithFailover_split ρ ε context (fun a => (runs a).result) silent rest a h.split
      fun b hb => (h.quiet b hb).2
    rw [h.outcome]
    unfold endOf
    cases hresult : (runs a).result with
    | ok value => exact (hok value hresult).symm
    | error error =>
      have hdeltas : (runs a).deltas = [] := by
        by_contra hne
        exact hquiet ⟨a, error, hstarted, hne, hresult⟩
      have hrest : rest = [] := h.last.resolve_right (not_not_intro ⟨hdeltas, error, hresult⟩)
      dsimp only
      rw [if_pos hdeltas]
      exact (herror error hresult hrest).symm

end

/-- the primary of a profile, or what takes its place -/
def effectivePrimary (router : RouterState) (taskProfile : TaskProfile) : JsString :=
  (((if taskProfile = .chatConversational then router.chatPreference else none).or
    (router.modelOverride taskProfile)).filter (· ≠ lit "")).getD (router.profiles taskProfile).primary

/-- the two models of a call are those of its profile, in one order or the other -/
theorem resolveCandidates_models (router : RouterState) (taskProfile : TaskProfile) (hints : SelectModelHints) :
    ((resolveCandidates router taskProfile hints).selected.modelId = effectivePrimary router taskProfile ∧
        (resolveCandidates router taskProfile hints).secondaryModelId = (router.profiles taskProfile).fallback) ∨
      ((resolveCandidates router taskProfile hints).selected.modelId = (router.profiles taskProfile).fallback ∧
        (resolveCandidates router taskProfile hints).secondaryModelId = effectivePrimary router taskProfile) := by
  have htier (tier : Tier) (primary fallback : JsString) :
      (if tier = .primary then primary else fallback) = primary ∨
        (if tier = .primary then primary else fallback) = fallback := by
    cases tier with
    | primary => exact Or.inl rfl
    | fallback => exact Or.inr rfl
  have hselect (profiles : ModelsConfig) :
      (selectModel profiles taskProfile hints).modelId = (profiles taskProfile).primary ∨
        (selectModel profiles taskProfile hints).modelId = (profiles taskProfile).fallback := htier _ _ _
  have hpair (profiles : ModelsConfig) (secondary : JsString)
      (hsecondary : secondary = if (selectModel profiles taskProfile hints).modelId = (profiles taskProfile).primary
        then (profiles taskProfile).fallback else (profiles taskProfile).primary) :
      ((selectModel profiles taskProfile hints).modelId = (profiles taskProfile).primary ∧
        secondary = (profiles taskProfile).fallback) ∨
      ((selectModel profiles taskProfile hints).modelId = (profiles taskProfile).fallback ∧
        secondary = (profiles taskProfile).primary) := by
    split at hsecondary
    next hprimary => exact Or.inl ⟨hprimary, hsecondary⟩
    next hnot => exact Or.inr ⟨(hselect profiles).resolve_left hnot, hsecondary⟩
  unfold resolveCandidates effectivePrimary
  dsimp only
  generalize ((if taskProfile = .chatConversational then router.chatPreference else none).or
    (router.modelOverride taskProfile)).filter (· ≠ lit "") = modelOverride
  cases modelOverride with
  | none => exact hpair router.profiles _ rfl
  | some modelId =>
    let effectiveProfiles : ModelsConfig := fun t =>
      if t = taskProfile then { router.profiles t with primary := modelId } else router.profiles t
    have hprofile : effectiveProfiles taskProfile = { router.profiles taskProfile with primary := modelId } := if_pos rfl
    have hprimary := congrArg ModelProfileConfig.primary hprofile
    have hfallback := congrArg ModelProfileConfig.fallback hprofile
    rcases hpair effectiveProfiles _ rfl with ⟨hselected, hsecondary⟩ | ⟨hselected, hsecondary⟩
    · exact Or.inl ⟨hselected.trans hprimary, hsecondary.trans hfallback⟩
    · exact Or.inr ⟨hselected.trans hfallback, hsecondary.trans hprimary⟩

section
variable {ρ ε : Type} (jin : JinError → ε) (content : ρ → JsString)

/-- the provider answers a call that streams as it answers one that does not -/
def AnswersAlike (providers : Attempt → Vendor → ProviderRun ρ ε) : Prop :=
  ∀ a vendor run, (providers a vendor).completeStream = some run → run.result = (providers a vendor).complete

theorem completeOrStream_result {modelId : JsString} {provider : Vendor → ProviderRun ρ ε}
    (h : ∀ vendor run, (provider vendor).completeStream = some run → run.result = (provider vendor).complete) :
    (completeOrStream jin content modelId provider).result = completeThrough jin modelId provider := by
  unfold completeOrStream completeThrough
  cases hvendor : providerFor modelId with
  | none => rfl
  | some vendor =>
    cases hstream : (provider vendor).completeStream with
    | some run =>
      simp only [hstream]
      exact h vendor run hstream
    | none =>
      simp only [hstream]
      cases (provider vendor).complete with
      | ok value => rfl
      | error error => rfl

/-- Whatever is preferred, overridden or hinted at, a call of the router goes to the two models of its profile and to no
other; and where the providers answer alike, it ends with or without streaming as the other would, exactly if no attempt
fails after a delta. -/
theorem router_stream_agrees (router : RouterState) (taskProfile : TaskProfile) (hints : SelectModelHints)
    (providers : Attempt → Vendor → ProviderRun ρ ε) (halike : AnswersAlike providers) (context : FailoverContext)
    (hcontext : context = candidatesContext taskProfile (resolveCandidates router taskProfile hints)) :
    ((context.primaryModelId = effectivePrimary router taskProfile ∧
        context.fallbackModelId = (router.profiles taskProfile).fallback) ∨
      (context.primaryModelId = (router.profiles taskProfile).fallback ∧
        context.fallbackModelId = effectivePrimary router taskProfile)) ∧
    (routerCall jin content true context providers = routerCall jin content false context providers ↔
      ¬ Interrupted (fun a => completeOrStream jin content (context.modelId a) (providers a))
        (completeStream jin content context providers).2.events) := by
  constructor
  · rw [hcontext]
    exact resolveCandidates_models router taskProfile hints
  · have hresults : (fun a => completeThrough jin (context.modelId a) (providers a)) =
        fun a => (completeOrStream jin content (context.modelId a) (providers a)).result := by
      funext a
      exact (completeOrStream_result jin content (halike a)).symm
    show (completeStream jin content context providers).1 =
      executeWithFailover context (fun a => completeThrough jin (context.modelId a) (providers a)) ↔ _
    rw [hresults]
    exact stream_agrees_iff context _

end

def vendorDown : JinError := unknownModelVendorError (lit "claude-opus")

/-- the first model is down, and the second one streams a delta -/
def downPrimary : Attempt → Vendor → ProviderRun JsString JinError
  | .fallback, _ => ⟨.ok (lit "hola"), some ⟨[⟨lit "hola", lit "hola"⟩], .ok (lit "hola")⟩⟩
  | _, _ => ⟨.error vendorDown, some ⟨[], .error vendorDown⟩⟩

theorem downPrimary_alike : AnswersAlike downPrimary := by
  intro a vendor run h
  cases a <;> exact congrArg CallRun.result (Option.some.inj h).symm

def twoModels : RouterState := ⟨fun _ => ⟨lit "claude-opus", lit "gpt-5", 1000⟩, none, fun _ => none⟩

def downContext : FailoverContext := ⟨lit "chat_conversational", lit "claude-opus", lit "gpt-5"⟩

theorem router_stream_agrees_down : routerCall id id true downContext downPrimary = .returned (lit "hola") ∧
    (routerCall id id true downContext downPrimary = routerCall id id false downContext downPrimary ↔
      ¬ Interrupted (fun a => completeOrStream id id (downContext.modelId a) (downPrimary a))
        (completeStream id id downContext downPrimary).2.events) :=
  ⟨rfl, (router_stream_agrees id id twoModels .chatConversational ⟨none, none, none⟩ downPrimary downPrimary_alike
    downContext rfl).2⟩

end ModelProvider
