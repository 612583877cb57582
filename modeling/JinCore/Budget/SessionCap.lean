import JinCore.Budget.Service
import JinCore.ModelProvider.Router
import JinCore.ModelProvider.Types
import JinCore.Lib.Runs

/-!
# The output cap of a session (`budget-guarded-router.service.ts`)

The check before a call adds the output tokens that the request asks for, and the provider may be
sent a higher limit.

* `SessionCall`         a guarded call with its model selection, and what it meets;
* `WithinLimits`        no response is over the limit that its provider was sent;
* `RaiseFits`           where the limit is raised, the session has room for it;
* `session_cap_kept`    in every run of calls whose raised limits fit;
* `raised_over_cap`     a call whose raised limit does not fit can take the session over its cap.
-/

namespace Budget
open JsString Common ModelProvider

/-- a response of a provider, with its tokens -/
structure BilledResponse extends ModelCompletionResponse where
  usage : Usage

structure SessionCall (ε : Type) where
  sessionId : JsString
  taskProfile : TaskProfile
  latencyRequirement : Option LatencyRequirement
  /-- the hint, or the estimate of the request -/
  estimatedInputTokens : Nat
  maxOutputTokens : Nat
  streaming : Bool
  /-- `none` where the read throws -/
  killSwitch : Option Bool
  usedRatio : Option Rat
  router : RouterState
  providers : Attempt → Vendor → ProviderRun BilledResponse ε
  accounting : AccountingReplies

section
variable {ε : Type} (jin : JinError → ε) (config : BudgetConfig) (prices : ModelPrices)

def SessionCall.request (c : SessionCall ε) : GuardedRequest :=
  ⟨c.sessionId, c.estimatedInputTokens, c.maxOutputTokens⟩

/-- the hints that the router is given, after a check that has read the ratio of the day -/
def SessionCall.hints (c : SessionCall ε) : SelectModelHints where
  estimatedInputTokens := some c.estimatedInputTokens
  latencyRequirement := c.latencyRequirement
  budgetRemaining := c.usedRatio.map fun ratio => max 0 (1 - ratio)

def SessionCall.context (c : SessionCall ε) : FailoverContext :=
  candidatesContext c.taskProfile (resolveCandidates c.router c.taskProfile c.hints)

def SessionCall.replies (c : SessionCall ε) : CallReplies where
  killSwitch := c.killSwitch
  exhausted := c.usedRatio.map fun ratio => decide (1 ≤ ratio)
  router :=
    match routerCall jin (fun response => response.content) c.streaming c.context c.providers with
    | .returned response => some ⟨response.modelId, response.usage⟩
    | .threw _ _ => none
  accounting := c.accounting

/-- one guarded call of a session after another -/
def callStep (s : BudgetState) (c : SessionCall ε) : Option BudgetState :=
  some (complete config prices s c.request (c.replies jin)).1

/-- every response has at most as many output tokens as the limit that was sent for it -/
def SessionCall.WithinLimits (c : SessionCall ε) : Prop :=
  ∀ a vendor response, GivenBy c.context c.providers a vendor response →
    response.usage.outputTokens ≤ limitSent vendor (c.context.modelId a) c.maxOutputTokens

/-- a limit that was raised for the model that answers still fits into the session -/
def RaiseFits (s : BudgetState) (c : SessionCall ε) : Prop :=
  ∀ a vendor response, GivenBy c.context c.providers a vendor response →
    c.maxOutputTokens < limitSent vendor (c.context.modelId a) c.maxOutputTokens →
      (s.session c.sessionId).outputTokens + limitSent vendor (c.context.modelId a) c.maxOutputTokens
        ≤ config.sessionMaxOutputTokens

/-- no session is over its cap -/
def UnderCap (s : BudgetState) : Prop :=
  ∀ sessionId, (s.session sessionId).outputTokens ≤ config.sessionMaxOutputTokens

end

/-! ## one call -/

section
variable {ε : Type} {jin : JinError → ε} {config : BudgetConfig} {prices : ModelPrices}
  {s : BudgetState}

theorem checkBeforeCall_ok {sessionId : JsString} {estimated maxOutputTokens : Nat}
    {exhausted : Option Bool}
    (h : checkBeforeCall config s sessionId estimated maxOutputTokens exhausted = .ok ()) :
    (s.session sessionId).inputTokens + estimated ≤ config.sessionMaxInputTokens ∧
      (s.session sessionId).outputTokens + maxOutputTokens ≤ config.sessionMaxOutputTokens := by
  unfold checkBeforeCall at h
  split at h
  next => cases h
  next hroom => simpa [wouldExceedSessionBudget] using hroom

/-- a call that reaches the router has passed the check -/
theorem callRouter_ok {request : GuardedRequest} {w : CallReplies} {response : ModelUsage}
    (h : callRouter config s request w = .ok response) :
    w.router = some response ∧ (s.session request.sessionId).outputTokens + request.maxOutputTokens
      ≤ config.sessionMaxOutputTokens := by
  rw [callRouter] at h
  split at h
  next => cases h
  next => cases h
  next =>
    split at h
    next => cases h
    next hcheck =>
      split at h
      next => cases h
      next r hrouter =>
        cases h
        exact ⟨hrouter, (checkBeforeCall_ok hcheck).2⟩

theorem callRouter_of_ok {request : GuardedRequest} {w : CallReplies} {response : ModelUsage}
    (hkill : w.killSwitch = some false)
    (hcheck : checkBeforeCall config s request.sessionId request.estimatedInputTokens
      request.maxOutputTokens w.exhausted = .ok ())
    (hrouter : w.router = some response) : callRouter config s request w = .ok response := by
  simp only [callRouter, hkill, hcheck, hrouter]

/-- the response that the router returns, as the budget sees it -/
theorem replies_router {c : SessionCall ε} {used : ModelUsage} :
    (c.replies jin).router = some used ↔ ∃ response, used = ⟨response.modelId, response.usage⟩ ∧
      routerCall jin (fun response => response.content) c.streaming c.context c.providers
        = .returned response := by
  rw [SessionCall.replies]
  cases hcall : routerCall jin (fun response => response.content) c.streaming c.context
      c.providers with
  | returned response =>
    constructor
    · intro hused
      cases hused
      exact ⟨response, rfl, rfl⟩
    · rintro ⟨_, rfl, hresponse⟩
      cases hresponse
      rfl
  | threw e _ =>
    constructor
    · intro hused
      cases hused
    · rintro ⟨_, -, hresponse⟩
      cases hresponse

/-- what a call does to the sessions: nothing, or it adds the tokens of a response that one of its
candidates gave, after its check -/
theorem complete_session (c : SessionCall ε) :
    (complete config prices s c.request (c.replies jin)).1.session = s.session ∨
      ∃ a vendor response, GivenBy c.context c.providers a vendor response ∧
        (s.session c.sessionId).outputTokens + c.maxOutputTokens ≤ config.sessionMaxOutputTokens ∧
        (complete config prices s c.request (c.replies jin)).1.session
          = grow s.session c.sessionId response.usage := by
  cases hcall : callRouter config s c.request (c.replies jin) with
  | error outcome =>
    left
    rw [complete, hcall]
  | ok used =>
    rw [complete_of_response hcall]
    obtain ⟨hrouter, hroom⟩ := callRouter_ok hcall
    cases hprice : resolvePrice prices used.modelId with
    | false =>
      left
      rw [recordUsage_unpriced hprice]
    | true =>
      right
      obtain ⟨response, rfl, hreturned⟩ := replies_router.mp hrouter
      obtain ⟨a, vendor, hgiven⟩ := routerCall_returned hreturned
      refine ⟨a, vendor, response, hgiven, hroom, ?_⟩
      rw [recordUsage_priced hprice]
      rfl

/-- the step: a call keeps every session under its cap -/
theorem underCap_callStep {c : SessionCall ε} {s' : BudgetState} (hs : UnderCap config s)
    (hlimits : c.WithinLimits) (hfits : RaiseFits config s c)
    (hstep : callStep jin config prices s c = some s') : UnderCap config s' := by
  rw [callStep, Option.some.injEq] at hstep
  intro sessionId
  rw [← hstep]
  have hsession := @complete_session ε jin config prices s c
  rcases hsession with hsame | ⟨a, vendor, response, hgiven, hroom, hgrown⟩
  · rw [hsame]
    exact hs sessionId
  · rw [hgrown, grow]
    split
    next heq =>
      rw [heq]
      show (s.session c.sessionId).outputTokens + response.usage.outputTokens ≤ _
      have hused := hlimits a vendor response hgiven
      rcases Nat.lt_or_ge c.maxOutputTokens
        (limitSent vendor (c.context.modelId a) c.maxOutputTokens) with hraised | hkept
      · have hfit := hfits a vendor response hgiven hraised
        omega
      · omega
    next => exact hs sessionId

/-- **The cap of a session holds in every run whose raised limits fit.**  From sessions that have
used nothing, over any calls, one after the other, of any sessions through any models. -/
theorem session_cap_kept (jin : JinError → ε) (config : BudgetConfig) (prices : ModelPrices)
    (calls : List (SessionCall ε)) (s s' : BudgetState) (hstart : s.session = fun _ => .zero)
    (hlimits : ∀ c ∈ calls, c.WithinLimits)
    (hfits : Runs.Guarded (callStep jin config prices) (RaiseFits config) s calls)
    (hrun : Runs.run (callStep jin config prices) s calls = some s') : UnderCap config s' := by
  refine Runs.run_inv_guarded (fun t c t' ht hc hstep => ?_) calls s s' ?_
    (Runs.guarded_and_mem hlimits hfits) hrun
  · exact underCap_callStep ht hc.1 hc.2 hstep
  · intro sessionId
    rw [hstart]
    exact Nat.zero_le _

/-- a call that has passed its check, and whose raised limit the session has no room for, is taken
over the cap by a response within that limit -/
theorem raised_over_cap (c : SessionCall ε) {vendor : Vendor} (content modelId : JsString)
    (hkill : c.killSwitch = some false)
    (hcheck : checkBeforeCall config s c.sessionId c.estimatedInputTokens c.maxOutputTokens
      (c.usedRatio.map fun ratio => decide (1 ≤ ratio)) = .ok ())
    (hvendor : providerFor c.context.primaryModelId = some vendor)
    (hprice : resolvePrice prices modelId = true)
    (hover : config.sessionMaxOutputTokens < (s.session c.sessionId).outputTokens
      + limitSent vendor c.context.primaryModelId c.maxOutputTokens) :
    ∃ response : BilledResponse, response.modelId = modelId ∧ response.usage.outputTokens
        = limitSent vendor c.context.primaryModelId c.maxOutputTokens ∧
      ∀ s', callStep jin config prices s
          { c with providers := fun _ _ => ⟨.ok response, none⟩ } = some s' →
        ¬ UnderCap config s' := by
  let limit := limitSent vendor c.context.primaryModelId c.maxOutputTokens
  let response : BilledResponse := ⟨⟨content, modelId, [], .endTurn⟩, ⟨0, limit⟩⟩
  let c' : SessionCall ε := { c with providers := fun _ _ => ⟨.ok response, none⟩ }
  have hrouter : (c'.replies jin).router = some ⟨modelId, ⟨0, limit⟩⟩ :=
    replies_router.mpr ⟨response, rfl, routerCall_primary c.streaming hvendor rfl⟩
  have hcall : callRouter config s c'.request (c'.replies jin) = .ok ⟨modelId, ⟨0, limit⟩⟩ :=
    callRouter_of_ok hkill hcheck hrouter
  refine ⟨response, rfl, rfl, ?_⟩
  intro s' hstep hunder
  rw [callStep, Option.some.injEq, complete_of_response hcall] at hstep
  have hgrown : s'.session = grow s.session c.sessionId ⟨0, limit⟩ := by
    rw [← hstep, recordUsage_priced hprice]
    rfl
  have hcap := hunder c.sessionId
  rw [hgrown, grow, if_pos rfl] at hcap
  change (s.session c.sessionId).outputTokens + limit ≤ _ at hcap
  omega

end

/-! ## a chat with a model that always thinks -/

section
def chatRouter : RouterState where
  profiles := fun _ => ⟨lit "claude-sonnet-5", lit "claude-haiku-4-5", 50000⟩
  chatPreference := some (lit "claude-sonnet-5-5")
  modelOverride := fun _ => none

/-- a turn of a chat that asks for 8000 output tokens, and uses `n` -/
def chatCall (n : Nat) : SessionCall Unit where
  sessionId := lit "s"
  taskProfile := .chatConversational
  latencyRequirement := none
  estimatedInputTokens := 1000
  maxOutputTokens := 8000
  streaming := true
  killSwitch := some false
  usedRatio := some 0
  router := chatRouter
  providers := fun a _ =>
    match a with
    | .primary | .retry => ⟨.ok ⟨⟨lit "", lit "claude-sonnet-5-5", [], .endTurn⟩, ⟨1000, n⟩⟩, none⟩
    | .fallback => ⟨.error (), none⟩
  accounting := ⟨lit "2026-09-29", .ok, 0, .ok, .ok⟩

def chatPrices : ModelPrices := ⟨[lit "claude-sonnet-5", lit "claude-haiku-4-5",
  lit "claude-sonnet-5-5"]⟩

def chatCaps : BudgetConfig := ⟨1000000, 100000⟩

theorem chatCall_given {n : Nat} {a : Attempt} {vendor : Vendor} {response : BilledResponse}
    (h : GivenBy (chatCall n).context (chatCall n).providers a vendor response) :
    response.usage.outputTokens = n ∧
      limitSent vendor ((chatCall n).context.modelId a) 8000 = 16000 := by
  obtain ⟨hvendor, hgives⟩ := h
  have hmodel : (chatCall 0).context.primaryModelId = lit "claude-sonnet-5-5" := by decide +kernel
  have hanswer : response.usage.outputTokens = n ∧ a ≠ .fallback := by
    rcases hgives with hcomplete | ⟨stream, hstream, -⟩
    · cases a with
      | fallback => cases hcomplete
      | primary | retry =>
        cases hcomplete
        exact ⟨rfl, by decide⟩
    · cases a <;> cases hstream
  have ha : (chatCall n).context.modelId a = lit "claude-sonnet-5-5" := by
    cases a with
    | primary | retry => exact hmodel
    | fallback => exact absurd rfl hanswer.2
  refine ⟨hanswer.1, ?_⟩
  rw [ha] at hvendor ⊢
  have hanthropic : vendor = .anthropic := by
    have hanthropic : providerFor (lit "claude-sonnet-5-5") = some .anthropic := by decide
    rw [hanthropic, Option.some.injEq] at hvendor
    exact hvendor.symm
  rw [hanthropic]
  decide

theorem chatCall_withinLimits {n : Nat} (hn : n ≤ 16000) : (chatCall n).WithinLimits := by
  intro a vendor response hgiven
  obtain ⟨hused, hlimit⟩ := chatCall_given hgiven
  rw [hused]
  exact hn.trans (le_of_eq hlimit.symm)

theorem chatCall_raiseFits {n : Nat} {s : BudgetState}
    (hs : (s.session (lit "s")).outputTokens ≤ 84000) : RaiseFits chatCaps s (chatCall n) := by
  intro a vendor response hgiven _
  show (s.session (lit "s")).outputTokens + limitSent vendor _ 8000 ≤ 100000
  rw [(chatCall_given hgiven).2]
  omega

theorem session_cap_kept_once :
    ∃ s', Runs.run (callStep (fun _ => ()) chatCaps chatPrices) .empty [chatCall 15000] = some s' ∧
      UnderCap chatCaps s' :=
  ⟨_, rfl, session_cap_kept (fun _ => ()) chatCaps chatPrices [chatCall 15000] .empty _ rfl
    (List.forall_mem_singleton.mpr (chatCall_withinLimits (by decide)))
    ⟨chatCall_raiseFits (Nat.zero_le _), fun _ _ => trivial⟩ rfl⟩

/-- seven turns, each within its limit: the seventh passes its check with 90000 tokens used -/
theorem session_over_cap :
    (∀ c ∈ List.replicate 7 (chatCall 15000), c.WithinLimits) ∧
      ∃ s', Runs.run (callStep (fun _ => ()) chatCaps chatPrices) .empty
          (List.replicate 7 (chatCall 15000)) = some s' ∧
        (s'.session (lit "s")).outputTokens = 105000 ∧ ¬ UnderCap chatCaps s' := by
  refine ⟨?_, ?_⟩
  · intro c hc
    rw [List.eq_of_mem_replicate hc]
    exact chatCall_withinLimits (by decide)
  · have hrun : (Runs.run (callStep (fun _ => ()) chatCaps chatPrices) .empty
        (List.replicate 7 (chatCall 15000))).map (fun s => (s.session (lit "s")).outputTokens)
        = some 105000 := by decide +kernel
    obtain ⟨s', hs', hused⟩ := Option.map_eq_some_iff.mp hrun
    refine ⟨s', hs', hused, fun hunder => ?_⟩
    have hcap := hunder (lit "s")
    rw [hused] at hcap
    exact absurd hcap (by decide)

end

end Budget
