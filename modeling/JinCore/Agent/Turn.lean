import JinCore.Agent.Service

/-!
# What holds along a turn

* `decision_ok`           only a registered tool gets a decision;
* `CallPath`              how far a real call gets, `callPath`;
* `turn_inv`              what every call and every new message preserves, the turn preserves;
* `handledCalls_turn`     the turn handles the real calls of its answers, each once and in order;
* `Traced`, `traced_turn` the events of a turn, call by call;
* `answered_block`        the result of a call is in the messages;
* `rounds_turn`           the messages are the history, the objective and one pair for each answer.
-/

namespace Agent
open JsString Common Tools Hitl ModelProvider Security FeatureFlags Autonomy Audit

/-! ## the decision of a call -/

theorem requestId_resolveEffectiveLevel (flags : FeatureFlagsConfig) (overrides : Overrides)
    (baseline : HitlDecision) :
    (resolveEffectiveLevel flags overrides baseline).requestId = baseline.requestId := by
  unfold resolveEffectiveLevel
  split
  · rfl
  · split
    · rfl
    · split <;> rfl

theorem requestId_relaxDecision (d : HitlDecision) (mode : AutonomyMode)
    (tool : Option ToolDefinition) : (relaxDecision d mode tool).decision.requestId = d.requestId := by
  unfold relaxDecision
  split
  · rfl
  · split
    · rfl
    · split
      · rfl
      · split <;> rfl

theorem requestId_relaxed (config : AutonomyConfig) (read counted : HitlPolicy.Sight)
    (d : HitlDecision) (tool : Option ToolDefinition) :
    (HitlPolicy.relaxed config read counted d tool).requestId = d.requestId := by
  simp only [HitlPolicy.relaxed]
  split
  · rfl
  · split
    · rfl
    · exact requestId_relaxDecision d _ tool

/-- only a registered tool gets a decision, under the uuid that was drawn for it -/
theorem decision_ok {reply : CallReply} {call : ModelToolCall} {d : HitlDecision}
    (h : decision reply call = .ok d) :
    (∃ tool, getToolDefinition call.name = some tool) ∧ d.requestId = reply.requestId.text := by
  have hclassify (d' : HitlDecision)
      (hd' : HitlPolicy.classifyToolCall reply.requestId.text call.name call.input = .ok d') :
      (∃ tool, getToolDefinition call.name = some tool) ∧
        d'.requestId = reply.requestId.text := by
    unfold HitlPolicy.classifyToolCall at hd'
    split at hd'
    · cases hd'
    next tool htool =>
      cases hd'
      exact ⟨⟨tool, htool⟩, rfl⟩
  unfold decision at h
  split at h
  · split at h <;> cases h
  next flags overrides config read counted _ =>
    split at h
    · cases h
    next d' hdecide =>
      cases h
      unfold HitlPolicy.decide at hdecide
      split at hdecide
      · cases hdecide
      next static hstatic =>
        obtain ⟨htool, hid⟩ := hclassify static hstatic
        simp only at hdecide
        split at hdecide
        · cases hdecide
          exact ⟨htool, (requestId_resolveEffectiveLevel flags overrides static).trans hid⟩
        · cases hdecide
          refine ⟨htool, ?_⟩
          rw [requestId_relaxed, requestId_resolveEffectiveLevel, hid]

/-- **a tool call of an unregistered name fails before anything is read** -/
theorem decision_unregistered {call : ModelToolCall} (h : getToolDefinition call.name = none)
    (reply : CallReply) :
    decision reply call = .error (HitlPolicy.unknownToolError call.name).message := by
  have hclassify : HitlPolicy.classifyToolCall reply.requestId.text call.name call.input
      = .error (HitlPolicy.unknownToolError call.name) := by
    simp only [HitlPolicy.classifyToolCall, h]
  unfold decision
  split
  · rw [hclassify]
  · simp only [HitlPolicy.decide, hclassify]

/-! ## the events of a call -/

/-- the real call an event belongs to -/
def Event.id : Event → Option CallId
  | .asked _ | .planned _ _ => none
  | .executed id _ _ _ | .audited id _ | .notified id _ | .pendingCreated id _ | .answered id _ _ =>
    some id

def eventsOf (id : CallId) (events : List Event) : List Event :=
  events.filter fun e => e.id = some id

theorem mem_eventsOf {id : CallId} {events : List Event} {e : Event} :
    e ∈ eventsOf id events ↔ e ∈ events ∧ e.id = some id := by
  rw [eventsOf, List.mem_filter, decide_eq_true_iff]

theorem eventsOf_append (id : CallId) (es fs : List Event) :
    eventsOf id (es ++ fs) = eventsOf id es ++ eventsOf id fs := List.filter_append _ _

theorem eventsOf_eq_self {id : CallId} {events : List Event} (h : ∀ e ∈ events, e.id = some id) :
    eventsOf id events = events :=
  List.filter_eq_self.mpr fun e he => decide_eq_true (h e he)

theorem eventsOf_eq_nil {id : CallId} {events : List Event} (h : ∀ e ∈ events, e.id ≠ some id) :
    eventsOf id events = [] :=
  List.filter_eq_nil_iff.mpr fun e he => by simpa using h e he

section
variable {service : AgentService} {input : AgentTurnInput} {nonce : SessionNonce} {id : CallId}
  {reply : CallReply} {call : ModelToolCall} {d : HitlDecision} {value : JsValue}

/-- what follows a return of the executor leaves an audit row and a notification at most -/
theorem report_events {e : Event}
    (he : e ∈ (report service input nonce id reply call d value).events) :
    (∃ row, e = .audited id row) ∨ ∃ event, e = .notified id event := by
  have haudited (he : e ∈ (if reply.audit.fate.applies then
      [Event.audited id (auditCall service input call d)] else [])) :
      (∃ row, e = .audited id row) ∨ ∃ event, e = .notified id event := by
    split at he
    · exact Or.inl ⟨_, List.mem_singleton.mp he⟩
    · cases he
  simp only [report] at he
  split at he
  · exact haudited he
  · split at he
    · split at he
      · exact haudited he
      · rcases List.mem_append.mp he with he | he
        · exact haudited he
        · exact Or.inr ⟨_, List.mem_singleton.mp he⟩
    · exact haudited he

theorem report_id (e : Event) (he : e ∈ (report service input nonce id reply call d value).events) :
    e.id = some id := by
  rcases report_events he with ⟨row, rfl⟩ | ⟨event, rfl⟩ <;> rfl

theorem execute_id : ∀ e ∈ (execute service input nonce id reply call d).events,
    e.id = some id := by
  intro e he
  unfold execute at he
  split at he
  · cases he
  · rw [List.mem_singleton.mp he]
    rfl
  · rcases List.mem_cons.mp he with rfl | he
    · rfl
    · exact report_id _ he

theorem runRealToolCall_id (s : TurnState) :
    ∀ e ∈ (runRealToolCall service input nonce id reply call s).events, e.id = some id := by
  intro e he
  unfold runRealToolCall at he
  split at he
  · cases he
  · simp only at he
    split at he
    · cases he
    · unfold attempt at he
      split at he
      · cases he
      · split at he
        · simp only [defer] at he
          split at he
          · rw [List.mem_singleton.mp he]
            rfl
          · cases he
        · exact execute_id e he

end

/-! ## the ways of a call -/

/-- how far a real call gets -/
inductive CallPath (service : AgentService) (input : AgentTurnInput) (nonce : SessionNonce)
    (id : CallId) (reply : CallReply) (call : ModelToolCall) (s : TurnState) : Attempt → Prop
  | disabled (integration : IntegrationName)
      (h : disabledIntegration reply call = some integration) :
      CallPath service input nonce id reply call s ⟨.disabled integration, []⟩
  | repeated (h : service.config.maxConsecutiveToolFailures
        ≤ s.consecutiveFailures (buildToolCallKey call.name call.input)) :
      CallPath service input nonce id reply call s
        ⟨.repeated (s.consecutiveFailures (buildToolCallKey call.name call.input)), []⟩
  | undecided (message : JsString) (h : decision reply call = .error message) :
      CallPath service input nonce id reply call s ⟨.failed message, []⟩
  | deferred (d : HitlDecision) (level : PendingApprovalLevel) (hd : decision reply call = .ok d)
      (hl : pendingLevel d.level = some level) :
      CallPath service input nonce id reply call s
        (defer service input id reply call d level s.messages)
  | executed (d : HitlDecision) (hd : decision reply call = .ok d) (hl : pendingLevel d.level = none) :
      CallPath service input nonce id reply call s (execute service input nonce id reply call d)

section
variable {service : AgentService} {input : AgentTurnInput} {nonce : SessionNonce} {id : CallId}
  {reply : CallReply} {call : ModelToolCall} {s : TurnState}

theorem callPath (service : AgentService) (input : AgentTurnInput) (nonce : SessionNonce)
    (id : CallId) (reply : CallReply) (call : ModelToolCall) (s : TurnState) :
    CallPath service input nonce id reply call s
      (runRealToolCall service input nonce id reply call s) := by
  unfold runRealToolCall
  split
  next integration h => exact .disabled integration h
  next =>
    simp only
    split
    next h => exact .repeated h
    next =>
      unfold attempt
      split
      next message h => exact .undecided message h
      next d hd =>
        split
        next level hl => exact .deferred d level hd hl
        next hl => exact .executed d hd hl

/-- an executor that has run -/
theorem executed_of_mem {id' : CallId} {call' : ModelToolCall} {d : HitlDecision}
    {result : Except JsString JsValue}
    (h : .executed id' call' d result ∈
      (runRealToolCall service input nonce id reply call s).events) :
    call' = call ∧ decision reply call = .ok d ∧
      runRealToolCall service input nonce id reply call s
        = execute service input nonce id reply call d ∧
      ((∃ message, reply.execute = .threw message ∧ result = .error message) ∨
        ∃ value, reply.execute = .returned value ∧ result = .ok value) := by
  have hpath := callPath service input nonce id reply call s
  generalize runRealToolCall service input nonce id reply call s = a at h hpath
  cases hpath with
  | disabled integration _ => cases h
  | repeated _ => cases h
  | undecided message _ => cases h
  | deferred d' level _ _ =>
    simp only [defer] at h
    split at h
    · cases List.mem_singleton.mp h
    · cases h
  | executed d' hd _ =>
    unfold execute at h
    split at h
    next => cases h
    next message hx =>
      cases List.mem_singleton.mp h
      exact ⟨rfl, hd, rfl, Or.inl ⟨message, hx, rfl⟩⟩
    next value hx =>
      rcases List.mem_cons.mp h with h | h
      · cases h
        exact ⟨rfl, hd, rfl, Or.inr ⟨value, hx, rfl⟩⟩
      · rcases report_events h with ⟨row, h⟩ | ⟨event, h⟩ <;> cases h

end

/-! ## the turn -/

/-- the calls in the answers a turn gets, with `n` iterations left from the `i`-th on -/
def calledBy (replies : Nat → ModelReply) : Nat → Nat → List ModelToolCall
  | 0, _ => []
  | n + 1, i =>
    match replies i with
    | .threw _ => []
    | .response response =>
      if isFinal response then [] else response.toolCalls ++ calledBy replies n (i + 1)

/-- the calls of a turn -/
def turnCalls (config : AgentConfig) (replies : Nat → ModelReply) : List ModelToolCall :=
  calledBy replies config.maxIterationsPerTurn 0

section
variable {service : AgentService} {input : AgentTurnInput} {nonce : SessionNonce}
  {world : CallId → CallReply} {replies : Nat → ModelReply} {call : ModelToolCall} {s : TurnState}

theorem handleToolCall_plan (h : isPlanTool call.name = true) :
    ∃ handled, handleToolCall service input nonce world call s = s.planned call handled := by
  unfold handleToolCall
  split
  · exact ⟨_, rfl⟩
  next h1 =>
    split
    · exact ⟨_, rfl⟩
    next h2 =>
      rw [isPlanTool, decide_eq_false h1, decide_eq_false h2] at h
      cases h

theorem handleToolCall_real (h : isPlanTool call.name = false) :
    handleToolCall service input nonce world call s
      = handleRealToolCall service input nonce world call s := by
  obtain ⟨h1, h2⟩ := Bool.or_eq_false_iff.mp h
  rw [handleToolCall, if_neg (of_decide_eq_false h1), if_neg (of_decide_eq_false h2)]

theorem iterationsUsed_handleToolCall (call : ModelToolCall) (s : TurnState) :
    (handleToolCall service input nonce world call s).1.iterationsUsed = s.iterationsUsed := by
  cases h : isPlanTool call.name with
  | true =>
    obtain ⟨handled, heq⟩ := handleToolCall_plan (s := s) h
    rw [heq]
    rfl
  | false =>
    rw [handleToolCall_real h]
    rfl

theorem handleToolCalls_inv {P : TurnState → Prop} (calls : List ModelToolCall)
    (hP : ∀ call ∈ calls, ∀ s, P s → P (handleToolCall service input nonce world call s).1) :
    ∀ s, P s → P (handleToolCalls service input nonce world calls s).1 := by
  induction calls with
  | nil => exact fun _ hs => hs
  | cons call calls ih =>
    intro s hs
    refine ih (fun c hc => hP c (List.mem_cons_of_mem _ hc)) _ ?_
    exact hP call List.mem_cons_self s hs

theorem iterationsUsed_respond (calls : List ModelToolCall) (s : TurnState) :
    (respond service input nonce world calls s).iterationsUsed = s.iterationsUsed :=
  handleToolCalls_inv (P := fun t => t.iterationsUsed = s.iterationsUsed) calls
    (fun c _ t ht => (iterationsUsed_handleToolCall c t).trans ht) _ rfl

/-- **what every call and every new message preserves, the turn preserves** -/
theorem loop_inv {P : TurnState → Prop} (hask : ∀ s, P s → P (s.ask input))
    (hmeet : ∀ s modelId, P s → P (s.meet modelId)) (hpush : ∀ s message, P s → P (s.push message))
    (n : Nat) :
    ∀ s, (∀ call ∈ calledBy replies n s.iterationsUsed, ∀ s, P s →
        P (handleToolCall service input nonce world call s).1) →
      P s → P (turnLoop service input nonce world replies n s).state := by
  induction n with
  | zero => exact fun _ _ hs => hs
  | succ n ih =>
    intro s hP hs
    cases hreply : replies s.iterationsUsed with
    | threw message =>
      simp only [turnLoop, hreply]
      exact hask s hs
    | response response =>
      simp only [calledBy, hreply] at hP
      simp only [turnLoop, hreply]
      split
      next => exact hmeet _ _ (hask s hs)
      next hfinal =>
        rw [if_neg hfinal] at hP
        refine ih _ (fun call hcall => hP call (List.mem_append_right _ ?_)) ?_
        · rw [iterationsUsed_respond] at hcall
          exact hcall
        · refine hpush _ _ (handleToolCalls_inv _ (fun call hcall => ?_) _ ?_)
          · exact hP call (List.mem_append_left _ hcall)
          · exact hpush _ _ (hmeet _ _ (hask s hs))

theorem turn_inv {P : TurnState → Prop} (hinit : P (.init input))
    (hask : ∀ s, P s → P (s.ask input)) (hmeet : ∀ s modelId, P s → P (s.meet modelId))
    (hpush : ∀ s message, P s → P (s.push message))
    (hcall : ∀ call ∈ turnCalls service.config replies, ∀ s, P s →
      P (handleToolCall service input nonce world call s).1) :
    P (runTurn service input nonce world replies).state :=
  loop_inv hask hmeet hpush _ _ hcall hinit

end

/-! ## the calls of a turn -/

def Event.answeredCall : Event → Option ModelToolCall
  | .answered _ call _ => some call
  | _ => none

/-- the real calls that have been handled, in order -/
def handledCalls (events : List Event) : List ModelToolCall := events.filterMap Event.answeredCall

def realCalls (calls : List ModelToolCall) : List ModelToolCall :=
  calls.filter fun call => !isPlanTool call.name

section
variable {service : AgentService} {input : AgentTurnInput} {nonce : SessionNonce} {id : CallId}
  {reply : CallReply} {world : CallId → CallReply} {replies : Nat → ModelReply}
  {call : ModelToolCall} {s : TurnState}

/-- the result of a call comes after its attempt -/
theorem not_answered {call' : ModelToolCall} {outcome : CallOutcome} :
    .answered id call' outcome ∉ (runRealToolCall service input nonce id reply call s).events := by
  have hpath := callPath service input nonce id reply call s
  generalize runRealToolCall service input nonce id reply call s = a at hpath
  cases hpath with
  | disabled integration _ => exact List.not_mem_nil
  | repeated _ => exact List.not_mem_nil
  | undecided message _ => exact List.not_mem_nil
  | deferred d level _ _ =>
    simp only [defer]
    split <;> simp
  | executed d _ _ =>
    unfold execute
    split
    · exact List.not_mem_nil
    · simp
    next value _ =>
      intro h
      rcases List.mem_cons.mp h with h | h
      · cases h
      · rcases report_events h with ⟨row, h⟩ | ⟨event, h⟩ <;> cases h

theorem handledCalls_append (es fs : List Event) :
    handledCalls (es ++ fs) = handledCalls es ++ handledCalls fs := List.filterMap_append

theorem handledCalls_attempt :
    handledCalls (runRealToolCall service input nonce id reply call s).events = [] := by
  refine List.filterMap_eq_nil_iff.mpr fun e he => ?_
  cases e with
  | answered id' call' outcome =>
    have hid := runRealToolCall_id s _ he
    cases hid
    exact absurd he not_answered
  | _ => rfl

theorem handledCalls_handleToolCall :
    handledCalls (handleToolCall service input nonce world call s).1.events
      = handledCalls s.events ++ realCalls [call] := by
  cases h : isPlanTool call.name with
  | true =>
    obtain ⟨handled, heq⟩ := handleToolCall_plan (s := s) h
    have hreal : realCalls [call] = [] := by
      simp only [realCalls, List.filter_cons, h]
      rfl
    rw [heq, hreal]
    exact handledCalls_append _ _
  | false =>
    have hreal : realCalls [call] = [call] := by
      simp only [realCalls, List.filter_cons, h]
      rfl
    rw [handleToolCall_real h, hreal]
    show handledCalls (s.events ++ (_ ++ [_])) = _
    rw [handledCalls_append, handledCalls_append, handledCalls_attempt]
    rfl

theorem handledCalls_handleToolCalls (calls : List ModelToolCall) :
    ∀ s, handledCalls (handleToolCalls service input nonce world calls s).1.events
      = handledCalls s.events ++ realCalls calls := by
  induction calls with
  | nil => exact fun s => (List.append_nil _).symm
  | cons call calls ih =>
    intro s
    show handledCalls (handleToolCalls service input nonce world calls _).1.events = _
    rw [ih, handledCalls_handleToolCall, List.append_assoc]
    congr 1
    exact (List.filter_append [call] calls).symm

theorem handledCalls_turnLoop (n : Nat) :
    ∀ s, handledCalls (turnLoop service input nonce world replies n s).state.events
      = handledCalls s.events ++ realCalls (calledBy replies n s.iterationsUsed) := by
  induction n with
  | zero => exact fun s => (List.append_nil _).symm
  | succ n ih =>
    intro s
    have hask : handledCalls (s.ask input).events = handledCalls s.events := by
      show handledCalls (s.events ++ [_]) = _
      rw [handledCalls_append]
      exact List.append_nil _
    cases hreply : replies s.iterationsUsed with
    | threw message =>
      simp only [calledBy, turnLoop, hreply]
      exact hask.trans (List.append_nil _).symm
    | response response =>
      simp only [calledBy, turnLoop, hreply]
      split
      · exact hask.trans (List.append_nil _).symm
      · have hrespond (t : TurnState) :
            handledCalls (respond service input nonce world response.toolCalls t).events
              = handledCalls t.events ++ realCalls response.toolCalls :=
          handledCalls_handleToolCalls response.toolCalls (t.push (toolUseMessage response.toolCalls))
        have happend : realCalls (response.toolCalls ++ calledBy replies n (s.iterationsUsed + 1))
            = realCalls response.toolCalls ++ realCalls (calledBy replies n (s.iterationsUsed + 1)) :=
          List.filter_append _ _
        rw [ih, hrespond, iterationsUsed_respond, happend, ← List.append_assoc]
        exact congrArg (fun l => l ++ _ ++ _) hask

/-- **a turn handles the real calls of its answers, each once and in order** -/
theorem handledCalls_turn (service : AgentService) (input : AgentTurnInput) (nonce : SessionNonce)
    (world : CallId → CallReply) (replies : Nat → ModelReply) :
    handledCalls (runTurn service input nonce world replies).state.events
      = realCalls (turnCalls service.config replies) :=
  handledCalls_turnLoop _ _

end

/-! ## the events of a turn -/

/-- the events of a handled call are those of its attempt, and its result comes last; the attempt was
made in a state in which no count of failures exceeds the number of calls before it -/
structure Traced (service : AgentService) (input : AgentTurnInput) (nonce : SessionNonce)
    (world : CallId → CallReply) (calls : List ModelToolCall) (s : TurnState) : Prop where
  count : s.handled = (handledCalls s.events).length
  failures : ∀ key, s.consecutiveFailures key ≤ s.handled
  bounded : ∀ e ∈ s.events, ∀ id, e.id = some id → id < s.handled
  attempts : ∀ id < s.handled, ∃ call ∈ calls, ∃ s₀ : TurnState, isPlanTool call.name = false ∧
    (∀ key, s₀.consecutiveFailures key ≤ id) ∧
    eventsOf id s.events = (runRealToolCall service input nonce id (world id) call s₀).events ++
      [.answered id call (runRealToolCall service input nonce id (world id) call s₀).outcome]

section
variable {service : AgentService} {input : AgentTurnInput} {nonce : SessionNonce}
  {world : CallId → CallReply} {replies : Nat → ModelReply} {calls : List ModelToolCall}
  {s : TurnState}

theorem failuresAfter_le (outcome : CallOutcome) (n : Nat) : outcome.failuresAfter n ≤ n + 1 := by
  cases outcome with
  | disabled _ => exact Nat.le_succ n
  | repeated _ => exact Nat.le_succ n
  | deferred _ => exact Nat.zero_le _
  | answered _ => exact Nat.zero_le _
  | failed _ => exact Nat.le_refl _

/-- an event that belongs to no real call -/
theorem Traced.other (h : Traced service input nonce world calls s) {t : TurnState} {e : Event}
    (hid : e.id = none) (hcall : e.answeredCall = none)
    (hfailures : ∀ key, t.consecutiveFailures key ≤ s.handled) (hhandled : t.handled = s.handled)
    (hevents : t.events = s.events ++ [e]) : Traced service input nonce world calls t := by
  have heventsOf (id : CallId) : eventsOf id t.events = eventsOf id s.events := by
    have hnone : eventsOf id [e] = [] := by
      refine eventsOf_eq_nil fun e' he' hid' => ?_
      rw [List.mem_singleton.mp he', hid] at hid'
      cases hid'
    rw [hevents, eventsOf_append, hnone, List.append_nil]
  constructor
  · rw [hevents, handledCalls_append, hhandled, h.count, handledCalls, handledCalls,
      List.filterMap_cons_none hcall]
    exact congrArg List.length (List.append_nil _).symm
  · exact hhandled ▸ hfailures
  · intro e' he' id hid'
    rw [hhandled]
    rw [hevents] at he'
    rcases List.mem_append.mp he' with he' | he'
    · exact h.bounded e' he' id hid'
    · rw [List.mem_singleton.mp he', hid] at hid'
      cases hid'
  · intro id hid'
    rw [heventsOf]
    exact h.attempts id (hhandled ▸ hid')

theorem traced_call {call : ModelToolCall} (hcall : call ∈ calls)
    (h : Traced service input nonce world calls s) :
    Traced service input nonce world calls
      (handleToolCall service input nonce world call s).1 := by
  cases hplan : isPlanTool call.name with
  | true =>
    obtain ⟨handled, heq⟩ := handleToolCall_plan (s := s) hplan
    rw [heq]
    exact h.other (e := .planned call handled.2) rfl rfl h.failures rfl rfl
  | false =>
    have hhandled : handledCalls (handleToolCall service input nonce world call s).1.events
        = handledCalls s.events ++ [call] := by
      rw [handledCalls_handleToolCall, realCalls, List.filter_cons, hplan]
      rfl
    rw [handleToolCall_real hplan] at hhandled ⊢
    let a := runRealToolCall service input nonce s.handled (world s.handled) call s
    have hnew : ∀ e ∈ a.events ++ [Event.answered s.handled call a.outcome],
        e.id = some s.handled := by
      intro e he
      rcases List.mem_append.mp he with he | he
      · exact runRealToolCall_id s e he
      · rw [List.mem_singleton.mp he]
        rfl
    change handledCalls (s.after call a).events = _ at hhandled
    show Traced service input nonce world calls (s.after call a)
    constructor
    · rw [hhandled, List.length_append, ← h.count]
      rfl
    · intro key
      show (if key = _ then _ else _) ≤ s.handled + 1
      split
      · refine (failuresAfter_le a.outcome _).trans (Nat.succ_le_succ ?_)
        exact h.failures _
      · exact Nat.le_succ_of_le (h.failures key)
    · intro e he id hid
      show id < s.handled + 1
      rcases List.mem_append.mp he with he | he
      · exact Nat.lt_succ_of_lt (h.bounded e he id hid)
      · rw [hnew e he, Option.some.injEq] at hid
        exact hid ▸ Nat.lt_succ_self s.handled
    · intro id hid
      show ∃ call ∈ calls, ∃ s₀, _ ∧ _ ∧ eventsOf id (s.events ++ _) = _
      rw [eventsOf_append]
      rcases Nat.lt_succ_iff_lt_or_eq.mp hid with hlt | rfl
      · obtain ⟨call', hcall', s₀, hreal, hle, heq⟩ := h.attempts id hlt
        refine ⟨call', hcall', s₀, hreal, hle, ?_⟩
        rw [heq, eventsOf_eq_nil, List.append_nil]
        intro e he hid'
        rw [hnew e he, Option.some.injEq] at hid'
        exact Nat.lt_irrefl _ (hid' ▸ hlt)
      · refine ⟨call, hcall, s, hplan, h.failures, ?_⟩
        rw [eventsOf_eq_self hnew, eventsOf_eq_nil, List.nil_append]
        exact fun e he hid' => Nat.lt_irrefl _ (h.bounded e he _ hid')

/-- **the events of a turn, call by call** -/
theorem traced_turn (service : AgentService) (input : AgentTurnInput) (nonce : SessionNonce)
    (world : CallId → CallReply) (replies : Nat → ModelReply) :
    Traced service input nonce world (turnCalls service.config replies)
      (runTurn service input nonce world replies).state := by
  refine turn_inv ⟨rfl, fun _ => Nat.le_refl _, fun _ he => ?_, fun _ hid => ?_⟩
    (fun s h => h.other (e := .asked _) rfl rfl h.failures rfl rfl)
    (fun _ _ h => ⟨h.1, h.2, h.3, h.4⟩) (fun _ _ h => ⟨h.1, h.2, h.3, h.4⟩)
    fun call hcall s h => traced_call hcall h
  · cases he
  · cases hid

end

/-! ## the messages of a turn -/

/-- a call of either kind and its tool result -/
def Event.settled : Event → Option (ModelToolCall × ModelMessageContentBlock)
  | .answered _ call outcome => some (call, outcome.block call)
  | .planned call block => some (call, block)
  | _ => none

def settled (events : List Event) : List (ModelToolCall × ModelMessageContentBlock) :=
  events.filterMap Event.settled

/-- the two messages that one answer of the model adds -/
def roundMessages (round : List (ModelToolCall × ModelMessageContentBlock)) : List ModelMessage :=
  [toolUseMessage (round.map Prod.fst), toolResultMessage (round.map Prod.snd)]

section
variable {service : AgentService} {input : AgentTurnInput} {nonce : SessionNonce} {id : CallId}
  {reply : CallReply} {world : CallId → CallReply} {replies : Nat → ModelReply}
  {call : ModelToolCall} {s : TurnState}

theorem settled_append (es fs : List Event) : settled (es ++ fs) = settled es ++ settled fs :=
  List.filterMap_append

theorem settled_attempt :
    settled (runRealToolCall service input nonce id reply call s).events = [] := by
  refine List.filterMap_eq_nil_iff.mpr fun e he => ?_
  have hid := runRealToolCall_id s _ he
  cases e with
  | answered id' call' outcome =>
    cases hid
    exact absurd he not_answered
  | planned call' block => cases hid
  | _ => rfl

theorem settled_handleToolCall :
    settled (handleToolCall service input nonce world call s).1.events
      = settled s.events ++ [(call, (handleToolCall service input nonce world call s).2)] := by
  cases h : isPlanTool call.name with
  | true =>
    obtain ⟨handled, heq⟩ := handleToolCall_plan (s := s) h
    rw [heq]
    exact settled_append _ _
  | false =>
    rw [handleToolCall_real h]
    show settled (s.events ++ (_ ++ [_])) = _
    rw [settled_append, settled_append, settled_attempt]
    rfl

theorem messages_handleToolCall :
    (handleToolCall service input nonce world call s).1.messages = s.messages := by
  cases h : isPlanTool call.name with
  | true =>
    obtain ⟨handled, heq⟩ := handleToolCall_plan (s := s) h
    rw [heq]
    rfl
  | false =>
    rw [handleToolCall_real h]
    rfl

/-- the calls of one answer: one result each, in their order, and no message yet -/
theorem round_handleToolCalls (calls : List ModelToolCall) :
    ∀ s, ∃ round : List (ModelToolCall × ModelMessageContentBlock), round.map Prod.fst = calls ∧
      round.map Prod.snd = (handleToolCalls service input nonce world calls s).2 ∧
      settled (handleToolCalls service input nonce world calls s).1.events
        = settled s.events ++ round ∧
      (handleToolCalls service input nonce world calls s).1.messages = s.messages := by
  induction calls with
  | nil => exact fun s => ⟨[], rfl, rfl, (List.append_nil _).symm, rfl⟩
  | cons call calls ih =>
    intro s
    obtain ⟨round, hcalls, hblocks, hsettled, hmessages⟩ :=
      ih (handleToolCall service input nonce world call s).1
    refine ⟨(call, (handleToolCall service input nonce world call s).2) :: round, ?_, ?_, ?_, ?_⟩
    · rw [List.map_cons, hcalls]
    · rw [List.map_cons, hblocks]
      rfl
    · rw [settled_handleToolCall, List.append_assoc] at hsettled
      exact hsettled
    · exact hmessages.trans messages_handleToolCall

theorem rounds_turnLoop (n : Nat) :
    ∀ s, ∃ rounds : List (List (ModelToolCall × ModelMessageContentBlock)),
      (turnLoop service input nonce world replies n s).state.messages
        = s.messages ++ rounds.flatMap roundMessages ∧
      settled (turnLoop service input nonce world replies n s).state.events
        = settled s.events ++ rounds.flatten ∧
      rounds.flatten.map Prod.fst = calledBy replies n s.iterationsUsed := by
  induction n with
  | zero => exact fun s => ⟨[], (List.append_nil _).symm, (List.append_nil _).symm, rfl⟩
  | succ n ih =>
    intro s
    have hask : settled (s.ask input).events = settled s.events := by
      show settled (s.events ++ [_]) = _
      rw [settled_append]
      exact List.append_nil _
    cases hreply : replies s.iterationsUsed with
    | threw message =>
      simp only [turnLoop, calledBy, hreply]
      exact ⟨[], (List.append_nil _).symm, hask.trans (List.append_nil _).symm, rfl⟩
    | response response =>
      simp only [turnLoop, calledBy, hreply]
      split
      · exact ⟨[], (List.append_nil _).symm, hask.trans (List.append_nil _).symm, rfl⟩
      · let asked := (s.ask input).meet response.modelId
        obtain ⟨round, hcalls, hblocks, hsettled, hmessages⟩ := @round_handleToolCalls service input
          nonce world response.toolCalls (asked.push (toolUseMessage response.toolCalls))
        obtain ⟨rounds, hms, hss, hcs⟩ :=
          ih (respond service input nonce world response.toolCalls asked)
        refine ⟨round :: rounds, ?_, ?_, ?_⟩
        · have hround : (respond service input nonce world response.toolCalls asked).messages
              = s.messages ++ roundMessages round := by
            show (handleToolCalls service input nonce world response.toolCalls
              (asked.push (toolUseMessage response.toolCalls))).1.messages ++ [_] = _
            rw [hmessages, roundMessages, hcalls, hblocks]
            exact List.append_assoc _ _ _
          rw [hms, hround, List.flatMap_cons, List.append_assoc]
        · have hround : settled (respond service input nonce world response.toolCalls asked).events
              = settled s.events ++ round := hsettled.trans (congrArg (· ++ round) hask)
          rw [hss, hround, List.flatten_cons, List.append_assoc]
        · rw [List.flatten_cons, List.map_append, hcalls, hcs, iterationsUsed_respond]
          rfl

/-- **the messages of a turn**: the history, the objective, and for each answer its calls and their
results, one result a call and in the same order -/
theorem rounds_turn (service : AgentService) (input : AgentTurnInput) (nonce : SessionNonce)
    (world : CallId → CallReply) (replies : Nat → ModelReply) :
    ∃ rounds : List (List (ModelToolCall × ModelMessageContentBlock)),
      (runTurn service input nonce world replies).state.messages
        = input.history ++ [⟨.user, .text input.objective⟩] ++ rounds.flatMap roundMessages ∧
      settled (runTurn service input nonce world replies).state.events = rounds.flatten ∧
      rounds.flatten.map Prod.fst = turnCalls service.config replies :=
  rounds_turnLoop service.config.maxIterationsPerTurn (.init input)

/-- **every result of a real call is in a user message when the turn ends** -/
theorem answered_block {outcome : CallOutcome}
    (h : .answered id call outcome ∈ (runTurn service input nonce world replies).state.events) :
    ∃ message ∈ (runTurn service input nonce world replies).state.messages,
      message.role = .user ∧ outcome.block call ∈ message.content.toBlocks := by
  obtain ⟨rounds, hmessages, hsettled, -⟩ := rounds_turn service input nonce world replies
  have hmem : (call, outcome.block call) ∈ rounds.flatten := by
    rw [← hsettled]
    exact List.mem_filterMap.mpr ⟨_, h, rfl⟩
  obtain ⟨round, hround, hpair⟩ := List.mem_flatten.mp hmem
  refine ⟨toolResultMessage (round.map Prod.snd), ?_, rfl, List.mem_map.mpr ⟨_, hpair, rfl⟩⟩
  rw [hmessages]
  refine List.mem_append_right _ (List.mem_flatMap.mpr ⟨round, hround, ?_⟩)
  exact List.mem_cons_of_mem _ (List.mem_singleton_self _)

end

end Agent
