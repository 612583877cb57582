import JinCore.Agent.Turn

/-!
# What a sub-agent can reach

`allowedTools` decides what is declared to the model (`declared_allowed`); what the model then calls
goes to `handleRealToolCall`, which looks at the registry only.

* `LeastPrivilege`        executors and pending approvals only for the tools allowed;
* `least_privilege_iff`   this holds exactly when the model itself keeps to them;
* `privilege_exceeded`    a turn without any tool allowed that runs one.
-/

namespace Agent
open JsString Common Tools Hitl ModelProvider Security Audit

/-- the tool whose executor has run, or for which an approval has been created -/
def Event.reachedTool : Event → Option JsString
  | .executed _ call _ _ => some call.name
  | .pendingCreated _ input => some input.toolName
  | _ => none

def LeastPrivilege (allowed : List JsString) (events : List Event) : Prop :=
  ∀ e ∈ events, ∀ name, e.reachedTool = some name → name ∈ allowed

/-- the tools declared to the model are those of the plan and allowed ones -/
theorem declared_allowed {allowed : List JsString} {tool : ModelToolDeclaration}
    (h : tool ∈ buildToolDeclarations (some allowed)) :
    isPlanTool tool.name = true ∨ tool.name ∈ allowed := by
  rcases List.mem_cons.mp h with rfl | h
  · exact Or.inl rfl
  rcases List.mem_cons.mp h with rfl | h
  · exact Or.inl rfl
  obtain ⟨definition, hdefinition, rfl⟩ := List.mem_map.mp h
  have hmem := (List.mem_filter.mp hdefinition).2
  simp only [Option.all_some, decide_eq_true_eq] at hmem
  exact Or.inr hmem

section
variable {service : AgentService} {input : AgentTurnInput} {nonce : SessionNonce} {id : CallId}
  {reply : CallReply} {call : ModelToolCall} {s : TurnState}

/-- what a call reaches is its own tool, and a registered one -/
theorem reachedTool_call {e : Event} {name : JsString}
    (he : e ∈ (runRealToolCall service input nonce id reply call s).events)
    (hname : e.reachedTool = some name) :
    name = call.name ∧ ∃ tool, getToolDefinition call.name = some tool := by
  have hpath := callPath service input nonce id reply call s
  cases e with
  | executed id' call' d result =>
    obtain ⟨rfl, hd, -⟩ := executed_of_mem he
    cases hname
    exact ⟨rfl, (decision_ok hd).1⟩
  | pendingCreated id' pending =>
    cases hname
    generalize runRealToolCall service input nonce id reply call s = a at he hpath
    cases hpath with
    | disabled integration _ => cases he
    | repeated _ => cases he
    | undecided message _ => cases he
    | deferred d level hd _ =>
      simp only [defer] at he
      split at he
      · cases List.mem_singleton.mp he
        exact ⟨rfl, (decision_ok hd).1⟩
      · cases he
    | executed d hd _ =>
      refine ⟨?_, (decision_ok hd).1⟩
      unfold execute at he
      split at he
      · cases he
      · cases List.mem_singleton.mp he
      next value _ =>
        rcases List.mem_cons.mp he with h | h
        · cases h
        · rcases report_events h with ⟨row, h⟩ | ⟨event, h⟩ <;> cases h
  | asked _ => cases hname
  | audited _ _ => cases hname
  | notified _ _ => cases hname
  | answered _ _ _ => cases hname
  | planned _ _ => cases hname

theorem decision_registered {tool : ToolDefinition} (htool : getToolDefinition call.name = some tool)
    (value : JsValue) : ∃ d, decision (returningReply value) call = .ok d := by
  have hdecide : ∃ d, HitlPolicy.decide .default .empty (fun _ => none) ⟨none, 0⟩ ⟨none, 0⟩
      sampleRequest.text call.name call.input = .ok d := by
    simp only [HitlPolicy.decide, HitlPolicy.classifyToolCall, htool]
    split <;> exact ⟨_, rfl⟩
  obtain ⟨d, hd⟩ := hdecide
  exact ⟨d, by simp only [decision, returningReply, hd]⟩

/-- a registered tool is reached when nothing stands in the way -/
theorem call_reaches {tool : ToolDefinition} (htool : getToolDefinition call.name = some tool)
    (hfailures : s.consecutiveFailures (buildToolCallKey call.name call.input)
      < service.config.maxConsecutiveToolFailures) (value : JsValue) :
    ∃ e ∈ (runRealToolCall service input nonce id (returningReply value) call s).events,
      e.reachedTool = some call.name := by
  obtain ⟨d, hd⟩ := decision_registered htool value
  have hrun : runRealToolCall service input nonce id (returningReply value) call s
      = attempt service input nonce id (returningReply value) call s.messages := by
    have hdisabled : disabledIntegration (returningReply value) call = none := rfl
    simp only [runRealToolCall, hdisabled]
    rw [if_neg (Nat.not_le_of_lt hfailures)]
  rw [hrun]
  simp only [attempt, hd]
  cases hl : pendingLevel d.level with
  | some level => exact ⟨_, List.mem_singleton_self _, rfl⟩
  | none => exact ⟨_, List.mem_cons_self, rfl⟩

end

/-- **When a sub-agent keeps to its tools.**  Executors run and approvals are created only for the
tools allowed, in every configuration and whatever becomes of the calls, exactly when each call that
the model makes before its first final answer is for the plan, for a name that is not registered, or
for a tool that is allowed. -/
theorem least_privilege_iff (input : AgentTurnInput) (allowed : List JsString) (nonce : SessionNonce)
    (replies : Nat → ModelReply) :
    (∀ service world, LeastPrivilege allowed
        (runTurn service { input with allowedTools := some allowed } nonce world
          replies).state.events) ↔
      ∀ n, ∀ call ∈ calledBy replies n 0, isPlanTool call.name = true ∨
        getToolDefinition call.name = none ∨ call.name ∈ allowed := by
  constructor
  · intro h n call hcall
    by_contra hnot
    rw [not_or, not_or, Bool.not_eq_true] at hnot
    obtain ⟨hreal, hregistered, hforbidden⟩ := hnot
    obtain ⟨tool, htool⟩ := Option.ne_none_iff_exists'.mp hregistered
    have hn : 0 < n := by
      cases n with
      | zero => cases hcall
      | succ n => exact Nat.succ_pos n
    -- a cap that the calls of the turn cannot use up
    let service : AgentService := { sampleService with
      config := ⟨n, (realCalls (calledBy replies n 0)).length + 1, 1, hn, Nat.succ_pos _, Nat.one_pos⟩ }
    let world : CallId → CallReply := fun _ => returningReply (.string (lit "ok"))
    have hprivilege := h service world
    have htraced := traced_turn service { input with allowedTools := some allowed } nonce world replies
    have hcalls := handledCalls_turn service { input with allowedTools := some allowed } nonce world
      replies
    generalize (runTurn service { input with allowedTools := some allowed } nonce world
      replies).state = s at hprivilege htraced hcalls
    have hmem : call ∈ handledCalls s.events := by
      rw [hcalls]
      exact List.mem_filter.mpr ⟨hcall, by rw [hreal]; rfl⟩
    obtain ⟨e, he, hcall'⟩ := List.mem_filterMap.mp hmem
    cases e with
    | answered id call' outcome =>
      cases hcall'
      have hid := htraced.bounded _ he id rfl
      obtain ⟨call', -, s₀, -, hle, hevents⟩ := htraced.attempts id hid
      have hgroup : Event.answered id call outcome ∈ eventsOf id s.events := mem_eventsOf.mpr ⟨he, rfl⟩
      rw [hevents] at hgroup
      rcases List.mem_append.mp hgroup with hgroup | hgroup
      · exact not_answered hgroup
      · cases List.mem_singleton.mp hgroup
        have hbound : id < (realCalls (calledBy replies n 0)).length := by
          rw [htraced.count, hcalls] at hid
          exact hid
        have hfailures : s₀.consecutiveFailures (buildToolCallKey call.name call.input)
            < service.config.maxConsecutiveToolFailures :=
          Nat.lt_succ_of_lt (Nat.lt_of_le_of_lt (hle _) hbound)
        obtain ⟨e, he, hreached⟩ := call_reaches htool hfailures (.string (lit "ok"))
        have hevent : e ∈ eventsOf id s.events := by
          rw [hevents]
          exact List.mem_append_left _ he
        exact hforbidden (hprivilege e (mem_eventsOf.mp hevent).1 call.name hreached)
    | _ => cases hcall'
  · intro h service world e he name hname
    have htraced := traced_turn service { input with allowedTools := some allowed } nonce world replies
    have hid : ∃ id, e.id = some id := by
      cases e with
      | asked _ => cases hname
      | planned _ _ => cases hname
      | _ => exact ⟨_, rfl⟩
    obtain ⟨id, hid⟩ := hid
    obtain ⟨call, hcall, s₀, hreal, -, hevents⟩ := htraced.attempts id (htraced.bounded e he id hid)
    have hgroup := mem_eventsOf.mpr ⟨he, hid⟩
    rw [hevents] at hgroup
    rcases List.mem_append.mp hgroup with hgroup | hgroup
    · obtain ⟨rfl, tool, htool⟩ := reachedTool_call hgroup hname
      rcases h _ call hcall with hplan | hnone | hallowed
      · rw [hreal] at hplan
        cases hplan
      · rw [htool] at hnone
        cases hnone
      · exact hallowed
    · cases List.mem_singleton.mp hgroup
      cases hname

/-! ## a turn that exceeds its tools -/

def readCall : ModelToolCall where
  id := lit "call-1"
  name := lit "readEmails"
  input := lit "\x7b\"maxResults\":10\x7d"

def readDecision : HitlDecision where
  requestId := sampleRequest.text
  toolName := lit "readEmails"
  level := .auto
  approvalsRequired := 0
  notifyAfterExecution := false
  relaxedBy := none

/-- a ticket without tools: no tool is declared to the sub-agent, it names one, and it runs -/
theorem privilege_exceeded :
    ¬ LeastPrivilege [] (runTurn sampleService { sampleInput with allowedTools := some [] } sampleNonce
      (fun _ => returningReply (.string (lit "3 correos"))) (repliesOf readCall)).state.events := by
  intro h
  have hexecuted : Event.executed 0 readCall readDecision (.ok (.string (lit "3 correos"))) ∈
      (runTurn sampleService { sampleInput with allowedTools := some [] } sampleNonce
        (fun _ => returningReply (.string (lit "3 correos"))) (repliesOf readCall)).state.events :=
    .tail _ (.head _)
  exact absurd (h _ hexecuted _ rfl) List.not_mem_nil

end Agent
