import JinCore.Agent.Turn

/-!
# What a tool result says of its executor

The audit row, the notification and the text of the result all come after the executor, inside the
`try` block that also holds the executor.

* `Honest`              no error result and an audit row wherever an executor has returned;
* `Reports`             the statements after the executor succeed, and its value has a text;
* `honest_results_iff`  the turn is honest exactly when they all do;
* `dishonest_results`   `deleteCalendarEventPast` succeeds with `undefined` and is reported as failed.
-/

namespace Agent
open JsString Common Tools Hitl ModelProvider Security Audit

def auditRequestId : AuditCall → JsString
  | .recordToolCall requestId .. => requestId
  | .recordApproval requestId .. => requestId
  | .recordRejection requestId .. => requestId
  | .recordExecutionFailure requestId .. => requestId
  | .recordTimeout requestId .. => requestId

/-- an executor that returned: its call is not reported as failed, and is in the audit log -/
structure HonestAt (events : List Event) (id : CallId) (d : HitlDecision) : Prop where
  result : ∀ call outcome, .answered id call outcome ∈ events →
    outcome.isError = false
  audit : ∃ row, .audited id row ∈ events ∧ auditRequestId row = d.requestId

def Honest (events : List Event) : Prop :=
  ∀ id call d value, .executed id call d (.ok value) ∈ events → HonestAt events id d

/-- the value has a JSON text -/
def hasText : JsValue → Bool
  | .string _ | .json _ => true
  | .undefined | .unserializable _ => false

/-- what follows a return of the executor goes well -/
structure Reports (reply : CallReply) (d : HitlDecision) (value : JsValue) : Prop where
  audit : reply.audit.fate = .ok
  notify : d.level = .notify → reply.notify = none
  text : hasText value = true

section
variable {service : AgentService} {input : AgentTurnInput} {nonce : SessionNonce} {id : CallId}
  {reply : CallReply} {call : ModelToolCall} {d : HitlDecision} {value : JsValue} {s : TurnState}

/-! ## one call -/

theorem isError_present : (present nonce call value).isError = !hasText value := by
  cases value with
  | string text => simp only [present, stringifyToolResult, wrapUntrustedContent, nonce.ok]; rfl
  | json text => simp only [present, stringifyToolResult, wrapUntrustedContent, nonce.ok]; rfl
  | undefined => rfl
  | unserializable message => rfl

theorem isError_report :
    (report service input nonce id reply call d value).outcome.isError = false ↔
      Reports reply d value := by
  constructor
  · intro h
    simp only [report] at h
    split at h
    · cases h
    next haudit =>
      rw [not_not] at haudit
      split at h
      next hlevel =>
        split at h
        · cases h
        next hnotify =>
          refine ⟨haudit, fun _ => hnotify, ?_⟩
          simpa only [isError_present, Bool.not_eq_false'] using h
      next hlevel =>
        refine ⟨haudit, fun hl => absurd hl hlevel, ?_⟩
        simpa only [isError_present, Bool.not_eq_false'] using h
  · rintro ⟨haudit, hnotify, htext⟩
    have hpresent : (present nonce call value).isError = false := by
      rw [isError_present, htext]
      rfl
    simp only [report, haudit, ne_eq, not_true_eq_false, if_false]
    split
    next hlevel =>
      simp only [hnotify hlevel]
      exact hpresent
    · exact hpresent

theorem audited_report (h : reply.audit.fate.applies = true) :
    .audited id (auditCall service input call d) ∈
      (report service input nonce id reply call d value).events := by
  simp only [report, h, if_true]
  split
  · exact List.mem_singleton_self _
  · split
    · split
      · exact List.mem_singleton_self _
      · exact List.mem_cons_self
    · exact List.mem_singleton_self _

/-- the events of a call that has been handled, and its result -/
def callEvents (service : AgentService) (input : AgentTurnInput) (nonce : SessionNonce)
    (id : CallId) (reply : CallReply) (call : ModelToolCall) (s : TurnState) : List Event :=
  (runRealToolCall service input nonce id reply call s).events ++
    [.answered id call (runRealToolCall service input nonce id reply call s).outcome]

theorem mem_callEvents {e : Event} : e ∈ callEvents service input nonce id reply call s ↔
    e ∈ (runRealToolCall service input nonce id reply call s).events ∨
      e = .answered id call (runRealToolCall service input nonce id reply call s).outcome := by
  rw [callEvents, List.mem_append, List.mem_singleton]

theorem honestAt_call (h : .executed id call d (.ok value) ∈
      (runRealToolCall service input nonce id reply call s).events) :
    HonestAt (callEvents service input nonce id reply call s) id d ↔ Reports reply d value := by
  obtain ⟨-, -, hrun, ⟨message, _, hm⟩ | ⟨value', hx, hv⟩⟩ := executed_of_mem h
  · cases hm
  · cases hv
    have houtcome : (runRealToolCall service input nonce id reply call s).outcome
        = (report service input nonce id reply call d value).outcome := by
      simp only [hrun, execute, hx]
    have hreport : (report service input nonce id reply call d value).outcome.isError = false ↔
        Reports reply d value := isError_report
    rw [← hreport, ← houtcome]
    constructor
    · intro hhonest
      exact hhonest.result call _ (mem_callEvents.mpr (Or.inr rfl))
    · intro herror
      refine ⟨fun call' outcome hmem => ?_, auditCall service input call d, ?_, rfl⟩
      · rcases mem_callEvents.mp hmem with hmem | hmem
        · exact absurd hmem not_answered
        · cases hmem
          exact herror
      · refine mem_callEvents.mpr (Or.inl ?_)
        rw [houtcome, isError_report] at herror
        have happlies : reply.audit.fate.applies = true := by
          rw [herror.audit]
          rfl
        simp only [hrun, execute, hx]
        exact List.mem_cons_of_mem _ (audited_report happlies)

end

/-! ## the turn -/

theorem honestAt_eventsOf {events : List Event} {id : CallId} {d : HitlDecision} :
    HonestAt events id d ↔ HonestAt (eventsOf id events) id d := by
  constructor
  · rintro ⟨hresult, row, hrow, hid⟩
    exact ⟨fun call outcome h => hresult call outcome (mem_eventsOf.mp h).1, row,
      mem_eventsOf.mpr ⟨hrow, rfl⟩, hid⟩
  · rintro ⟨hresult, row, hrow, hid⟩
    exact ⟨fun call outcome h => hresult call outcome (mem_eventsOf.mpr ⟨h, rfl⟩), row,
      (mem_eventsOf.mp hrow).1, hid⟩

/-- **When tool results are honest.**  Whatever the model answers and whatever becomes of the calls:
no returned executor is reported as failed and each has its audit row, exactly when after each of
them the row is appended, the notification of a `notify` is delivered, and the value has a text. -/
theorem honest_results_iff (service : AgentService) (input : AgentTurnInput) (nonce : SessionNonce)
    (world : CallId → CallReply) (replies : Nat → ModelReply) :
    Honest (runTurn service input nonce world replies).state.events ↔
      ∀ id call d value,
        .executed id call d (.ok value) ∈ (runTurn service input nonce world replies).state.events →
          Reports (world id) d value := by
  have htraced := traced_turn service input nonce world replies
  refine forall_congr' fun id => forall_congr' fun call => forall_congr' fun d =>
    forall_congr' fun value => imp_congr_right fun hmem => ?_
  obtain ⟨call', -, s₀, -, -, hevents⟩ := htraced.attempts id (htraced.bounded _ hmem id rfl)
  have hgroup : Event.executed id call d (.ok value) ∈
      callEvents service input nonce id (world id) call' s₀ := by
    rw [callEvents, ← hevents]
    exact mem_eventsOf.mpr ⟨hmem, rfl⟩
  rcases mem_callEvents.mp hgroup with hrun | hrun
  · obtain ⟨rfl, -⟩ := executed_of_mem hrun
    rw [honestAt_eventsOf, hevents]
    exact honestAt_call hrun
  · cases hrun

/-! ## a turn that is not honest -/

def deleteCall : ModelToolCall where
  id := lit "call-1"
  name := lit "deleteCalendarEventPast"
  input := lit "\x7b\"calendarId\":\"primary\",\"eventId\":\"e1\"\x7d"

def deleteDecision : HitlDecision where
  requestId := sampleRequest.text
  toolName := lit "deleteCalendarEventPast"
  level := .notify
  approvalsRequired := 0
  notifyAfterExecution := true
  relaxedBy := none

/-- the executor of a `notify` tool returns `undefined`: it has run, and the model is told that it has
failed -/
theorem dishonest_results :
    ¬ Honest (runTurn sampleService sampleInput sampleNonce (fun _ => returningReply .undefined)
      (repliesOf deleteCall)).state.events := by
  intro h
  have hexecuted : Event.executed 0 deleteCall deleteDecision (.ok .undefined) ∈
      (runTurn sampleService sampleInput sampleNonce (fun _ => returningReply .undefined)
        (repliesOf deleteCall)).state.events := .tail _ (.head _)
  have hanswered : Event.answered 0 deleteCall (.failed undefinedReplaceText) ∈
      (runTurn sampleService sampleInput sampleNonce (fun _ => returningReply .undefined)
        (repliesOf deleteCall)).state.events := .tail _ (.tail _ (.tail _ (.tail _ (.head _))))
  have herror := (h 0 deleteCall deleteDecision .undefined hexecuted).result deleteCall _ hanswered
  cases herror

end Agent
