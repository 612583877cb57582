import JinCore.Agent.Logic
import JinCore.HitlPolicy.Service
import JinCore.Security.InjectionSanitizer

/-!
# The agent loop (`src/agent/agent.service.ts`)

A turn is a function of what the model answers (`replies`, by iteration) and of what becomes of the
real tool calls (`world`, by the number of calls handled before).

* `CallReply`            the integration, the policy and the statements behind one real call;
* `attempt`              the `try` block of a real call: decide, then defer or execute;
* `handleRealToolCall`   a real call: the integration, the cap on failures, the attempt;
* `handleToolCall`       the tools of the plan and the real ones;
* `runTurn`              the loop over the answers of the model;
* `Event`                what happened on the way, oldest first.
-/

namespace Agent
open JsString Common Tools Hitl ModelProvider Security FeatureFlags Autonomy Audit

/-! ## constants -/

def declarePlanToolName : JsString := lit "declarePlan"

def updatePlanStepToolName : JsString := lit "updatePlanStep"

def isPlanTool (name : JsString) : Bool :=
  decide (name = declarePlanToolName) || decide (name = updatePlanStepToolName)

def iterationLimitText : JsString :=
  lit "Se alcanzó el límite de iteraciones del turno sin llegar a una respuesta final."

def maxTokensText : JsString :=
  lit "El modelo se quedó sin espacio de salida antes de terminar (gastó "
    ++ lit "el tope pensando). No es un filtro de seguridad. Probá bajar el "
    ++ lit "esfuerzo en Más → Ajustes → Modelo del chat, o pedime un paso más "
    ++ lit "chico."

def refusalText : JsString :=
  lit "No pude generar una respuesta para este pedido: el modelo cortó la "
    ++ lit "respuesta sin devolver contenido (probablemente su propio filtro de "
    ++ lit "seguridad, no un error de Jin). Probá reformular el objetivo o "
    ++ lit "dividirlo en pasos más chicos."

/-- the message of the `TypeError` of `value.replace` on `undefined` -/
def undefinedReplaceText : JsString :=
  lit "Cannot read properties of undefined (reading 'replace')"

def noExecutorRegisteredError (toolName : JsString) : JinError where
  message := lit "No hay ningún executor registrado para la tool \"" ++ toolName
    ++ lit "\" — no se puede ejecutar la acción aprobada."
  code := lit "HITL_NO_EXECUTOR_REGISTERED"
  httpStatus := some 500

def integrationText : IntegrationName → JsString
  | .canvas => lit "canvas"
  | .google => lit "google"
  | .mcp => lit "mcp"
  | .telegram => lit "telegram"

/-! ## what a turn meets -/

/-- a statement, and the message it throws if it does -/
structure StatementReply where
  fate : Fate
  message : JsString
  deriving DecidableEq

/-- what the policy reads: `failed` is a statement that throws -/
inductive PolicyReply where
  | failed (message : JsString)
  | answered (flags : FeatureFlagsConfig) (overrides : Overrides) (config : AutonomyConfig)
      (read counted : HitlPolicy.Sight)

inductive ExecutorReply where
  /-- no executor is registered for the tool -/
  | missing
  | threw (message : JsString)
  | returned (value : JsValue)
  deriving DecidableEq

/-- behind one real call: is the integration of the tool enabled, the random uuid, the policy, the
pending approval, the executor, the audit row, and what a listener of the notification throws -/
structure CallReply where
  enabled : Bool
  requestId : RequestId
  policy : PolicyReply
  pending : StatementReply
  execute : ExecutorReply
  audit : StatementReply
  notify : Option JsString

inductive ModelReply where
  | threw (message : JsString)
  | response (response : ModelCompletionResponse)

structure HitlActionNotifiedEvent where
  requestId : JsString
  toolName : JsString
  actor : JsString
  relaxedBy : Option JsString
  deriving DecidableEq

/-! ## what a call comes to -/

inductive CallOutcome where
  | disabled (integration : IntegrationName)
  | repeated (priorFailures : Nat)
  | deferred (requestId : JsString)
  | answered (sanitized : JsString)
  | failed (message : JsString)
  deriving DecidableEq

def disabledText (integration : IntegrationName) (toolName : JsString) : JsString :=
  lit "La integración \"" ++ integrationText integration
    ++ lit "\" está desactivada (feature flag). No se ejecutó \"" ++ toolName ++ lit "\"."

def repeatedText (priorFailures : Nat) (toolName : JsString) : JsString :=
  lit "Este intento exacto de \"" ++ toolName ++ lit "\" ya falló " ++ intText priorFailures
    ++ lit " veces seguidas — no se reintenta más. Probá un enfoque distinto o reportá el fallo."

def deferredText (requestId : JsString) : JsString :=
  lit "Acción diferida — requiere aprobación humana (requestId: " ++ requestId
    ++ lit "). No se ejecutó todavía."

def failedText (toolName message : JsString) : JsString :=
  lit "Error ejecutando " ++ toolName ++ lit ": " ++ message

def CallOutcome.output (toolName : JsString) : CallOutcome → JsString
  | .disabled integration => disabledText integration toolName
  | .repeated priorFailures => repeatedText priorFailures toolName
  | .deferred requestId => deferredText requestId
  | .answered sanitized => sanitized
  | .failed message => failedText toolName message

def CallOutcome.isError : CallOutcome → Bool
  | .disabled _ | .repeated _ | .failed _ => true
  | .deferred _ | .answered _ => false

def buildToolResultBlock (toolCallId output : JsString) (isError : Bool) : ModelMessageContentBlock :=
  .toolResult toolCallId (.string output) isError

def CallOutcome.block (call : ModelToolCall) (outcome : CallOutcome) : ModelMessageContentBlock :=
  buildToolResultBlock call.id (outcome.output call.name) outcome.isError

inductive Event where
  /-- a call of the model, with the tools declared to it -/
  | asked (tools : List ModelToolDeclaration)
  | executed (id : CallId) (call : ModelToolCall) (decision : HitlDecision)
      (result : Except JsString JsValue)
  | audited (id : CallId) (call : AuditCall)
  | notified (id : CallId) (event : HitlActionNotifiedEvent)
  | pendingCreated (id : CallId) (input : CreatePendingApprovalInput)
  /-- the tool result of a real call -/
  | answered (id : CallId) (call : ModelToolCall) (outcome : CallOutcome)
  /-- the tool result of a call for the plan -/
  | planned (call : ModelToolCall) (block : ModelMessageContentBlock)

structure TurnState where
  messages : List ModelMessage
  plan : AgentPlan
  pendingApprovals : List AgentPendingApproval
  consecutiveFailures : JsString → Nat
  iterationsUsed : Nat
  modelsUsed : List JsString
  /-- the real calls handled so far -/
  handled : CallId
  /-- oldest first -/
  events : List Event

/-- the configuration, the digest of a JSON text, and how the inputs of the plan tools parse -/
structure AgentService where
  config : AgentConfig
  sha256 : JsString → JsString
  parseDeclarePlan : JsString → Except JsString (List JsString)
  parseUpdatePlanStep : JsString → Except JsString (Int × AgentStepStatus × Option JsString)

def actorLabel (input : AgentTurnInput) : JsString := input.actorLabel.getD (lit "agent")

def buildToolDeclarations (allowedTools : Option (List JsString)) : List ModelToolDeclaration :=
  ⟨declarePlanToolName⟩ :: ⟨updatePlanStepToolName⟩ ::
    (toolRegistry.filter fun tool => allowedTools.all fun names => tool.name ∈ names).map
      fun tool => ⟨tool.name⟩

/-! ## one real call -/

/-- the policy: an unknown tool is refused before anything is read -/
def decision (reply : CallReply) (call : ModelToolCall) : Except JsString HitlDecision :=
  match reply.policy with
  | .failed message =>
    match HitlPolicy.classifyToolCall reply.requestId.text call.name call.input with
    | .error e => .error e.message
    | .ok _ => .error message
  | .answered flags overrides config read counted =>
    match HitlPolicy.decide config flags overrides read counted reply.requestId.text call.name
      call.input with
    | .error e => .error e.message
    | .ok decision => .ok decision

def pendingLevel : HitlLevel → Option PendingApprovalLevel
  | .confirm => some .confirm
  | .dualConfirm => some .dualConfirm
  | .auto | .notify => none

/-- a part of the `try` block: its outcome and what happened -/
structure Attempt where
  outcome : CallOutcome
  events : List Event

section
variable (service : AgentService) (input : AgentTurnInput) (nonce : SessionNonce) (id : CallId)
  (reply : CallReply) (call : ModelToolCall)

/-- the id of the decision is the uuid the call has drawn (`requestId_of_decision`) -/
def pendingInput (level : PendingApprovalLevel) (messages : List ModelMessage) :
    CreatePendingApprovalInput where
  requestId := reply.requestId
  toolName := call.name
  level := level
  inputsHash := computeInputsHash service.sha256 call.input
  planSummary := some (lit "Tool \"" ++ call.name ++ lit "\" invocada por " ++ actorLabel input
    ++ lit " (sesión " ++ input.sessionId ++ lit ")")
  payload := some call.input
  actor := some (actorLabel input)
  externalInputsSummary := summarizeUntrustedSources messages

def defer (decision : HitlDecision) (level : PendingApprovalLevel) (messages : List ModelMessage) :
    Attempt where
  outcome :=
    if reply.pending.fate = .ok then .deferred decision.requestId else .failed reply.pending.message
  events :=
    if reply.pending.fate.applies then
      [.pendingCreated id (pendingInput service input reply call level messages)]
    else []

def auditCall (decision : HitlDecision) : AuditCall :=
  .recordToolCall decision.requestId (actorLabel input) call.name
    (computeInputsHash service.sha256 call.input)
    (decision.relaxedBy.map fun by_ =>
      lit "Autoejecutada sin aprobación (" ++ by_ ++ lit "): \"" ++ call.name ++ lit "\" era confirm")
    (if decision.level = .auto then .auto else .notified) none

/-- the result goes back wrapped -/
def present (value : JsValue) : CallOutcome :=
  match stringifyToolResult value with
  | .error message => .failed message
  | .ok none => .failed undefinedReplaceText
  | .ok (some text) =>
    match wrapUntrustedContent text call.name nonce.text with
    | .error e => .failed e.message
    | .ok sanitized => .answered sanitized

/-- what follows a return of the executor: the audit row, the notification, the result -/
def report (decision : HitlDecision) (value : JsValue) : Attempt :=
  let audited : List Event :=
    if reply.audit.fate.applies then [.audited id (auditCall service input call decision)] else []
  if reply.audit.fate ≠ .ok then ⟨.failed reply.audit.message, audited⟩
  else if decision.level = .notify then
    match reply.notify with
    | some message => ⟨.failed message, audited⟩
    | none => ⟨present nonce call value, audited ++
        [.notified id ⟨decision.requestId, call.name, actorLabel input, decision.relaxedBy⟩]⟩
  else ⟨present nonce call value, audited⟩

def execute (decision : HitlDecision) : Attempt :=
  match reply.execute with
  | .missing => ⟨.failed (noExecutorRegisteredError call.name).message, []⟩
  | .threw message => ⟨.failed message, [.executed id call decision (.error message)]⟩
  | .returned value =>
    let reported := report service input nonce id reply call decision value
    ⟨reported.outcome, .executed id call decision (.ok value) :: reported.events⟩

/-- the `try` block -/
def attempt (messages : List ModelMessage) : Attempt :=
  match decision reply call with
  | .error message => ⟨.failed message, []⟩
  | .ok decision =>
    match pendingLevel decision.level with
    | some level => defer service input id reply call decision level messages
    | none => execute service input nonce id reply call decision

/-- the integration of the tool, if it is disabled -/
def disabledIntegration : Option IntegrationName :=
  if reply.enabled then none else (getToolDefinition call.name).bind ToolDefinition.integration

def runRealToolCall (s : TurnState) : Attempt :=
  match disabledIntegration reply call with
  | some integration => ⟨.disabled integration, []⟩
  | none =>
    let priorFailures := s.consecutiveFailures (buildToolCallKey call.name call.input)
    if priorFailures ≥ service.config.maxConsecutiveToolFailures then ⟨.repeated priorFailures, []⟩
    else attempt service input nonce id reply call s.messages

end

/-- the count of a key after a call -/
def CallOutcome.failuresAfter (priorFailures : Nat) : CallOutcome → Nat
  | .disabled _ | .repeated _ => priorFailures
  | .deferred _ | .answered _ => 0
  | .failed _ => priorFailures + 1

def CallOutcome.pendingApproval (toolName : JsString) : CallOutcome → List AgentPendingApproval
  | .deferred requestId => [⟨requestId, toolName⟩]
  | _ => []

/-- the state after a call with this attempt -/
def TurnState.after (s : TurnState) (call : ModelToolCall) (a : Attempt) : TurnState :=
  let key := buildToolCallKey call.name call.input
  { s with
    pendingApprovals := s.pendingApprovals ++ a.outcome.pendingApproval call.name
    consecutiveFailures := fun k =>
      if k = key then a.outcome.failuresAfter (s.consecutiveFailures key) else s.consecutiveFailures k
    handled := s.handled + 1
    events := s.events ++ (a.events ++ [.answered s.handled call a.outcome]) }

section
variable (service : AgentService) (input : AgentTurnInput) (nonce : SessionNonce)
  (world : CallId → CallReply)

def handleRealToolCall (call : ModelToolCall) (s : TurnState) :
    TurnState × ModelMessageContentBlock :=
  let a := runRealToolCall service input nonce s.handled (world s.handled) call s
  (s.after call a, a.outcome.block call)

/-! ## the tools of the plan -/

def handleDeclarePlan (call : ModelToolCall) : AgentPlan × ModelMessageContentBlock :=
  match service.parseDeclarePlan call.input with
  | .error message =>
    (⟨[]⟩, buildToolResultBlock call.id (lit "Input inválido para declarePlan: " ++ message) true)
  | .ok steps =>
    let plan := declarePlan steps
    (plan, buildToolResultBlock call.id
      (lit "Plan declarado con " ++ intText plan.steps.length ++ lit " paso(s).") false)

def handleUpdatePlanStep (call : ModelToolCall) (plan : AgentPlan) :
    AgentPlan × ModelMessageContentBlock :=
  match service.parseUpdatePlanStep call.input with
  | .error message =>
    (plan, buildToolResultBlock call.id (lit "Input inválido para updatePlanStep: " ++ message) true)
  | .ok (stepIndex, status, note) =>
    match updatePlanStep plan stepIndex status note with
    | .error e => (plan, buildToolResultBlock call.id e.message true)
    | .ok updated =>
      (updated, buildToolResultBlock call.id
        (lit "Paso " ++ intText stepIndex ++ lit " actualizado.") false)

/-! ## the loop -/

def TurnState.planned (s : TurnState) (call : ModelToolCall)
    (handled : AgentPlan × ModelMessageContentBlock) : TurnState × ModelMessageContentBlock :=
  ({ s with plan := handled.1, events := s.events ++ [.planned call handled.2] }, handled.2)

def handleToolCall (call : ModelToolCall) (s : TurnState) : TurnState × ModelMessageContentBlock :=
  if call.name = declarePlanToolName then s.planned call (handleDeclarePlan service call)
  else if call.name = updatePlanStepToolName then
    s.planned call (handleUpdatePlanStep service call s.plan)
  else handleRealToolCall service input nonce world call s

/-- the calls of one answer, in order, and their tool results -/
def handleToolCalls : List ModelToolCall → TurnState → TurnState × List ModelMessageContentBlock
  | [], s => (s, [])
  | call :: calls, s =>
    let handled := handleToolCall service input nonce world call s
    let rest := handleToolCalls calls handled.1
    (rest.1, handled.2 :: rest.2)

end

def resolveFinalResponseText (response : ModelCompletionResponse) : JsString :=
  if response.stopReason = .maxTokens ∧ response.content.isBlank = true then maxTokensText
  else if response.stopReason = .refusal ∨ response.content.isBlank = true then refusalText
  else response.content

def finalizeTurn (s : TurnState) (finalResponse : JsString) : AgentTurnResult :=
  ⟨finalResponse, s.plan, s.pendingApprovals, s.iterationsUsed, s.modelsUsed⟩

/-- where a turn ends, and what it returns or throws -/
structure TurnEnd where
  state : TurnState
  outcome : Except JsString AgentTurnResult

/-- the model is asked -/
def TurnState.ask (s : TurnState) (input : AgentTurnInput) : TurnState :=
  { s with
    iterationsUsed := s.iterationsUsed + 1
    events := s.events ++ [.asked (buildToolDeclarations input.allowedTools)] }

def TurnState.meet (s : TurnState) (modelId : JsString) : TurnState :=
  { s with modelsUsed := if modelId ∈ s.modelsUsed then s.modelsUsed else s.modelsUsed ++ [modelId] }

def TurnState.push (s : TurnState) (message : ModelMessage) : TurnState :=
  { s with messages := s.messages ++ [message] }

def isFinal (response : ModelCompletionResponse) : Bool :=
  decide (response.stopReason ≠ .toolUse) || response.toolCalls.isEmpty

def toolUseMessage (calls : List ModelToolCall) : ModelMessage :=
  ⟨.assistant, .blocks (calls.map .toolUse)⟩

def toolResultMessage (blocks : List ModelMessageContentBlock) : ModelMessage :=
  ⟨.user, .blocks blocks⟩

section
variable (service : AgentService) (input : AgentTurnInput) (nonce : SessionNonce)
  (world : CallId → CallReply) (replies : Nat → ModelReply)

/-- an answer with tool calls: they are handled in order, then their results are pushed -/
def respond (calls : List ModelToolCall) (s : TurnState) : TurnState :=
  let handled := handleToolCalls service input nonce world calls (s.push (toolUseMessage calls))
  handled.1.push (toolResultMessage handled.2)

/-- the loop, with the iterations that are left -/
def turnLoop : Nat → TurnState → TurnEnd
  | 0, s => ⟨s, .ok (finalizeTurn s iterationLimitText)⟩
  | n + 1, s =>
    match replies s.iterationsUsed with
    | .threw message => ⟨s.ask input, .error message⟩
    | .response response =>
      let s := (s.ask input).meet response.modelId
      if isFinal response then
        ⟨s, .ok (finalizeTurn s (resolveFinalResponseText response))⟩
      else turnLoop n (respond service input nonce world response.toolCalls s)

def TurnState.init (input : AgentTurnInput) : TurnState where
  messages := input.history ++ [⟨.user, .text input.objective⟩]
  plan := ⟨[]⟩
  pendingApprovals := []
  consecutiveFailures := fun _ => 0
  iterationsUsed := 0
  modelsUsed := []
  handled := 0
  events := []

def runTurn : TurnEnd :=
  turnLoop service input nonce world replies service.config.maxIterationsPerTurn (.init input)

end

/-! ## a small service -/

def sampleService : AgentService where
  config := ⟨15, 3, 3, by decide, by decide, by decide⟩
  sha256 := fun text => text
  parseDeclarePlan := fun _ => .error (lit "[]")
  parseUpdatePlanStep := fun _ => .error (lit "[]")

def sampleInput : AgentTurnInput where
  sessionId := lit "s-1"
  objective := lit "borrá la reunión de ayer"
  history := []
  allowedTools := none
  actorLabel := none

def sampleNonce : SessionNonce := ⟨lit "0123456789abcdef", by decide⟩

/-- one answer with a tool call, then a final one -/
def repliesOf (call : ModelToolCall) : Nat → ModelReply
  | 0 => .response ⟨lit "", lit "m", [call], .toolUse⟩
  | _ => .response ⟨lit "Listo.", lit "m", [], .endTurn⟩

def statementOk : StatementReply := ⟨.ok, lit ""⟩

/-- everything goes well and the executor returns a value -/
def returningReply (value : JsValue) : CallReply where
  enabled := true
  requestId := sampleRequest
  policy := .answered .empty (fun _ => none) .default ⟨none, 0⟩ ⟨none, 0⟩
  pending := statementOk
  execute := .returned value
  audit := statementOk
  notify := none

end Agent
