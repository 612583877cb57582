import JinCore.Autonomy.Service
import JinCore.ModelProvider.Types

/-!
# Plans, keys and limits of an agent turn (`agent.logic.ts`, `agent.types.ts`, `agent-config.schema.ts`)

* `AgentPlan`, `declarePlan`, `updatePlanStep`   the plan of a turn;
* `buildToolCallKey`, `computeInputsHash`        what a call is counted and audited under;
* `stringifyToolResult`                          a result as text, if it has one;
* `AgentConfig`                                  the limits, all positive.
-/

namespace Agent
open JsString Common ModelProvider

inductive AgentStepStatus where
  | pending | inProgress | done | failed
  deriving DecidableEq, Repr

structure AgentStep where
  description : JsString
  status : AgentStepStatus
  note : Option JsString
  deriving DecidableEq, Repr

structure AgentPlan where
  steps : List AgentStep
  deriving DecidableEq, Repr

def declarePlan (steps : List JsString) : AgentPlan :=
  ⟨steps.map fun description => ⟨description, .pending, none⟩⟩

def agentPlanStepOutOfBoundsError (stepIndex : Int) (totalSteps : Nat) : JinError where
  message := lit "updatePlanStep: índice " ++ Autonomy.intText stepIndex
    ++ lit " fuera de rango (el plan tiene " ++ Autonomy.intText totalSteps ++ lit " pasos)"
  code := lit "AGENT_PLAN_STEP_OUT_OF_BOUNDS"
  httpStatus := some 400

/-- a note that is not given leaves the one of the step -/
def updatePlanStep (plan : AgentPlan) (stepIndex : Int) (status : AgentStepStatus)
    (note : Option JsString) : Except JinError AgentPlan :=
  if stepIndex < 0 ∨ stepIndex ≥ plan.steps.length then
    .error (agentPlanStepOutOfBoundsError stepIndex plan.steps.length)
  else .ok ⟨plan.steps.mapIdx fun index step =>
    if (index : Int) = stepIndex then
      { step with status := status, note := note.orElse fun _ => step.note }
    else step⟩

/-- the input is the JSON text of a parsed value, so that `input ?? null` is the input -/
def buildToolCallKey (toolName input : JsString) : JsString := toolName ++ lit ":" ++ input

def computeInputsHash (sha256 : JsString → JsString) (input : JsString) : JsString :=
  sha256 (if input = lit "null" then lit "\x7b\x7d" else input)

/-- `none` is `undefined` -/
def stringifyToolResult : JsValue → Except JsString (Option JsString)
  | .string s => .ok (some s)
  | .json text => .ok (some text)
  | .undefined => .ok none
  | .unserializable message => .error message

structure AgentConfig where
  maxIterationsPerTurn : Nat
  maxConsecutiveToolFailures : Nat
  maxConcurrentSubAgents : Nat
  iterations_pos : 0 < maxIterationsPerTurn
  failures_pos : 0 < maxConsecutiveToolFailures
  subAgents_pos : 0 < maxConcurrentSubAgents

structure AgentPendingApproval where
  requestId : JsString
  toolName : JsString
  deriving DecidableEq, Repr

structure AgentTurnInput where
  sessionId : JsString
  objective : JsString
  history : List ModelMessage
  allowedTools : Option (List JsString)
  actorLabel : Option JsString
  deriving DecidableEq, Repr

structure AgentTurnResult where
  finalResponse : JsString
  plan : AgentPlan
  pendingApprovals : List AgentPendingApproval
  iterationsUsed : Nat
  modelsUsed : List JsString
  deriving DecidableEq, Repr

end Agent
