import JinCore.ExecutorClient.Publish
import JinCore.ExecutorClient.PreviewTemplate
import JinCore.Agent.Logic

/-!
# What leaves memory of a demo (`owner-preview-publish.service.ts`, `executor-client.module.ts`)

`publish` and the executor of `startPreviewService`, with everything that they write, send, pass on and
throw, beside the calls on approvals.

* `takeEnv`, `startPreviewService`   the executor up to its request, or the message of its error;
* `PublishInput`, `toolInput`, `planSummary`   what `publish` makes of its input;
* `PublishPc`, `Observed`   where a `publish` stands, and what it lets out;
* `Demos`            the approvals, the vault, and the publications;
* `onPublish`, `onDecided`, `onAnswered`, `onSettle`   `publish`, from one await to the next;
* `onGo`, `onCall`   the calls on approvals, whose executor may be this one;
* `step`.
-/

namespace ExecutorClient.OwnerPublish
open JsString Common Hitl Audit Runs
open Security (joinWith)

/-! ## the executor -/

def envUnavailable : JsString :=
  lit "Las variables de entorno de esta demo no están disponibles (Core se reinició o la aprobación "
    ++ lit "venció). Vuelve a publicar con las variables."

def envMismatch : JsString :=
  lit "Las variables recibidas no coinciden con las aprobadas: no se crea la demo."

/-- the values, or the message of its error, and the vault that it leaves -/
def takeEnv (v : EnvVault) (names : List JsString) (requestId : JsString) (now : Int) :
    Except JsString Env × EnvVault :=
  match v.take requestId now with
  | (none, v) => (.error envUnavailable, v)
  | (some env, v) =>
    (if joined (env.map Prod.fst) = joined names then .ok env else .error envMismatch, v)

/-- whether it returns is what the life of the values depends on -/
theorem takeEnv_returned (v : EnvVault) (names : List JsString) (requestId : JsString) (now : Int) :
    ExecutorClient.takeEnv v names requestId now =
      ((takeEnv v names requestId now).1.isOk, (takeEnv v names requestId now).2) := by
  unfold ExecutorClient.takeEnv takeEnv
  generalize v.take requestId now = taken
  obtain ⟨found, v'⟩ := taken
  cases found with
  | none => rfl
  | some env =>
    dsimp only
    by_cases hnames : joined (env.map Prod.fst) = joined names
    · rw [if_pos hnames, decide_eq_true hnames]
      rfl
    · rw [if_neg hnames, decide_eq_false hnames]
      rfl

section
-- `JSON.parse`, `none` where it throws
variable (parseJson : JsString → Option JsonValue)

/-- the request to the Executor; an input that cannot be read is an error as well -/
def startPreviewService (v : EnvVault) (payload : Except JsString PreviewServiceToolInput)
    (requestId : JsString) (now : Int) : Except JsString StartPreviewServiceInput × EnvVault :=
  match payload with
  | .error message => (.error message, v)
  | .ok payload =>
    match expandPreviewTemplate parseJson payload with
    | .error message => (.error message, v)
    | .ok input =>
      match payload.envNames.getD [] with
      | [] => (.ok { input with requestId := some requestId }, v)
      | name :: names =>
        match takeEnv v (name :: names) requestId now with
        | (.error message, v) => (.error message, v)
        | (.ok env, v) => (.ok { input with env := some env, requestId := some requestId }, v)

end

/-! ## what `publish` makes of its input -/

structure PublishInput where
  rest : PreviewServiceToolInput
  env : Option Env

def PublishInput.values (p : PublishInput) : Env := p.env.getD []

def PublishInput.envNames (p : PublishInput) : List JsString := p.values.map Prod.fst

/-- the input without the values -/
def PublishInput.toolInput (p : PublishInput) : PreviewServiceToolInput :=
  { p.rest with envNames := if p.envNames = [] then p.rest.envNames else some p.envNames }

def invalidEnv (problems : List EnvProblem) : JsString :=
  lit "Variables de entorno inválidas: " ++ joinWith (lit "; ")
    (problems.map fun problem => problem.name ++ lit " (" ++ problem.reason ++ lit ")")

def tooManyPending : JsString :=
  lit "Hay demasiadas publicaciones con variables pendientes de aprobación; resuelve alguna primero."

def describeEnv (names : List JsString) : JsString :=
  if names = [] then lit ""
  else lit ", con " ++ natText names.length ++ lit " variable" ++ lit (if names.length = 1 then "" else "s")
    ++ lit " de entorno (" ++ joinWith (lit ", ") names ++ lit "; valores ocultos)"

def describeTemplate (input : PreviewServiceToolInput) : JsString :=
  if input.template = some staticTemplate then lit "plantilla static"
  else if input.template = some nodeTemplate then lit "plantilla node"
  else lit "comando " ++ (input.command.map (joinWith (lit " "))).getD (lit "?")

def planSummary (input : PreviewServiceToolInput) (envNames : List JsString) : JsString :=
  lit "Publicar una app desde el editor del iPhone (" ++ natText input.files.length ++ lit " archivo"
    ++ lit (if input.files.length = 1 then "" else "s") ++ lit ", " ++ describeTemplate input
    ++ describeEnv envNames ++ lit "): se expone en https://<slug>.jinserver.com."

/-! ## the state -/

inductive OwnerPublishResult where
  | pendingApproval (requestId : JsString)
  /-- with the answer of the Executor -/
  | started (requestId service : JsString)
  deriving DecidableEq, Repr

inductive PublishOutcome where
  | returned (result : OwnerPublishResult)
  | badRequest (message : JsString)
  | threw (message : JsString)
  deriving DecidableEq, Repr

/-- what a `publish` awaits -/
inductive PublishPc where
  | idle
  | deciding (input : PublishInput)
  | creating (requestId : JsString)
  | executing (decision : HitlDecision) (inputsHash : JsString)
  | auditing (decision : HitlDecision) (inputsHash service : JsString)
  | done (outcome : PublishOutcome)

/-- what leaves memory, beside the rows and events of the calls on approvals; a request is named by its
uuid -/
inductive Observed where
  /-- `HitlPolicyService.decide` is called -/
  | decide (toolName : JsString) (input : PreviewServiceToolInput)
  | startPreviewService (requestId : JsString) (request : StartPreviewServiceInput)
  | audited (call : AuditCall)
  | notified (requestId toolName actor : JsString) (relaxedBy : Option JsString)
  deriving DecidableEq, Repr

structure Demos where
  system : System
  vault : EnvVault
  publishing : CallId → PublishPc
  /-- what a call on approvals throws when it has failed -/
  error : CallId → JsString
  /-- what the executor of a call has thrown before its request -/
  thrown : CallId → Option JsString
  /-- the ids of all requests -/
  issued : List JsString
  /-- the values that were given to `publish` for an id -/
  published : List (JsString × Env)
  /-- newest first -/
  observed : List Observed

inductive Action where
  | publish (id : CallId) (input : PublishInput)
  /-- `decide` returns, with a fresh id -/
  | decided (id : CallId) (requestId : RequestId) (decision : HitlDecision) (now : Int)
  | undecided (id : CallId) (message : JsString)
  /-- the Executor or the audit answers -/
  | answered (id : CallId) (reply : Reply)
  /-- `createPendingApproval` has returned or thrown -/
  | settle (id : CallId)
  | call (label : Label)

def pendingLevel : HitlLevel → Option PendingApprovalLevel
  | .confirm => some .confirm
  | .dualConfirm => some .dualConfirm
  | _ => none

/-- the audit row of a demo that was started without an approval -/
def startedCall (decision : HitlDecision) (inputsHash : JsString) : AuditCall :=
  .recordToolCall decision.requestId ownerActor startPreviewServiceTool inputsHash
    (decision.relaxedBy.map fun relaxedBy => lit "Autoejecutada sin aprobación (" ++ relaxedBy
      ++ lit "): \"" ++ startPreviewServiceTool ++ lit "\" era confirm")
    (if decision.level = .auto then .auto else .notified) none

/-- the error of a call after a statement of it -/
def errorAfter (pc : Pc) (reply : Reply) (error : JsString) : JsString :=
  match pc with
  -- what fails here is only logged
  | .approve _ _ (.failureAudit _) => error
  | _ => if reply.fate = .ok then error else reply.text

namespace Demos

def init : Demos where
  system := System.init
  vault := .empty
  publishing := fun _ => .idle
  error := fun _ => lit ""
  thrown := fun _ => none
  issued := []
  published := []
  observed := []

/-- a `publish` goes on to another await, or ends -/
def goOn (s : Demos) (id : CallId) (pc : PublishPc) : Demos :=
  { s with publishing := Function.update s.publishing id pc }

def observe (s : Demos) (event : Observed) : Demos := { s with observed := event :: s.observed }

/-- the `catch` of `publish` -/
def discarded (s : Demos) (id : CallId) (requestId message : JsString) : Demos :=
  { s.goOn id (.done (.threw message)) with vault := s.vault.discard requestId }

/-- `requestId` is known before `publish` goes on -/
def issue (s : Demos) (requestId : JsString) (env : Env) : Demos :=
  { s with issued := requestId :: s.issued, published := (requestId, env) :: s.published }

section
-- `JSON.parse`; the JSON text of an input, and a payload as it is read back; the hash
variable (parseJson : JsString → Option JsonValue) (stringify : PreviewServiceToolInput → JsString)
  (readPayload : Option JsString → Except JsString PreviewServiceToolInput)
  (sha256 : JsString → JsString)

/-- `publish` up to its first await -/
def onPublish (s : Demos) (id : CallId) (p : PublishInput) : Option Demos :=
  match s.publishing id, s.system.pc id with
  | .idle, .idle =>
    match validateDemoEnv p.values with
    | problem :: problems => some (s.goOn id (.done (.badRequest (invalidEnv (problem :: problems)))))
    | [] =>
      match expandPreviewTemplate parseJson p.toolInput with
      | .error message => some (s.goOn id (.done (.badRequest message)))
      | .ok _ => some ((s.goOn id (.deciding p)).observe (.decide startPreviewServiceTool p.toolInput))
  | _, _ => none

/-- `decideAndRun` up to its first await -/
def decideAndRun (s : Demos) (id : CallId) (q : RequestId) (p : PublishInput) (decision : HitlDecision)
    (now : Int) : Option Demos :=
  let inputsHash := Agent.computeInputsHash sha256 (stringify p.toolInput)
  match pendingLevel decision.level with
  | some level =>
    (Hitl.step s.system (.begin id (.createPendingApproval {
      requestId := q
      toolName := startPreviewServiceTool
      level := level
      inputsHash := inputsHash
      planSummary := some (planSummary p.toolInput p.envNames)
      payload := some (stringify p.toolInput)
      actor := some ownerActor
      externalInputsSummary := none }))).map fun system =>
        { s.goOn id (.creating q.text) with system := system }
  | none =>
    match startPreviewService parseJson s.vault (.ok p.toolInput) q.text now with
    | (.error message, v) => some ({ s with vault := v }.discarded id q.text message)
    | (.ok request, v) => some (({ s with vault := v }.goOn id (.executing decision inputsHash)).observe
        (.startPreviewService q.uuid request))

def onDecided (s : Demos) (id : CallId) (q : RequestId) (decision : HitlDecision) (now : Int) :
    Option Demos :=
  match s.publishing id with
  | .deciding p =>
    if decision.requestId = q.text ∧ q.text = q.uuid ∧ q.uuid ∉ s.issued then
      let s := s.issue q.uuid p.values
      if p.values = [] then s.decideAndRun parseJson stringify sha256 id q p decision now
      else
        match s.vault.put q.text p.values now with
        | (false, v) => some { s.goOn id (.done (.threw tooManyPending)) with vault := v }
        | (true, v) => { s with vault := v }.decideAndRun parseJson stringify sha256 id q p decision now
    else none
  | _ => none

def onUndecided (s : Demos) (id : CallId) (message : JsString) : Option Demos :=
  match s.publishing id with
  | .deciding _ => some (s.goOn id (.done (.threw message)))
  | _ => none

def onAnswered (s : Demos) (id : CallId) (reply : Reply) : Option Demos :=
  match s.publishing id with
  | .executing decision inputsHash =>
    if reply.fate = .ok then some (s.goOn id (.auditing decision inputsHash reply.text))
    else some (s.discarded id decision.requestId reply.text)
  | .auditing decision inputsHash service =>
    let s := if reply.fate.applies then s.observe (.audited (startedCall decision inputsHash)) else s
    if reply.fate = .ok then
      let s := if decision.level = .notify then
        s.observe (.notified decision.requestId startPreviewServiceTool ownerActor decision.relaxedBy) else s
      some (s.goOn id (.done (.returned (.started decision.requestId service))))
    else some (s.discarded id decision.requestId reply.text)
  | _ => none

def onSettle (s : Demos) (id : CallId) : Option Demos :=
  match s.publishing id, s.system.pc id with
  | .creating requestId, .done (.returned _) =>
    some (s.goOn id (.done (.returned (.pendingApproval requestId))))
  | .creating requestId, .done (.threw error) => some (s.discarded id requestId error.message)
  | .creating requestId, .done .failed => some (s.discarded id requestId (s.error id))
  | _, _ => none

/-- an executor that has thrown is heard as such -/
def heard (s : Demos) (id : CallId) (reply : Reply) : Reply :=
  match s.system.pc id, s.thrown id with
  | .approve _ _ (.executing _), some message => ⟨reply.now, .lost, message⟩
  | _, _ => reply

/-- the executor is called, where the statement is its call -/
def executed (s : Demos) (id : CallId) (reply : Reply) : Demos :=
  match s.system.pc id with
  | .approve q _ (.execute row) =>
    if reply.fate = .ok ∧ row.toolName = startPreviewServiceTool then
      match startPreviewService parseJson s.vault (readPayload row.payload) q.text reply.now with
      | (.error message, v) => { s with vault := v, thrown := Function.update s.thrown id (some message) }
      | (.ok request, v) => { s with vault := v, thrown := Function.update s.thrown id none }.observe
          (.startPreviewService q.uuid request)
    else { s with thrown := Function.update s.thrown id none }
  | _ => s

def onGo (s : Demos) (id : CallId) (reply : Reply) : Option Demos :=
  let reply := s.heard id reply
  (Hitl.step s.system (.go id reply)).map fun system =>
    { s.executed parseJson readPayload id reply with
      system := system
      error := Function.update s.error id (errorAfter (s.system.pc id) reply (s.error id)) }

/-- a request that somebody else creates has an id of its own -/
def onBegin (s : Demos) (id : CallId) (op : Op) : Option Demos :=
  match s.publishing id with
  | .idle =>
    match op with
    | .createPendingApproval input =>
      if input.requestId.uuid ∈ s.issued then none
      else (Hitl.step s.system (.begin id (.createPendingApproval input))).map fun system =>
        { s with system := system, issued := input.requestId.uuid :: s.issued }
    | op => (Hitl.step s.system (.begin id op)).map fun system => { s with system := system }
  | _ => none

/-- the process lives on -/
def onCall (s : Demos) : Label → Option Demos
  | .die _ => none
  | .begin id op => s.onBegin id op
  | .go id reply => s.onGo parseJson readPayload id reply

def step (s : Demos) : Action → Option Demos
  | .publish id p => s.onPublish parseJson id p
  | .decided id q decision now => s.onDecided parseJson stringify sha256 id q decision now
  | .undecided id message => s.onUndecided id message
  | .answered id reply => s.onAnswered id reply
  | .settle id => s.onSettle id
  | .call label => s.onCall parseJson readPayload label

end

/-- the values of an id, where `publish` was given any -/
def given (s : Demos) (requestId : JsString) : Option Env :=
  ((s.published.find? fun p => p.1 = requestId).map Prod.snd).filter (· ≠ [])

end Demos

end ExecutorClient.OwnerPublish
