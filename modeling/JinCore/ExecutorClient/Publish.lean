import JinCore.ExecutorClient.EnvVault
import JinCore.Hitl.Calls
import Mathlib.Logic.Function.Basic

/-!
# A demo with environment values (`owner-preview-publish.service.ts`, `executor-client.module.ts`)

The values of a publication wait in the vault, while its approval, which has only their names, waits
in `pending_approvals`.  The calls on approvals run beside each other and beside the publications.

* `takeEnv`, `startPreviewService`   the executor, up to its first await;
* `Publication`      what the owner publishes, and the id that `decide` has given it;
* `Core`             the approvals, the vault, and the publications that wait for their creation;
* `onPublish`, `onPublishNow`, `onSettle`   `publish`, with an approval and without, and its `catch`;
* `onCall`           a label of the calls on approvals;
* `Core.step`.
-/

namespace ExecutorClient
open JsString Common Hitl Runs

def startPreviewServiceTool : JsString := lit "startPreviewService"

def ownerActor : JsString := lit "owner:api"

/-- `names.sort().join(',')`, by code units -/
def joined (names : List JsString) : List UInt16 :=
  (lit ",").units.intercalate ((names.map JsString.units).mergeSort fun a b => decide (a ≤ b))

/-- whether `takeEnv` returns, and the vault that it leaves -/
def takeEnv (v : EnvVault) (names : List JsString) (requestId : JsString) (now : Int) :
    Bool × EnvVault :=
  match v.take requestId now with
  | (none, v) => (false, v)
  | (some env, v) => (decide (joined (env.map Prod.fst) = joined names), v)

structure Publication where
  requestId : RequestId
  env : Env
  payload : JsString
  publishedAt : Int

/-- the input of its approval -/
def Publication.input (p : Publication) (level : PendingApprovalLevel)
    (inputsHash planSummary : JsString) : CreatePendingApprovalInput where
  requestId := p.requestId
  toolName := startPreviewServiceTool
  level := level
  inputsHash := inputsHash
  planSummary := some planSummary
  payload := some p.payload
  actor := some ownerActor
  externalInputsSummary := none

structure Core where
  system : System
  vault : EnvVault
  /-- the latest time that was read -/
  clock : Int
  /-- the ids of all requests -/
  issued : List JsString
  publications : List Publication
  /-- the request of a `publish` that waits for this call of `createPendingApproval` -/
  publishing : CallId → Option JsString
  /-- the executor of the call has thrown -/
  thrown : CallId → Bool
  /-- the requests that were executed without an approval -/
  started : List JsString

inductive Action where
  /-- the level asks for an approval -/
  | publish (id : CallId) (publication : Publication) (level : PendingApprovalLevel)
    (inputsHash planSummary : JsString)
  /-- the level asks for none; `registered` and `answered` say whether there is an executor, and
  whether the Executor has started the demo -/
  | publishNow (publication : Publication) (registered answered : Bool)
  /-- `publish` goes on when `createPendingApproval` has returned or thrown -/
  | settle (id : CallId)
  | call (label : Label)

section
-- `expandPreviewTemplate`, and the `envNames` of a payload; `none` where it throws
variable (expand : Option JsString → Option (List JsString))

/-- whether the executor has thrown by its first await, and the vault that it leaves -/
def startPreviewService (v : EnvVault) (payload : Option JsString) (requestId : JsString) (now : Int) :
    Bool × EnvVault :=
  match expand payload with
  | none => (true, v)
  | some [] => (false, v)
  | some names =>
    let (returned, v) := takeEnv v names requestId now
    (!returned, v)

/-- a publication that passes the checks of `publish`, under a fresh id -/
def Publication.Accepted (s : Core) (p : Publication) : Prop :=
  s.clock ≤ p.publishedAt ∧ p.requestId.uuid ∉ s.issued ∧ p.requestId.text = p.requestId.uuid ∧
    p.env ≠ [] ∧ expand (some p.payload) = some (p.env.map Prod.fst)

instance (s : Core) (p : Publication) : Decidable (p.Accepted expand s) :=
  inferInstanceAs (Decidable (_ ∧ _))

namespace Core

def onPublish (s : Core) (id : CallId) (p : Publication) (level : PendingApprovalLevel)
    (inputsHash planSummary : JsString) : Option Core :=
  let put := s.vault.put p.requestId.text p.env p.publishedAt
  let s := { s with
    vault := put.2
    clock := p.publishedAt
    issued := p.requestId.uuid :: s.issued }
  if put.1 then
    (Hitl.step s.system (.begin id (.createPendingApproval (p.input level inputsHash planSummary)))).map
      fun system => { s with
        system := system
        publications := p :: s.publications
        publishing := Function.update s.publishing id (some p.requestId.text) }
  else some s

def onPublishNow (s : Core) (p : Publication) (registered answered : Bool) : Core :=
  let put := s.vault.put p.requestId.text p.env p.publishedAt
  let s := { s with
    vault := put.2
    clock := p.publishedAt
    issued := p.requestId.uuid :: s.issued }
  if put.1 then
    let called := if registered then
        startPreviewService expand s.vault (some p.payload) p.requestId.text p.publishedAt
      else (true, s.vault)
    if !called.1 && answered then
      { s with vault := called.2, started := p.requestId.text :: s.started }
    else { s with vault := called.2.discard p.requestId.text }
  else s

def onSettle (s : Core) (id : CallId) : Option Core :=
  match s.publishing id, s.system.pc id with
  | some _, .done (.returned _) => some { s with publishing := Function.update s.publishing id none }
  | some requestId, .done _ => some { s with
      publishing := Function.update s.publishing id none
      vault := s.vault.discard requestId }
  | _, _ => none

/-- an executor is called, or goes on; it cannot succeed when it has thrown -/
def onGo (s : Core) (id : CallId) (reply : Reply) : Option Core :=
  (Hitl.step s.system (.go id reply)).bind fun system =>
    let t := { s with system := system, clock := reply.now }
    match s.system.pc id with
    | .approve q _ (.execute row) =>
      if reply.fate = .ok ∧ row.toolName = startPreviewServiceTool then
        let called := startPreviewService expand s.vault row.payload q.text reply.now
        some { t with vault := called.2, thrown := Function.update s.thrown id called.1 }
      else some { t with thrown := Function.update s.thrown id false }
    | .approve _ _ (.executing _) =>
      if s.thrown id = true ∧ reply.fate = .ok then none else some t
    | _ => some t

/-- the process lives on; a request that somebody else creates has an id of its own -/
def onCall (s : Core) : Label → Option Core
  | .die _ => none
  | .begin id (.createPendingApproval input) =>
    if input.requestId.uuid ∈ s.issued then none
    else (Hitl.step s.system (.begin id (.createPendingApproval input))).map fun system =>
      { s with system := system, issued := input.requestId.uuid :: s.issued }
  | .begin id (.sweep now) =>
    if now < s.clock then none
    else (Hitl.step s.system (.begin id (.sweep now))).map fun system =>
      { s with system := system, clock := now }
  | .begin id op => (Hitl.step s.system (.begin id op)).map fun system => { s with system := system }
  | .go id reply => if reply.now < s.clock then none else s.onGo expand id reply

def step (s : Core) : Action → Option Core
  | .publish id p level inputsHash planSummary =>
    if p.Accepted expand s then s.onPublish id p level inputsHash planSummary else none
  | .publishNow p registered answered =>
    if p.Accepted expand s then some (s.onPublishNow expand p registered answered) else none
  | .settle id => s.onSettle id
  | .call label => s.onCall expand label

def init (now : Int) : Core where
  system := System.init
  vault := .empty
  clock := now
  issued := []
  publications := []
  publishing := fun _ => none
  thrown := fun _ => false
  started := []

end Core

end

end ExecutorClient
