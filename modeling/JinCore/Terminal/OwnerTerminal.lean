import JinCore.Agent.Logic
import JinCore.Hitl.Meets
import JinCore.Js.JsonValue
import JinCore.Terminal.RedactSecrets

/-!
# The terminal of the owner (`owner-terminal.service.ts`, `terminal-executor.client.ts`)

What the owner does to a project goes to the Executor after a row of the audit, and a pod that is opened and a build
that is published wait for an approval.  The calls run beside each other and beside the calls on approvals.

* `TerminalOp`, `TerminalOp.auditCall`   what is only audited, and its row;
* `ApprovalRequest`   what waits for an approval: `refusal`, `planSummary`, `payload`;
* `ExecutorRequest`   what the Executor is asked;
* `OwnerPc`, `Observed`, `Workspaces`   where a call stands, what has left Core, and the state;
* `onListed`, `executed`, `step`   the statements.
-/

namespace OwnerTerminal
open JsString Common Hitl Audit Runs

abbrev WorkspaceId := JsString

/-- `Record<string, string>`, in the order of its keys -/
abbrev Files := List (JsString × JsString)

/-! ## what is only audited -/

def stopTerminalSessionTool : JsString := lit "stopTerminalSession"
def deleteTerminalWorkspaceTool : JsString := lit "deleteTerminalWorkspace"
def runTerminalCommandTool : JsString := lit "runTerminalCommand"
def writeTerminalFileTool : JsString := lit "writeTerminalFile"
def makeTerminalDirTool : JsString := lit "makeTerminalDir"
def deleteTerminalEntryTool : JsString := lit "deleteTerminalEntry"
def terminalActor : JsString := lit "owner:terminal"

def auditCommandPreviewLength : Nat := 120

structure FsWriteInput where
  path : JsString
  content : JsString
  expectedSha256 : Option JsString
  force : Bool
  deriving DecidableEq, Repr

inductive TerminalOp where
  | stopPod
  | deleteWorkspace
  | importFiles (files : Files)
  | fsWrite (input : FsWriteInput)
  | fsMkdir (path : JsString)
  | fsDelete (path : JsString)
  | exec (command : JsString) (timeoutSeconds : Option Nat)
  | startService (command : JsString) (port : Nat)
  | stopService (port : Nat)
  deriving DecidableEq, Repr

def plural (n : Nat) : JsString := lit (if n = 1 then "" else "s")

/-- `path.slice(0, AUDIT_COMMAND_PREVIEW_LENGTH)` -/
def cut (path : JsString) : JsString := ⟨path.units.take auditCommandPreviewLength⟩

def portValue (port : Nat) : Json.Value := .number (.finite port)

def commandPreview (command : JsString) : JsString := Terminal.auditPreview command auditCommandPreviewLength

namespace TerminalOp

def toolName : TerminalOp → JsString
  | .stopPod => stopTerminalSessionTool
  | .deleteWorkspace => deleteTerminalWorkspaceTool
  | .importFiles _ | .exec _ _ | .startService _ _ | .stopService _ => runTerminalCommandTool
  | .fsWrite _ => writeTerminalFileTool
  | .fsMkdir _ => makeTerminalDirTool
  | .fsDelete _ => deleteTerminalEntryTool

/-- what the hash of the audit covers, beside the workspace -/
def inputs : TerminalOp → List (JsString × Json.Value)
  | .stopPod | .deleteWorkspace => []
  | .importFiles files => [(lit "files", .array (files.map fun file => .string file.1))]
  | .fsWrite input => [(lit "path", .string input.path), (lit "force", .bool input.force)]
  | .fsMkdir path | .fsDelete path => [(lit "path", .string path)]
  | .exec command _ => [(lit "command", .string command)]
  | .startService command port => [(lit "command", .string command), (lit "port", portValue port)]
  | .stopService port => [(lit "stopPort", portValue port)]

def planSummary : TerminalOp → JsString
  | .stopPod => lit "terminal: detener el pod (el disco se conserva)"
  | .deleteWorkspace => lit "terminal: borrar el proyecto (pod y disco)"
  | .importFiles files =>
    lit "terminal: copiar " ++ natText files.length ++ lit " archivo" ++ plural files.length
      ++ lit " del editor al proyecto"
  | .fsWrite input =>
    lit "terminal: guardar " ++ cut input.path ++ lit (if input.force then " (sobrescribir)" else "")
  | .fsMkdir path => lit "terminal: crear carpeta " ++ cut path
  | .fsDelete path => lit "terminal: borrar " ++ cut path
  | .exec command _ => lit "terminal: " ++ commandPreview command
  | .startService command port =>
    lit "terminal: [servidor :" ++ natText port ++ lit "] " ++ commandPreview command
  | .stopService port => lit "terminal: detener el servidor :" ++ natText port

/-- `audit` -/
def auditCall (sha256 : JsString → JsString) (requestId : JsString) (workspaceId : WorkspaceId) (op : TerminalOp) :
    AuditCall :=
  .recordToolCall requestId terminalActor op.toolName
    (Agent.computeInputsHash sha256 ⟨(Json.Value.object ((lit "workspaceId", .string workspaceId) :: op.inputs)).text⟩)
    (some op.planSummary) .auto none

/-- the same but for the contents of files -/
def SameButContents : TerminalOp → TerminalOp → Prop
  | .importFiles files, .importFiles files' => files.map Prod.fst = files'.map Prod.fst
  | .fsWrite input, .fsWrite input' => input.path = input'.path ∧ input.force = input'.force
  | op, op' => op = op'

/-- the row of the audit says nothing of what is written to a file -/
theorem auditCall_contents {op op' : TerminalOp} (h : SameButContents op op') (sha256 : JsString → JsString)
    (requestId : JsString) (workspaceId : WorkspaceId) :
    auditCall sha256 requestId workspaceId op = auditCall sha256 requestId workspaceId op' := by
  unfold SameButContents at h
  split at h
  next files files' =>
    have hlength : files.length = files'.length := by
      rw [← List.length_map Prod.fst, h, List.length_map]
    have hnames : (files.map fun file => Json.Value.string file.1) = files'.map fun file => .string file.1 := by
      have hmap := congrArg (List.map Json.Value.string) h
      rw [List.map_map, List.map_map] at hmap
      exact hmap
    unfold auditCall inputs planSummary
    dsimp only
    rw [hnames, hlength]
    rfl
  next input input' =>
    unfold auditCall inputs planSummary
    dsimp only
    rw [h.1, h.2]
    rfl
  next => rw [h]

end TerminalOp

/-! ## what waits for an approval -/

def startTerminalSessionTool : JsString := lit "startTerminalSession"
def exposeTerminalSessionTool : JsString := lit "exposeTerminalSession"

structure StartTerminalInput where
  files : Files
  ttlSeconds : Nat
  claudeCode : Option Bool
  deriving DecidableEq, Repr

structure ExposeTerminalInput where
  dir : JsString
  slugHint : Option JsString
  deriving DecidableEq, Repr

inductive WorkspaceStatus where
  | stopped | starting | running | expired | failed
  deriving DecidableEq, Repr

/-- what the checks read of a workspace; the exposure is its url -/
structure TerminalWorkspace where
  id : WorkspaceId
  status : WorkspaceStatus
  exposure : Option JsString
  deriving DecidableEq, Repr

inductive ApprovalRequest where
  | start (input : StartTerminalInput)
  | expose (input : ExposeTerminalInput)
  deriving DecidableEq, Repr

def terminalUpstreamError (httpStatus : Nat) (message : JsString) : JinError where
  message := message
  code := lit "TERMINAL_UPSTREAM_ERROR"
  httpStatus := some httpStatus

/-- whole hours as such, and minutes to the nearest one -/
def ttlLabel (seconds : Nat) : JsString :=
  if 3600 ≤ seconds ∧ seconds % 3600 = 0 then natText (seconds / 3600) ++ lit " h"
  else natText ((seconds + 30) / 60) ++ lit " min"

def workspaceOf (workspaceId : WorkspaceId) (workspaces : List TerminalWorkspace) : Option TerminalWorkspace :=
  workspaces.find? fun workspace => workspace.id = workspaceId

namespace ApprovalRequest

def toolName : ApprovalRequest → JsString
  | .start _ => startTerminalSessionTool
  | .expose _ => exposeTerminalSessionTool

/-- why no approval is asked for -/
def refusal (existing : Option TerminalWorkspace) : ApprovalRequest → Option JinError
  | .start _ =>
    match existing with
    | some ⟨_, .running, _⟩ | some ⟨_, .starting, _⟩ =>
      some (terminalUpstreamError 409 (lit "Este proyecto ya tiene su terminal abierta."))
    | _ => none
  | .expose _ =>
    match existing with
    | some ⟨_, .running, none⟩ => none
    | some ⟨_, .running, some _⟩ => some (terminalUpstreamError 409
        (lit "Este proyecto ya publicó un build. Cierra la terminal para publicar otro."))
    | _ => some (terminalUpstreamError 404 (lit "La terminal de ese proyecto no está corriendo."))

def planSummary (existing : Bool) : ApprovalRequest → JsString
  | .start input =>
    if input.claudeCode = some true then
      lit (if existing then "Reanudar" else "Abrir") ++ lit " la terminal de este proyecto por "
        ++ ttlLabel input.ttlSeconds
        ++ lit " CON ACCESO A CLAUDE CODE: el pod podrá salir a los servidores de Anthropic (solo a ellos, por un "
        ++ lit "proxy del clúster) y guardar tu token de suscripción de Claude. Un código malicioso dentro del pod "
        ++ lit "(p. ej. un paquete de npm) podría leer ese token. Los comandos los escribes tú."
    else if existing then
      lit "Reanudar la terminal de este proyecto por " ++ ttlLabel input.ttlSeconds
        ++ lit ": el mismo disco, tal como quedó."
    else
      lit "Abrir una terminal aislada para este proyecto por " ++ ttlLabel input.ttlSeconds ++ lit " ("
        ++ natText input.files.length ++ lit " archivo" ++ plural input.files.length
        ++ lit " del editor): un pod sin más red que el proxy de npm del clúster. Los comandos los escribes tú."
  | .expose input =>
    lit "Publicar el directorio \"" ++ input.dir
      ++ lit "\" de la terminal en https://<slug>.jinserver.com: un link público hasta que venza la sesión. "
      ++ lit "Sirve los archivos tal cual con el servidor estático de Jin."

def members : ApprovalRequest → List (JsString × Json.Value)
  | .start input =>
    [(lit "files", .object (input.files.map fun file => (file.1, .string file.2))),
      (lit "ttlSeconds", portValue input.ttlSeconds)]
      ++ input.claudeCode.toList.map fun claudeCode => (lit "claudeCode", .bool claudeCode)
  | .expose input =>
    (lit "dir", .string input.dir) :: input.slugHint.toList.map fun slugHint => (lit "slugHint", .string slugHint)

/-- the JSON text of the payload -/
def payload (workspaceId : WorkspaceId) (request : ApprovalRequest) : JsString :=
  ⟨(Json.Value.object ((lit "workspaceId", .string workspaceId) :: request.members)).text⟩

def approvalInput (sha256 : JsString → JsString) (requestId : RequestId) (workspaceId : WorkspaceId)
    (existing : Bool) (request : ApprovalRequest) : CreatePendingApprovalInput where
  requestId := requestId
  toolName := request.toolName
  level := .confirm
  inputsHash := Agent.computeInputsHash sha256 (request.payload workspaceId)
  planSummary := some (request.planSummary existing)
  payload := some (request.payload workspaceId)
  actor := some terminalActor
  externalInputsSummary := none

end ApprovalRequest

/-! ## the state -/

/-- a request that changes nothing -/
inductive TerminalRead where
  | exportFiles (dir : JsString)
  | fsList (path : JsString)
  | fsRead (path : JsString)
  | listServices
  | serviceLogs (port : Nat)
  deriving DecidableEq, Repr

inductive ExecutorRequest where
  | list
  | read (workspaceId : WorkspaceId) (request : TerminalRead)
  | change (workspaceId : WorkspaceId) (op : TerminalOp)
  /-- with the id of the approval, as it was approved -/
  | start (workspaceId : WorkspaceId) (input : StartTerminalInput) (requestId : JsString)
  /-- on the port of the static server, and with its source -/
  | expose (workspaceId : WorkspaceId) (input : ExposeTerminalInput)
  deriving DecidableEq, Repr

inductive OwnerPc where
  | idle
  | auditing (workspaceId : WorkspaceId) (op : TerminalOp)
  /-- the row of the audit was not answered -/
  | refused
  | sending
  | listing (workspaceId : WorkspaceId) (request : ApprovalRequest)
  | creating
  | done (outcome : Outcome Unit)

/-- what has left Core -/
inductive Observed where
  | audited (c : CallId) (call : AuditCall)
  | sent (c : CallId) (request : ExecutorRequest)
  | listed (c : CallId) (workspaces : List TerminalWorkspace)
  /-- an approval is asked for -/
  | requested (c : CallId) (requestId : RequestId) (workspaceId : WorkspaceId) (existing : Bool)
      (request : ApprovalRequest)
  deriving DecidableEq

structure Workspaces where
  system : System
  calls : CallId → OwnerPc
  /-- what an executor has thrown before its request -/
  thrown : CallId → Option JsString
  /-- newest first -/
  observed : List Observed

inductive Action where
  | change (c : CallId) (workspaceId : WorkspaceId) (op : TerminalOp)
  /-- the append ends -/
  | audited (c : CallId) (requestId : JsString) (fate : Fate)
  | read (c : CallId) (workspaceId : WorkspaceId) (request : TerminalRead)
  | list (c : CallId)
  /-- the Executor answers, or the request fails -/
  | answered (c : CallId) (outcome : Outcome Unit)
  | request (c : CallId) (workspaceId : WorkspaceId) (request : ApprovalRequest)
  /-- the workspaces are there, and an id is drawn -/
  | listed (c : CallId) (workspaces : List TerminalWorkspace) (requestId : RequestId)
  | unlisted (c : CallId) (error : JinError)
  /-- `createPendingApproval` has returned or thrown -/
  | settle (c : CallId)
  | call (label : Label)

namespace Workspaces

def init : Workspaces := ⟨System.init, fun _ => .idle, fun _ => none, []⟩

def goOn (s : Workspaces) (c : CallId) (pc : OwnerPc) : Workspaces :=
  { s with calls := Function.update s.calls c pc }

def observe (s : Workspaces) (event : Observed) : Workspaces := { s with observed := event :: s.observed }

/-- a tool of the terminal, that only this service asks approvals for -/
def isTerminalTool (toolName : JsString) : Bool :=
  toolName = startTerminalSessionTool || toolName = exposeTerminalSessionTool

section
-- a payload as it is read back and validated; the hash
variable (readStart : Option JsString → Except JsString (WorkspaceId × StartTerminalInput))
  (readExpose : Option JsString → Except JsString (WorkspaceId × ExposeTerminalInput)) (sha256 : JsString → JsString)

def onAudited (s : Workspaces) (c : CallId) (requestId : JsString) (fate : Fate) : Option Workspaces :=
  match s.calls c with
  | .auditing workspaceId op =>
    let s := if fate.applies then s.observe (.audited c (op.auditCall sha256 requestId workspaceId)) else s
    if fate = .ok then some ((s.goOn c .sending).observe (.sent c (.change workspaceId op)))
    else some (s.goOn c .refused)
  | _ => none

/-- what comes after `list` -/
def onListed (s : Workspaces) (c : CallId) (workspaces : List TerminalWorkspace) (q : RequestId) :
    Option Workspaces :=
  match s.calls c with
  | .listing workspaceId request =>
    let existing := workspaceOf workspaceId workspaces
    let s := s.observe (.listed c workspaces)
    match request.refusal existing with
    | some error => some (s.goOn c (.done (.threw error)))
    | none =>
      if q.text = q.uuid then
        (Hitl.step s.system (.begin c (.createPendingApproval
          (request.approvalInput sha256 q workspaceId existing.isSome)))).map fun system =>
          { (s.goOn c .creating).observe (.requested c q workspaceId existing.isSome request) with system := system }
      else none
  | _ => none

def onSettle (s : Workspaces) (c : CallId) : Option Workspaces :=
  match s.calls c, s.system.pc c with
  | .creating, .done (.returned _) => some (s.goOn c (.done (.returned ())))
  | .creating, .done (.threw error) => some (s.goOn c (.done (.threw error)))
  | .creating, .done .failed => some (s.goOn c (.done .failed))
  | _, _ => none

/-- an executor that has thrown is heard as such -/
def heard (s : Workspaces) (c : CallId) (reply : Reply) : Reply :=
  match s.system.pc c, s.thrown c with
  | .approve _ _ (.executing _), some message => ⟨reply.now, .lost, message⟩
  | _, _ => reply

/-- an executor sends its request, or throws -/
def send (s : Workspaces) (c : CallId) : Except JsString ExecutorRequest → Workspaces
  | .ok request => { s with thrown := Function.update s.thrown c none }.observe (.sent c request)
  | .error message => { s with thrown := Function.update s.thrown c (some message) }

/-- `applyStart` -/
def applyStart (payload : Option JsString) (requestId : JsString) : Except JsString ExecutorRequest :=
  (readStart payload).map fun p => .start p.1 p.2 requestId

/-- `applyExpose` -/
def applyExpose (payload : Option JsString) : Except JsString ExecutorRequest :=
  (readExpose payload).map fun p => .expose p.1 p.2

/-- the executor of the tool is called, where the statement is its call -/
def executed (s : Workspaces) (c : CallId) (reply : Reply) : Workspaces :=
  match s.system.pc c with
  | .approve q _ (.execute row) =>
    if reply.fate = .ok then
      if row.toolName = startTerminalSessionTool then s.send c (applyStart readStart row.payload q.text)
      else if row.toolName = exposeTerminalSessionTool then s.send c (applyExpose readExpose row.payload)
      else { s with thrown := Function.update s.thrown c none }
    else s
  | _ => s

/-- nobody else asks approvals for the tools of the terminal -/
def onCall (s : Workspaces) : Label → Option Workspaces
  | .begin c op =>
    match s.calls c, op with
    | .idle, .createPendingApproval input =>
      if isTerminalTool input.toolName then none
      else (Hitl.step s.system (.begin c op)).map fun system => { s with system := system }
    | .idle, op => (Hitl.step s.system (.begin c op)).map fun system => { s with system := system }
    | _, _ => none
  | .go c reply =>
    (Hitl.step s.system (.go c (s.heard c reply))).map fun system =>
      { s.executed readStart readExpose c (s.heard c reply) with system := system }
  | .die c => (Hitl.step s.system (.die c)).map fun system => { s with system := system }

def step (s : Workspaces) : Action → Option Workspaces
  | .change c workspaceId op =>
    match s.calls c, s.system.pc c with
    | .idle, .idle => some (s.goOn c (.auditing workspaceId op))
    | _, _ => none
  | .audited c requestId fate => s.onAudited sha256 c requestId fate
  | .read c workspaceId request =>
    match s.calls c, s.system.pc c with
    | .idle, .idle => some ((s.goOn c .sending).observe (.sent c (.read workspaceId request)))
    | _, _ => none
  | .list c =>
    match s.calls c, s.system.pc c with
    | .idle, .idle => some ((s.goOn c .sending).observe (.sent c .list))
    | _, _ => none
  | .answered c outcome =>
    match s.calls c with
    | .sending => some (s.goOn c (.done outcome))
    | _ => none
  | .request c workspaceId request =>
    match s.calls c, s.system.pc c with
    | .idle, .idle => some ((s.goOn c (.listing workspaceId request)).observe (.sent c .list))
    | _, _ => none
  | .listed c workspaces q => s.onListed sha256 c workspaces q
  | .unlisted c error =>
    match s.calls c with
    | .listing _ _ => some (s.goOn c (.done (.threw error)))
    | _ => none
  | .settle c => s.onSettle c
  | .call label => s.onCall readStart readExpose label

end

end Workspaces

end OwnerTerminal
