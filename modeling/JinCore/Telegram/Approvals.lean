import JinCore.Hitl.Calls

/-!
# The approvals of the owner's chat (`telegram-bot.service.ts`)

`processApproval` and `processRejection`: a call of `ApprovalExecutionService` that runs on its own, and
the replies about it.

* `Ending`, `runAlone`   a call that runs until it returns or throws;
* `ApprovalReplies`, `RejectionReplies`   what each statement of a call comes back with;
* `Sends`                which replies get through to the owner;
* `Message`, `Message.text`   what the owner is told;
* `processApproval`, `processRejection`   the call and the messages.
-/

namespace Telegram
open JsString Common Hitl

/-! ## a call on its own -/

/-- what a call leaves: the rows, how it ends, and its events -/
structure Ending where
  pending : PendingApprovals
  outcome : Outcome Result
  /-- newest first -/
  events : List Event

/-- a call until it ends, for as many statements as are left -/
def runAlone {π : Type} (move : PendingApprovals → π → Move π) :
    Nat → PendingApprovals → π → Option Ending
  | 0, _, _ => none
  | statements + 1, p, pc =>
    let m := move p pc
    match m.next with
    | .finish outcome => some ⟨m.pending, outcome, m.events⟩
    | .goto pc' =>
      (runAlone move statements m.pending pc').map fun e => { e with events := e.events ++ m.events }

/-- what the statements of `resolveAndExecute` come back with -/
structure ApprovalReplies where
  getPending : Reply
  approvalRead : Reply
  approvalUpdate : Reply
  claim : Reply
  audit : Reply
  auditRelease : Reply
  execute : Reply
  executing : Reply
  failureRelease : Reply
  failureAudit : Reply
  remove : Reply

def ApprovalReplies.replyTo (replies : ApprovalReplies) : ApprovePc → Reply
  | .getPending => replies.getPending
  | .approvalRead _ => replies.approvalRead
  | .approvalUpdate _ => replies.approvalUpdate
  | .claim _ => replies.claim
  | .audit _ => replies.audit
  | .auditRelease _ => replies.auditRelease
  | .execute _ => replies.execute
  | .executing _ => replies.executing
  | .failureRelease _ _ => replies.failureRelease
  | .failureAudit _ => replies.failureAudit
  | .remove _ _ => replies.remove

/-- what the statements of `resolveRejection` come back with -/
structure RejectionReplies where
  getPending : Reply
  claim : Reply
  stuckAudit : Reply
  stuckRemove : Reply
  audit : Reply
  auditRelease : Reply
  remove : Reply

def RejectionReplies.replyTo (replies : RejectionReplies) : RejectPc → Reply
  | .getPending => replies.getPending
  | .claim _ _ => replies.claim
  | .stuckAudit _ => replies.stuckAudit
  | .stuckRemove _ => replies.stuckRemove
  | .audit _ => replies.audit
  | .auditRelease => replies.auditRelease
  | .remove => replies.remove

def owner : JsString := lit "owner"

/-- no call has more statements than these -/
def statementLimit : Nat := 9

def approving (id : CallId) (q : RequestId) (replies : ApprovalReplies) (p : PendingApprovals)
    (pc : ApprovePc) : Move ApprovePc :=
  approve p id q owner (replies.replyTo pc) pc

def rejecting (id : CallId) (q : RequestId) (replies : RejectionReplies) (p : PendingApprovals)
    (pc : RejectPc) : Move RejectPc :=
  reject p id q owner (replies.replyTo pc) pc

/-- a text that is no `uuid` fails in the first query -/
def resolveAndExecute (p : PendingApprovals) (id : CallId) (requestId : JsString)
    (replies : ApprovalReplies) : Option Ending :=
  match h : Audit.uuidColumn requestId with
  | none => some ⟨p, .failed, []⟩
  | some uuid => runAlone (approving id ⟨requestId, uuid, h⟩ replies) statementLimit p .getPending

def resolveRejection (p : PendingApprovals) (id : CallId) (requestId : JsString)
    (replies : RejectionReplies) : Option Ending :=
  match h : Audit.uuidColumn requestId with
  | none => some ⟨p, .failed, []⟩
  | some uuid => runAlone (rejecting id ⟨requestId, uuid, h⟩ replies) statementLimit p .getPending

/-! ## the messages -/

inductive Message where
  | firstApproval (requestId : JsString)
  | executed (requestId result : JsString)
  | tooEarly (message : JsString)
  | refused (message : JsString)
  | notCompleted (message : JsString)
  | rejected (requestId : JsString)
  | rejectionFailed (message : JsString)
  deriving DecidableEq, Repr

def Message.text : Message → JsString
  | .firstApproval requestId => lit "⏳ *Primera aprobación registrada* para `" ++ requestId
      ++ lit "`.\nPor favor, envíe la segunda aprobación pasados 30 segundos."
  | .executed requestId result => lit "✅ *Acción Aprobada y Ejecutada* (`" ++ requestId
      ++ lit "`).\nResultado: " ++ result
  | .tooEarly message => lit "⚠️ " ++ message
  | .refused message => lit "❌ " ++ message
  | .notCompleted message => lit "⚠️ Error al ejecutar la acción aprobada: " ++ message
      ++ lit "\nLa acción NO se completó y la aprobación sigue pendiente (/tasks). "
      ++ lit "No se reintenta sola: aprobala de nuevo si querés reintentar."
  | .rejected requestId => lit "❌ *Acción Rechazada* (`" ++ requestId
      ++ lit "`). Registrado en audit log."
  | .rejectionFailed message => lit "⚠️ Error al procesar rechazo: " ++ message

/-- the reply in the `try` gets through, or its text cannot be made or Telegram refuses it; and so does
the reply in the `catch` -/
structure Sends where
  first : Bool
  last : Bool
  /-- what is thrown where it is not a domain error -/
  error : JsString
  deriving DecidableEq, Repr

/-- what is left, and what the owner was told -/
structure Told where
  pending : PendingApprovals
  events : List Event
  sent : List Message

def sentIf (through : Bool) (message : Message) : List Message := if through then [message] else []

def secondApprovalTooEarlyCode : JsString := lit "HITL_SECOND_APPROVAL_TOO_EARLY"

/-- `PendingApprovalNotFoundError` and `ApprovalAlreadyResolvedError` -/
def refusalCodes : List JsString :=
  [lit "HITL_PENDING_APPROVAL_NOT_FOUND", lit "HITL_APPROVAL_ALREADY_RESOLVED"]

/-- the `catch` of `processApproval` -/
def approvalCaught (sends : Sends) : Option JinError → List Message
  | some error =>
    if error.code = secondApprovalTooEarlyCode then sentIf sends.last (.tooEarly error.message)
    else if error.code ∈ refusalCodes then sentIf sends.last (.refused error.message)
    else sentIf sends.last (.notCompleted error.message)
  | none => sentIf sends.last (.notCompleted sends.error)

/-- a reply that does not get through is caught as well -/
def approvalReplied (sends : Sends) (message : Message) : List Message :=
  if sends.first then [message] else approvalCaught sends none

def approvalMessages (requestId : JsString) (sends : Sends) : Outcome Result → List Message
  | .returned .awaitingSecond => approvalReplied sends (.firstApproval requestId)
  | .returned (.resolved _ result) => approvalReplied sends (.executed requestId result)
  | .returned _ => []
  | .threw error => approvalCaught sends (some error)
  | .failed => approvalCaught sends none

def processApproval (p : PendingApprovals) (id : CallId) (requestId : JsString)
    (replies : ApprovalReplies) (sends : Sends) : Option Told :=
  (resolveAndExecute p id requestId replies).map fun e =>
    ⟨e.pending, e.events, approvalMessages requestId sends e.outcome⟩

/-- the `catch` of `processRejection` -/
def rejectionCaught (sends : Sends) : Option JinError → List Message
  | some error =>
    if error.code ∈ refusalCodes then sentIf sends.last (.refused error.message)
    else sentIf sends.last (.rejectionFailed error.message)
  | none => sentIf sends.last (.rejectionFailed sends.error)

def rejectionMessages (requestId : JsString) (sends : Sends) : Outcome Result → List Message
  | .returned _ => if sends.first then [.rejected requestId] else rejectionCaught sends none
  | .threw error => rejectionCaught sends (some error)
  | .failed => rejectionCaught sends none

def processRejection (p : PendingApprovals) (id : CallId) (requestId : JsString)
    (replies : RejectionReplies) (sends : Sends) : Option Told :=
  (resolveRejection p id requestId replies).map fun e =>
    ⟨e.pending, e.events, rejectionMessages requestId sends e.outcome⟩

end Telegram
