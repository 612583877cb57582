import JinCore.Lib.Lease
import JinCore.Lib.Runs
import JinCore.Hitl.Pending

/-!
# The calls on pending approvals (`approval-execution.service.ts`, `timeout.service.ts`)

Every call runs statement by statement; between two statements any other call may run any of
its own.  A label says how the pending statement ended and at what time the call goes on.

* `CreatePc`, `ApprovePc`, `RejectPc`, `SweepPc`   where a call stands: the statement it awaits;
* `create`, `approve`, `reject`, `sweep`           what the call does when the statement ends;
* `Event`, `System`, `step`                        the table, the calls and what has happened;
* `Pc.stage`                                       how a call stands to the claim on a row;
* `execs`                                          the runs of the executor of a request.
-/

namespace Hitl
open JsString Common Tools Audit Runs Lease

/-! ## what happens -/

inductive Notification where
  | created (requestId toolName : JsString) (level : PendingApprovalLevel)
  | escalated (requestId toolName : JsString)
  | abandoned (requestId toolName : JsString)
  | stuck (requestId toolName : JsString)
  deriving DecidableEq, Repr

/-- the events of a run; the request is named by its uuid -/
inductive Event where
  /-- `resolveAndExecute` has read the row -/
  | began (id : CallId) (requestId : JsString)
  | firstApproved (id : CallId) (requestId : JsString) (now : Int)
  /-- the update of the first approval has found no row to write -/
  | lostRace (id : CallId) (requestId : JsString) (now : Int)
  /-- `recordApproval` has returned `'resolved'` -/
  | resolved (id : CallId) (requestId : JsString) (now : Int)
  | claimed (id : CallId) (row : PendingApprovalRow)
  /-- a row of the audit log, and the pending row at that moment -/
  | audited (id : CallId) (call : AuditCall) (row : Option PendingApprovalRow)
  | execStarted (id : CallId) (requestId : JsString) (row : PendingApprovalRow)
  | execSucceeded (id : CallId) (requestId : JsString)
  | execFailed (id : CallId) (requestId : JsString)
  | execInterrupted (id : CallId) (requestId : JsString)
  /-- a rejection has deleted a row it has not claimed -/
  | evicted (id : CallId) (requestId : JsString) (now : Int)
  | rejected (id : CallId) (requestId : JsString)
  | notified (notification : Notification)
  deriving DecidableEq, Repr

inductive Result where
  | created
  | awaitingSecond
  | resolved (toolName result : JsString)
  | rejected
  | swept
  deriving DecidableEq, Repr

/-- how a statement ended, the time at which the call goes on, and the text that came with it:
the message of an error or the result of an executor -/
structure Reply where
  now : Int
  fate : Fate
  text : JsString

inductive Next (π : Type) where
  | goto (pc : π)
  | finish (outcome : Outcome Result)

/-- what a call leaves when its statement ends -/
structure Move (π : Type) where
  pending : PendingApprovals
  next : Next π
  /-- newest first -/
  events : List Event

namespace Move
variable {π : Type}

def throw (p : PendingApprovals) (error : JinError) : Move π := ⟨p, .finish (.threw error), []⟩

def fail (p : PendingApprovals) : Move π := ⟨p, .finish .failed, []⟩

/-- `claimForExecution` -/
def claim (p : PendingApprovals) (id : CallId) (r : JsString) (now : Int) (fate : Fate)
    (won : PendingApprovalRow → π) (lost : Move π) : Move π :=
  match fate, p.claimForExecution r now with
  | .lost, _ => fail p
  | .ok, (some row, p') => ⟨p', .goto (won row), [.claimed id row]⟩
  | .ok, (none, _) => lost
  | .applied, (_, p') => fail p'

/-- `releaseClaim` -/
def release (p : PendingApprovals) (r : JsString) (error : Option JsString) (fate : Fate)
    (next : Next π) : Move π :=
  ⟨if fate.applies then p.releaseClaim r error else p,
    if fate = .ok then next else .finish .failed, []⟩

/-- `removePending` -/
def remove (p : PendingApprovals) (r : JsString) (fate : Fate) (next lost : Next π)
    (events : List Event) : Move π :=
  ⟨if fate.applies then p.removePending r else p, if fate = .ok then next else lost,
    if fate = .ok then events else []⟩

/-- an append to the audit log -/
def audit (p : PendingApprovals) (id : CallId) (r : JsString) (call : AuditCall) (fate : Fate)
    (next lost : Next π) : Move π :=
  ⟨p, if fate = .ok then next else lost,
    if fate.applies then [.audited id call (p.getPending r)] else []⟩

end Move

/-! ## `createPendingApproval` -/

inductive CreatePc where
  | insert
  | audit

def CreatePendingApprovalInput.auditCall (input : CreatePendingApprovalInput) : AuditCall :=
  .recordToolCall input.requestId.text (input.actor.getD (lit "agent")) input.toolName
    input.inputsHash input.planSummary .pending input.externalInputsSummary

/-- `none` while the id is not a fresh one -/
def create (p : PendingApprovals) (id : CallId) (input : CreatePendingApprovalInput)
    (reply : Reply) : CreatePc → Option (Move CreatePc)
  | .insert =>
    (p.insert input reply.now).map fun p' =>
      match reply.fate with
      | .lost => .fail p
      | .applied => .fail p'
      | .ok => ⟨p', .goto .audit, []⟩
  | .audit =>
    let created : Notification := .created input.requestId.uuid input.toolName input.level
    let m : Move CreatePc := .audit p id input.requestId.uuid input.auditCall reply.fate
      (.finish (.returned .created)) (.finish .failed)
    some { m with events := (if reply.fate = .ok then [.notified created] else []) ++ m.events }

/-! ## `resolveAndExecute` -/

inductive ApprovePc where
  | getPending
  | approvalRead (now : Int)
  | approvalUpdate (now : Int)
  | claim (now : Int)
  | audit (row : PendingApprovalRow)
  | auditRelease (error : JsString)
  | execute (row : PendingApprovalRow)
  | executing (row : PendingApprovalRow)
  | failureRelease (row : PendingApprovalRow) (error : JsString)
  | failureAudit (row : PendingApprovalRow)
  | remove (row : PendingApprovalRow) (result : JsString)

def ApprovePc.stage : ApprovePc → Option Stage
  | .audit _ | .auditRelease _ | .execute _ | .failureRelease _ _ => some .held
  | .executing _ => some .running
  | .remove _ _ => some .spent
  | _ => none

/-- the default arguments `now` are read when the statement before has ended -/
def approve (p : PendingApprovals) (id : CallId) (q : RequestId) (approver : JsString)
    (reply : Reply) : ApprovePc → Move ApprovePc
  | .getPending =>
    if reply.fate = .ok then
      match p.getPending q.uuid with
      | none => .throw p (pendingApprovalNotFoundError q.text)
      | some _ => ⟨p, .goto (.approvalRead reply.now), [.began id q.uuid]⟩
    else .fail p
  | .approvalRead now =>
    if reply.fate = .ok then
      match p.getPending q.uuid with
      | none => .throw p (pendingApprovalNotFoundError q.text)
      | some pending =>
        match approvalStep pending now with
        | .resolved => ⟨p, .goto (.claim reply.now), [.resolved id q.uuid now]⟩
        | .first => ⟨p, .goto (.approvalUpdate now), []⟩
        | .tooEarly availableAt => .throw p (secondApprovalTooEarlyError q.text availableAt)
    else .fail p
  | .approvalUpdate now =>
    match reply.fate, p.markFirst q.uuid now approver with
    | .lost, _ => .fail p
    | .ok, (true, p') =>
      ⟨p', .finish (.returned .awaitingSecond), [.firstApproved id q.uuid now]⟩
    -- the recursion: the row is read again, with the same `now`
    | .ok, (false, _) => ⟨p, .goto (.approvalRead now), [.lostRace id q.uuid now]⟩
    | .applied, (true, p') => ⟨p', .finish .failed, [.firstApproved id q.uuid now]⟩
    | .applied, (false, _) => .fail p
  | .claim now =>
    .claim p id q.uuid now reply.fate .audit (.throw p (approvalAlreadyResolvedError q.text))
  | .audit row =>
    .audit p id q.uuid (.recordApproval q.text approver row.toolName row.inputsHash) reply.fate
      (.goto (.execute row))
      (.goto (.auditRelease (lit "audit falló antes de ejecutar: " ++ reply.text)))
  | .auditRelease error => .release p q.uuid (some error) reply.fate (.finish .failed)
  -- the registry finds the executor and calls it, or throws because there is none
  | .execute row =>
    if reply.fate = .ok then ⟨p, .goto (.executing row), [.execStarted id q.uuid row]⟩
    else ⟨p, .goto (.failureRelease row reply.text), []⟩
  | .executing row =>
    if reply.fate = .ok then ⟨p, .goto (.remove row reply.text), [.execSucceeded id q.uuid]⟩
    else ⟨p, .goto (.failureRelease row reply.text), [.execFailed id q.uuid]⟩
  | .failureRelease row error =>
    .release p q.uuid (some error) reply.fate (.goto (.failureAudit row))
  | .failureAudit row =>
    .audit p id q.uuid (.recordExecutionFailure q.text row.toolName row.inputsHash) reply.fate
      (.finish .failed) (.finish .failed)
  -- the action is done: a failed delete is only logged
  | .remove row result =>
    .remove p q.uuid reply.fate (.finish (.returned (.resolved row.toolName result)))
      (.finish (.returned (.resolved row.toolName result))) []

/-! ## `resolveRejection` -/

inductive RejectPc where
  | getPending
  | claim (pending : PendingApprovalRow) (now : Int)
  | stuckAudit (pending : PendingApprovalRow)
  | stuckRemove (now : Int)
  | audit (row : PendingApprovalRow)
  | auditRelease
  | remove

def RejectPc.stage : RejectPc → Option Stage
  | .audit _ | .auditRelease | .remove => some .held
  | _ => none

def reject (p : PendingApprovals) (id : CallId) (q : RequestId) (approver : JsString)
    (reply : Reply) : RejectPc → Move RejectPc
  | .getPending =>
    if reply.fate = .ok then
      match p.getPending q.uuid with
      | none => .throw p (pendingApprovalNotFoundError q.text)
      | some pending => ⟨p, .goto (.claim pending reply.now), []⟩
    else .fail p
  | .claim pending now =>
    .claim p id q.uuid now reply.fate .audit
      (if isStuck pending.executingAt reply.now then ⟨p, .goto (.stuckAudit pending), []⟩
        else .throw p (approvalAlreadyResolvedError q.text))
  | .stuckAudit pending =>
    .audit p id q.uuid (.recordRejection q.text approver pending.toolName pending.inputsHash)
      reply.fate (.goto (.stuckRemove reply.now)) (.finish .failed)
  -- the answer of the conditional delete is not looked at
  | .stuckRemove now =>
    match reply.fate, p.removeIfNotExecuting q.uuid now with
    | .lost, _ => .fail p
    | .ok, (true, p') =>
      ⟨p', .finish (.returned .rejected), [.rejected id q.uuid, .evicted id q.uuid now]⟩
    | .ok, (false, _) => ⟨p, .finish (.returned .rejected), [.rejected id q.uuid]⟩
    | .applied, (true, p') => ⟨p', .finish .failed, [.evicted id q.uuid now]⟩
    | .applied, (false, _) => .fail p
  | .audit row =>
    .audit p id q.uuid (.recordRejection q.text approver row.toolName row.inputsHash) reply.fate
      (.goto .remove) (.goto .auditRelease)
  | .auditRelease => .release p q.uuid none reply.fate (.finish .failed)
  | .remove =>
    .remove p q.uuid reply.fate (.finish (.returned .rejected)) (.finish .failed)
      [.rejected id q.uuid]

/-! ## `TimeoutService.sweep` -/

inductive SweepPc where
  | select
  | claim (row : PendingApprovalRow) (rest : List PendingApprovalRow) (status : TimeoutStatus)
      (now : Int)
  | audit (row : PendingApprovalRow) (rest : List PendingApprovalRow) (status : TimeoutStatus)
  | auditRelease (row : PendingApprovalRow)
  | remove (row : PendingApprovalRow) (rest : List PendingApprovalRow) (status : TimeoutStatus)
  | escalate (row : PendingApprovalRow) (rest : List PendingApprovalRow)

def SweepPc.stage (r : JsString) : SweepPc → Option Stage
  | .audit row _ _ | .auditRelease row | .remove row _ _ =>
    if row.requestId = r then some .held else none
  | _ => none

/-- `processPending` of one row after the other, up to the next statement -/
def processPending (now clock : Int) : List PendingApprovalRow → Next SweepPc × List Event
  | [] => (.finish (.returned .swept), [])
  | row :: rest =>
    match row.executingAt with
    | some _ =>
      let (next, events) := processPending now clock rest
      (next, events ++ if isStuck row.executingAt now
        then [.notified (.stuck row.requestId row.toolName)] else [])
    | none =>
      let behavior := ((getToolDefinition row.toolName).bind ToolDefinition.timeoutBehavior).getD
        .discard
      match decideTimeoutOutcome row.createdAt behavior row.escalatedAt.isSome now with
      | .none => processPending now clock rest
      | .discard => (.goto (.claim row rest .timeout clock), [])
      | .escalateWarning => (.goto (.escalate row rest), [])
      | .abandon => (.goto (.claim row rest .abandoned clock), [])

/-- the rows that are left, after what was told about the one before -/
def sweepOn (p : PendingApprovals) (now clock : Int) (rest : List PendingApprovalRow)
    (told : List Event) : Move SweepPc :=
  ⟨p, (processPending now clock rest).1, (processPending now clock rest).2 ++ told⟩

def abandonedEvents (row : PendingApprovalRow) : TimeoutStatus → List Event
  | .timeout => []
  | .abandoned => [.notified (.abandoned row.requestId row.toolName)]

def sweep (p : PendingApprovals) (id : CallId) (now : Int) (reply : Reply) : SweepPc → Move SweepPc
  | .select => if reply.fate = .ok then sweepOn p now reply.now p.table.rows [] else .fail p
  | .claim row rest status claimNow =>
    .claim p id row.requestId claimNow reply.fate (fun _ => .audit row rest status)
      (sweepOn p now reply.now rest [])
  | .audit row rest status =>
    .audit p id row.requestId (.recordTimeout row.requestId row.toolName row.inputsHash status)
      reply.fate (.goto (.remove row rest status)) (.goto (.auditRelease row))
  | .auditRelease row => .release p row.requestId none reply.fate (.finish .failed)
  | .remove row rest status =>
    let on := sweepOn p now reply.now rest (abandonedEvents row status)
    .remove p row.requestId reply.fate on.next (.finish .failed) on.events
  | .escalate row rest =>
    let p' := p.escalate row.requestId now
    match reply.fate with
    | .lost => .fail p
    | .applied => .fail p'
    | .ok => sweepOn p' now reply.now rest [.notified (.escalated row.requestId row.toolName)]

/-! ## the system -/

inductive Op where
  | createPendingApproval (input : CreatePendingApprovalInput)
  | resolveAndExecute (requestId : RequestId) (approver : JsString)
  | resolveRejection (requestId : RequestId) (approver : JsString)
  | sweep (now : Int)

inductive Pc where
  | idle
  | create (input : CreatePendingApprovalInput) (pc : CreatePc)
  | approve (requestId : RequestId) (approver : JsString) (pc : ApprovePc)
  | reject (requestId : RequestId) (approver : JsString) (pc : RejectPc)
  | sweep (now : Int) (pc : SweepPc)
  | done (outcome : Outcome Result)

def Pc.start : Op → Pc
  | .createPendingApproval input => .create input .insert
  | .resolveAndExecute q approver => .approve q approver .getPending
  | .resolveRejection q approver => .reject q approver .getPending
  | .sweep now => .sweep now .select

/-- how a call stands to the claim on the row of `r` -/
def Pc.stage (r : JsString) : Pc → Option Stage
  | .approve q _ pc => if q.uuid = r then pc.stage else none
  | .reject q _ pc => if q.uuid = r then pc.stage else none
  | .sweep _ pc => pc.stage r
  | _ => none

def Next.toPc {π : Type} (f : π → Pc) : Next π → Pc
  | .goto pc => f pc
  | .finish outcome => .done outcome

structure System where
  pending : PendingApprovals
  pc : CallId → Pc
  /-- newest first -/
  history : List Event

def System.init : System := ⟨PendingApprovals.empty, fun _ => .idle, []⟩

/-- a call goes on -/
def System.apply {π : Type} (s : System) (id : CallId) (f : π → Pc) (m : Move π) : System where
  pending := m.pending
  pc i := if i = id then m.next.toPc f else s.pc i
  history := m.events ++ s.history

/-- what is known of a call that dies -/
def Pc.interrupted (id : CallId) : Pc → List Event
  | .approve q _ (.executing _) => [.execInterrupted id q.uuid]
  | _ => []

def System.stop (s : System) (id : CallId) : System where
  pending := s.pending
  pc i := if i = id then .done .failed else s.pc i
  history := (s.pc id).interrupted id ++ s.history

inductive Label where
  | begin (id : CallId) (op : Op)
  | go (id : CallId) (reply : Reply)
  /-- the process of the call dies -/
  | die (id : CallId)

def step (s : System) : Label → Option System
  | .begin id op =>
    match s.pc id with
    | .idle => some { s with pc := fun i => if i = id then Pc.start op else s.pc i }
    | _ => none
  | .go id reply =>
    match s.pc id with
    | .idle | .done _ => none
    | .create input pc => (create s.pending id input reply pc).map (s.apply id (.create input))
    | .approve q approver pc =>
      some (s.apply id (.approve q approver) (approve s.pending id q approver reply pc))
    | .reject q approver pc =>
      some (s.apply id (.reject q approver) (reject s.pending id q approver reply pc))
    | .sweep now pc => some (s.apply id (.sweep now) (sweep s.pending id now reply pc))
  | .die id =>
    match s.pc id with
    | .idle | .done _ => none
    | _ => some (s.stop id)

/-! ## the executor runs of a request -/

def execOf (r : JsString) : Event → Option (Ev CallId)
  | .execStarted id requestId _ => if requestId = r then some ⟨id, .started⟩ else none
  | .execSucceeded id requestId => if requestId = r then some ⟨id, .succeeded⟩ else none
  | .execFailed id requestId => if requestId = r then some ⟨id, .failed⟩ else none
  | .execInterrupted id requestId => if requestId = r then some ⟨id, .interrupted⟩ else none
  | _ => none

def execs (r : JsString) (h : List Event) : List (Ev CallId) := h.filterMap (execOf r)

end Hitl
