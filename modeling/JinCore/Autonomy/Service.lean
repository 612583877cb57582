import JinCore.Autonomy.Logic
import JinCore.Common.Calls
import JinCore.Hitl.Pending
import JinCore.Lib.Runs

/-!
# The autonomy mode (`autonomy.service.ts`)

The mode is one row of one table.  Every call runs statement by statement, between two statements
any other call may run; a call that has ended takes no further step.

* `AutonomyRow`, `getState`     the row, and the mode that is in force at an instant;
* `setMode`, `bumpRelaxedCounter`   the two updates of the row;
* `writeState`                  a change of mode: the previous mode, the audit, the update;
* `relax`, `requestModeChange`, `expireIfNeeded`   the calls, up to their next statement;
* `AutonomySystem`, `step`      the row and the calls.
-/

namespace Autonomy
open JsString Common Audit Tools Hitl

/-! ## the row -/

/-- the row of `autonomy_mode_state`; the column check admits the three modes only -/
structure AutonomyRow where
  mode : AutonomyMode
  expiresAt : Option Int
  setBy : JsString
  approvalRequestId : Option JsString
  changedAt : Int
  relaxedCount : Nat
  windowStartedAt : Int
  deriving DecidableEq

structure AutonomyState where
  mode : AutonomyMode
  expiresAt : Option Int
  setBy : JsString
  changedAt : Int
  deriving DecidableEq

def safeState (now : Int) (setBy : JsString) : AutonomyState := ⟨.supervised, none, setBy, now⟩

def getState (row : Option AutonomyRow) (now : Int) : AutonomyState :=
  match row with
  | none => safeState now (lit "system:default")
  | some row =>
    if row.mode = .supervised then safeState now row.setBy
    else
      match row.expiresAt with
      | none => safeState now (lit "system:expiry")
      | some expiresAt =>
        if expiresAt ≤ now then safeState now (lit "system:expiry")
        else ⟨row.mode, some expiresAt, row.setBy, row.changedAt⟩

/-- the row that the migration inserts -/
def seedRow (now : Int) : AutonomyRow := ⟨.supervised, none, lit "system:default", none, now, 0, now⟩

/-- one update evaluates the window and counts -/
def AutonomyRow.bump (now : Int) (row : AutonomyRow) : AutonomyRow :=
  if row.windowStartedAt < now - hourMs then { row with relaxedCount := 1, windowStartedAt := now }
  else { row with relaxedCount := row.relaxedCount + 1 }

def bumpRelaxedCounter (row : Option AutonomyRow) (now : Int) : Nat × Option AutonomyRow :=
  let row' := row.map (AutonomyRow.bump now)
  ((row'.map AutonomyRow.relaxedCount).getD 0, row')

inductive AutonomyChangeReason where
  | approved | downgrade | expired | circuitBreaker
  deriving DecidableEq, Repr

def AutonomyChangeReason.text : AutonomyChangeReason → JsString
  | .approved => lit "approved"
  | .downgrade => lit "downgrade"
  | .expired => lit "expired"
  | .circuitBreaker => lit "circuit-breaker"

/-- the argument of `writeState` -/
structure WriteInput where
  mode : AutonomyMode
  hours : Int
  setBy : JsString
  reason : AutonomyChangeReason
  approvalRequestId : Option JsString
  auditBeforeApply : Bool
  deriving DecidableEq

def WriteInput.expiresAt (input : WriteInput) (now : Int) : Option Int :=
  if input.mode = .supervised then none else some (now + input.hours * hourMs)

def WriteInput.setMode (input : WriteInput) (now : Int) (_ : AutonomyRow) : AutonomyRow where
  mode := input.mode
  expiresAt := input.expiresAt now
  setBy := input.setBy
  approvalRequestId := input.approvalRequestId
  changedAt := now
  relaxedCount := 0
  windowStartedAt := now

/-- the argument that `applyRestrictiveChange` passes on -/
def restrictiveChange (mode : AutonomyMode) (setBy : JsString) (reason : AutonomyChangeReason)
    (hours : Int) : WriteInput :=
  ⟨mode, hours, setBy, reason, none, false⟩

/-! ## what is told to others -/

structure AutonomyModeChangedEvent where
  mode : AutonomyMode
  previousMode : AutonomyMode
  reason : AutonomyChangeReason
  expiresAt : Option Int
  setBy : JsString
  deriving DecidableEq

inductive Event where
  | audited (id : CallId) (call : AuditCall)
  | modeChanged (event : AutonomyModeChangedEvent)
  | pendingCreated (id : CallId) (input : CreatePendingApprovalInput)
  deriving DecidableEq

/-- the service, its configuration and the digest of a JSON text -/
structure AutonomyService where
  config : AutonomyConfig
  hashOf : JsString → JsString

def autonomyModeChangeToolName : JsString := lit "autonomyModeChange"

def intText (n : Int) : JsString := lit (toString n)

/-- `JSON.stringify` of a mode and its hours, and of what may follow -/
def modeJson (mode : AutonomyMode) (hours : Int) (rest : JsString) : JsString :=
  lit "\x7b\"mode\":\"" ++ mode.text ++ lit "\",\"hours\":" ++ intText hours ++ rest ++ lit "\x7d"

def WriteInput.planSummary (input : WriteInput) (now : Int) (previous : AutonomyMode) : JsString :=
  lit "modo de autonomía " ++ previous.text ++ lit " -> " ++ input.mode.text ++ lit " ("
    ++ input.reason.text ++ lit ")"
    ++ match input.expiresAt now with
      | some expiresAt => lit ", hasta " ++ isoText expiresAt
      | none => lit ""

/-- the row of the audit log; a change without an approval has an id of its own -/
def WriteInput.auditCall (input : WriteInput) (hashOf : JsString → JsString) (uuid : JsString)
    (now : Int) (previous : AutonomyMode) : AuditCall :=
  .recordToolCall (input.approvalRequestId.getD uuid) input.setBy autonomyModeChangeToolName
    (hashOf (modeJson input.mode input.hours (lit ""))) (some (input.planSummary now previous)) .auto
    none

structure ModeChangeInput where
  mode : AutonomyMode
  hours : Option Int
  requestedBy : JsString
  deriving DecidableEq

/-- the `dual-confirm` that a change of mode waits for -/
def ModeChangeInput.pendingInput (input : ModeChangeInput) (hashOf : JsString → JsString)
    (hours : Int) (requestId : RequestId) : CreatePendingApprovalInput :=
  let payload := modeJson input.mode hours
    (lit ",\"approvalRequestId\":\"" ++ requestId.text ++ lit "\"")
  { requestId := requestId
    toolName := autonomyModeChangeToolName
    level := .dualConfirm
    inputsHash := hashOf payload
    planSummary := some (lit "Cambiar el modo de autonomía a \"" ++ input.mode.text
      ++ lit "\" durante " ++ intText hours
      ++ lit " h (baja la protección del HITL). Se autoejecutan las acciones que hoy piden 1 aprobación"
      ++ (if input.mode = .semiAuto then
        lit ", salvo git/merges, correos y borrar eventos futuros" else lit "")
      ++ lit "; lo dual-confirm sigue igual.")
    payload := some payload
    actor := some input.requestedBy
    externalInputsSummary := none }

/-! ## the calls -/

/-- how a statement ended, the time at which the call goes on, and the random uuid it may draw -/
structure Reply where
  now : Int
  fate : Fate
  uuid : RequestId

inductive Result where
  | decision (decision : HitlDecision)
  | applied (mode : AutonomyMode) (expiresAt : Option Int)
  | pendingApproval (requestId : JsString) (mode : AutonomyMode) (hours : Int)
  | ok
  deriving DecidableEq

inductive Next (π : Type) where
  | goto (pc : π)
  | finish (outcome : Outcome Result)

structure Move (π : Type) where
  row : Option AutonomyRow
  next : Next π
  events : List Event

/-- where a `writeState` stands, with the `now` it has read first -/
inductive WritePc where
  | readPrevious (now : Int)
  | auditBefore (now : Int) (previous : AutonomyMode)
  | update (now : Int) (previous : AutonomyMode)
  | auditAfter (now : Int) (previous : AutonomyMode)

def Next.map {π ρ : Type} (f : π → ρ) : Next π → Next ρ
  | .goto pc => .goto (f pc)
  | .finish outcome => .finish outcome

def Move.map {π ρ : Type} (f : π → ρ) (m : Move π) : Move ρ := ⟨m.row, m.next.map f, m.events⟩

section
variable (service : AutonomyService) (row : Option AutonomyRow) (id : CallId)

/-- `result` is what the caller of `writeState` returns -/
def writeState (input : WriteInput) (result : Option Int → Result) (reply : Reply) :
    WritePc → Move WritePc
  | .readPrevious now =>
    if reply.fate = .ok then
      let previous := (getState row now).mode
      ⟨row, .goto (if input.auditBeforeApply then .auditBefore now previous
        else .update now previous), []⟩
    else ⟨row, .finish .failed, []⟩
  | .auditBefore now previous =>
    ⟨row, if reply.fate = .ok then .goto (.update now previous) else .finish .failed,
      if reply.fate.applies then
        [.audited id (input.auditCall service.hashOf reply.uuid.text now previous)] else []⟩
  | .update now previous =>
    ⟨if reply.fate.applies then row.map (input.setMode now) else row,
      if reply.fate = .ok then
        if input.auditBeforeApply then .finish (.returned (result (input.expiresAt now)))
        else .goto (.auditAfter now previous)
      else .finish .failed,
      if reply.fate = .ok ∧ input.auditBeforeApply = true then
        [.modeChanged ⟨input.mode, previous, input.reason, input.expiresAt now, input.setBy⟩]
      else []⟩
  -- a failed audit is only logged
  | .auditAfter now previous =>
    ⟨row, .finish (.returned (result (input.expiresAt now))),
      .modeChanged ⟨input.mode, previous, input.reason, input.expiresAt now, input.setBy⟩ ::
        if reply.fate.applies then
          [.audited id (input.auditCall service.hashOf reply.uuid.text now previous)] else []⟩

inductive RelaxPc where
  | getState (now : Int)
  | bump (relaxed : HitlDecision)
  | write (pc : WritePc)

/-- the change that the circuit breaker makes -/
def circuitBreaker : WriteInput :=
  restrictiveChange .supervised (lit "system:circuit-breaker") .circuitBreaker 0

def relax (decision : HitlDecision) (tool : Option ToolDefinition) (reply : Reply) :
    RelaxPc → Move RelaxPc
  | .getState now =>
    if reply.fate = .ok then
      let result := relaxDecision decision (getState row now).mode tool
      match result.relaxedBy with
      | none => ⟨row, .finish (.returned (.decision decision)), []⟩
      | some _ => ⟨row, .goto (.bump result.decision), []⟩
    else ⟨row, .finish .failed, []⟩
  | .bump relaxed =>
    let (count, row') := bumpRelaxedCounter row reply.now
    match reply.fate with
    | .lost => ⟨row, .finish .failed, []⟩
    | .applied => ⟨row', .finish .failed, []⟩
    | .ok =>
      if count > service.config.maxRelaxedActionsPerHour then
        ⟨row', .goto (.write (.readPrevious reply.now)), []⟩
      else ⟨row', .finish (.returned (.decision relaxed)), []⟩
  | .write pc =>
    (writeState service row id circuitBreaker (fun _ => .decision decision) reply pc).map .write

inductive RequestPc where
  | getState (now : Int)
  | write (hours : Int) (pc : WritePc)
  | createPending (hours : Int)

def requestModeChange (input : ModeChangeInput) (reply : Reply) : RequestPc → Move RequestPc
  | .getState now =>
    if reply.fate = .ok then
      let hours := clampHours input.hours (service.config.limitsFor input.mode)
      if requiresDualConfirm (getState row now).mode input.mode then
        ⟨row, .goto (.createPending hours), []⟩
      else
        ⟨row, .goto (.write (if input.mode = .supervised then 0 else hours)
          (.readPrevious reply.now)), []⟩
    else ⟨row, .finish .failed, []⟩
  | .write hours pc =>
    (writeState service row id (restrictiveChange input.mode input.requestedBy .downgrade hours)
      (.applied input.mode) reply pc).map (.write hours)
  | .createPending hours =>
    if reply.fate = .ok then
      ⟨row, .finish (.returned (.pendingApproval reply.uuid.text input.mode hours)),
        [.pendingCreated id (input.pendingInput service.hashOf hours reply.uuid)]⟩
    else ⟨row, .finish .failed, []⟩

/-- the payload of an approved change, once it is parsed -/
structure ApprovedChangePayload where
  mode : AutonomyMode
  hours : Int
  approvalRequestId : JsString
  hours_pos : 0 < hours

def ApprovedChangePayload.change (payload : ApprovedChangePayload) (config : AutonomyConfig) :
    WriteInput where
  mode := payload.mode
  hours := if payload.mode = .supervised then 0
    else clampHours (some payload.hours) (config.limitsFor payload.mode)
  setBy := lit "owner:dual-confirm"
  reason := .approved
  approvalRequestId := some payload.approvalRequestId
  auditBeforeApply := true

def applyApprovedChange (payload : ApprovedChangePayload) (reply : Reply) : WritePc → Move WritePc :=
  writeState service row id (payload.change service.config) (fun _ => .ok) reply

inductive ExpirePc where
  | select
  | write (pc : WritePc)

/-- the change that the expiry makes -/
def expiry : WriteInput := restrictiveChange .supervised (lit "system:expiry") .expired 0

/-- the relaxed row has no expiry or an expired one -/
def AutonomyRow.isExpired (row : AutonomyRow) (now : Int) : Bool :=
  match row.expiresAt with
  | none => true
  | some expiresAt => decide (expiresAt ≤ now)

def expireIfNeeded (now : Int) (reply : Reply) : ExpirePc → Move ExpirePc
  | .select =>
    if reply.fate = .ok then
      match row with
      | none => ⟨row, .finish (.returned .ok), []⟩
      | some r =>
        if r.mode = .supervised then ⟨row, .finish (.returned .ok), []⟩
        else if r.isExpired now then ⟨row, .goto (.write (.readPrevious reply.now)), []⟩
        else ⟨row, .finish (.returned .ok), []⟩
    else ⟨row, .finish .failed, []⟩
  | .write pc => (writeState service row id expiry (fun _ => .ok) reply pc).map .write

end

/-! ## the system -/

inductive Op where
  | relax (decision : HitlDecision) (tool : Option ToolDefinition)
  | requestModeChange (input : ModeChangeInput)
  /-- `none` is a payload that does not parse -/
  | applyApprovedChange (payload : Option ApprovedChangePayload)
  | expireIfNeeded

inductive Pc where
  | idle
  | relax (decision : HitlDecision) (tool : Option ToolDefinition) (pc : RelaxPc)
  | request (input : ModeChangeInput) (pc : RequestPc)
  | approved (payload : ApprovedChangePayload) (pc : WritePc)
  | expire (now : Int) (pc : ExpirePc)
  | done (outcome : Outcome Result)

def Pc.start (now : Int) : Op → Pc
  | .relax decision tool => .relax decision tool (.getState now)
  | .requestModeChange input => .request input (.getState now)
  | .applyApprovedChange none => .done .failed
  | .applyApprovedChange (some payload) => .approved payload (.readPrevious now)
  | .expireIfNeeded => .expire now .select

def Next.toPc {π : Type} (f : π → Pc) : Next π → Pc
  | .goto pc => f pc
  | .finish outcome => .done outcome

structure AutonomySystem where
  row : Option AutonomyRow
  pc : CallId → Pc
  /-- newest first -/
  history : List Event

/-- after the migration -/
def AutonomySystem.init (now : Int) : AutonomySystem := ⟨some (seedRow now), fun _ => .idle, []⟩

def AutonomySystem.set (s : AutonomySystem) (id : CallId) (pc : Pc) : AutonomySystem :=
  { s with pc := fun i => if i = id then pc else s.pc i }

def AutonomySystem.apply {π : Type} (s : AutonomySystem) (id : CallId) (f : π → Pc) (m : Move π) :
    AutonomySystem where
  row := m.row
  pc i := if i = id then m.next.toPc f else s.pc i
  history := m.events ++ s.history

inductive AutonomyLabel where
  | begin (id : CallId) (op : Op) (now : Int)
  | go (id : CallId) (reply : Reply)

section
variable (service : AutonomyService)

/-- the pending statement of a call ends; a call that has none stands still -/
def AutonomySystem.go (s : AutonomySystem) (id : CallId) (reply : Reply) : AutonomySystem :=
  match s.pc id with
  | .idle | .done _ => s
  | .relax decision tool pc =>
    s.apply id (.relax decision tool) (relax service s.row id decision tool reply pc)
  | .request input pc =>
    s.apply id (.request input) (requestModeChange service s.row id input reply pc)
  | .approved payload pc =>
    s.apply id (.approved payload) (applyApprovedChange service s.row id payload reply pc)
  | .expire now pc => s.apply id (.expire now) (expireIfNeeded service s.row id now reply pc)

def step (s : AutonomySystem) : AutonomyLabel → Option AutonomySystem
  | .begin id op now =>
    match s.pc id with
    | .idle => some (s.set id (.start now op))
    | _ => none
  | .go id reply => some (s.go service id reply)

end

end Autonomy
