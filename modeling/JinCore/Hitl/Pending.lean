import JinCore.Lib.Table
import JinCore.Common.Calls
import JinCore.Audit.Service
import JinCore.Tools.Registry

/-!
# Pending approvals (`dual-confirm.service.ts`, `dual-confirm.logic.ts`, `timeout.logic.ts`)

* `PendingApprovalRow`    a row of `pending_approvals`, all its columns;
* `PendingApprovals`      the table and the ids ever inserted into it;
* `claimForExecution`, `releaseClaim`, `removePending`, `removeIfNotExecuting`, `markFirst`,
  `escalate`              the statements, each with the row it leaves (`get_...`);
* `approvalStep`          what `recordApproval` does with the row it has read;
* `decideTimeoutOutcome`  what the sweep does with a row nobody is executing.
-/

namespace Hitl
open JsString Common Tools Audit

inductive PendingApprovalLevel where
  | confirm | dualConfirm
  deriving DecidableEq, Repr

/-- a request id as a caller writes it, and the `uuid` it stands for -/
structure RequestId where
  text : JsString
  uuid : JsString
  cast : uuidColumn text = some uuid
  deriving DecidableEq

/-- an id in the form in which it is read back -/
def sampleRequest : RequestId where
  text := lit "aaaaaaaa-aaaa-4aaa-8aaa-aaaaaaaaaaaa"
  uuid := lit "aaaaaaaa-aaaa-4aaa-8aaa-aaaaaaaaaaaa"
  cast := by decide

/-- a row of `pending_approvals`, its times in milliseconds -/
structure PendingApprovalRow where
  requestId : JsString
  toolName : JsString
  level : PendingApprovalLevel
  inputsHash : JsString
  planSummary : Option JsString
  actor : Option JsString
  externalInputsSummary : Option JsString
  /-- the JSON text of the payload -/
  payload : Option JsString
  createdAt : Int
  firstApprovedAt : Option Int
  firstApprover : Option JsString
  availableAt : Option Int
  escalatedAt : Option Int
  executingAt : Option Int
  executionError : Option JsString
  deriving DecidableEq, Repr

structure CreatePendingApprovalInput where
  requestId : RequestId
  toolName : JsString
  level : PendingApprovalLevel
  inputsHash : JsString
  planSummary : Option JsString
  payload : Option JsString
  actor : Option JsString
  externalInputsSummary : Option JsString
  deriving DecidableEq

/-! ## constants and pure logic -/

def dualConfirmDelayMs : Int := 30000

def stuckClaimAfterMs : Int := 15 * 60 * 1000

def approvalTtlMs : Int := 24 * 60 * 60 * 1000

def escalationWarningMs : Int := 12 * 60 * 60 * 1000

def computeAvailableAt (firstApprovedAt : Int) : Int := firstApprovedAt + dualConfirmDelayMs

def canAcceptSecondApproval (availableAt now : Int) : Bool := decide (availableAt ≤ now)

/-- older than `stuckClaimAfterMs` -/
def isStuck (executingAt : Option Int) (now : Int) : Bool :=
  match executingAt with
  | none => false
  | some at_ => decide (now - at_ > stuckClaimAfterMs)

inductive TimeoutOutcome where
  | none | discard | escalateWarning | abandon
  deriving DecidableEq, Repr

def decideTimeoutOutcome (createdAt : Int) (timeoutBehavior : TimeoutBehavior)
    (alreadyEscalated : Bool) (now : Int) : TimeoutOutcome :=
  let elapsedMs := now - createdAt
  match timeoutBehavior with
  | .discard => if elapsedMs ≥ approvalTtlMs then .discard else .none
  | .escalate =>
    if elapsedMs ≥ approvalTtlMs then .abandon
    else if elapsedMs ≥ escalationWarningMs ∧ alreadyEscalated = false then .escalateWarning
    else .none

/-! ## errors -/

/-- `toISOString` of a time in the range of `Date` -/
def isoText (time : Int) : JsString :=
  if h : -8640000000000000 ≤ time ∧ time ≤ 8640000000000000 then (JsDate.mk time h).toISOString
  else lit "Invalid Date"

def pendingApprovalNotFoundError (requestId : JsString) : JinError where
  message := lit "No hay aprobación pendiente con requestId \"" ++ requestId ++ lit "\""
  code := lit "HITL_PENDING_APPROVAL_NOT_FOUND"
  httpStatus := some 404

def secondApprovalTooEarlyError (requestId : JsString) (availableAt : Int) : JinError where
  message := lit "La segunda aprobación de \"" ++ requestId ++ lit "\" no se acepta antes de "
    ++ isoText availableAt
  code := lit "HITL_SECOND_APPROVAL_TOO_EARLY"
  httpStatus := some 409

def approvalAlreadyResolvedError (requestId : JsString) : JinError where
  message := lit "La aprobación \"" ++ requestId
    ++ lit "\" ya está siendo ejecutada o ya fue resuelta por otra solicitud."
  code := lit "HITL_APPROVAL_ALREADY_RESOLVED"
  httpStatus := some 409

/-! ## the table -/

/-- the rows of `pending_approvals` and the ids ever inserted -/
structure PendingApprovals where
  table : Table PendingApprovalRow.requestId
  used : List JsString
  covers : ∀ r, table.get r ≠ none → r ∈ used

namespace PendingApprovals

def empty : PendingApprovals := ⟨Table.empty _, [], fun _ h => absurd (Table.get_empty _) h⟩

/-- `SELECT ... WHERE request_id = r` -/
def getPending (p : PendingApprovals) (r : JsString) : Option PendingApprovalRow := p.table.get r

/-- an update of the row of `r` that leaves its key alone -/
def update (p : PendingApprovals) (r : JsString) (f : PendingApprovalRow → PendingApprovalRow)
    (hf : ∀ row, (f row).requestId = row.requestId) : PendingApprovals where
  table := p.table.modify r f hf
  used := p.used
  covers := by
    intro j hj
    apply p.covers
    intro h
    rw [Table.get_modify] at hj
    split at hj
    next he => exact hj (by rw [← he, h, Option.map_none])
    next => exact hj h

def removePending (p : PendingApprovals) (r : JsString) : PendingApprovals where
  table := p.table.erase r
  used := p.used
  covers := by
    intro j hj
    apply p.covers
    intro h
    rw [Table.get_erase] at hj
    split at hj
    next => exact hj rfl
    next => exact hj h

def setFirst (now : Int) (approver : JsString) (row : PendingApprovalRow) : PendingApprovalRow :=
  { row with
    firstApprovedAt := some now
    firstApprover := some approver
    availableAt := some (computeAvailableAt now) }

def setExecuting (now : Int) (row : PendingApprovalRow) : PendingApprovalRow :=
  { row with executingAt := some now, executionError := none }

def setReleased (error : Option JsString) (row : PendingApprovalRow) : PendingApprovalRow :=
  { row with executingAt := none, executionError := error }

def setEscalated (now : Int) (row : PendingApprovalRow) : PendingApprovalRow :=
  { row with escalatedAt := some now }

/-- the conditional update of the first approval: `true` when it has found the row unapproved -/
def markFirst (p : PendingApprovals) (r : JsString) (now : Int) (approver : JsString) :
    Bool × PendingApprovals :=
  match p.getPending r with
  | none => (false, p)
  | some row =>
    match row.firstApprovedAt with
    | some _ => (false, p)
    | none => (true, p.update r (setFirst now approver) fun _ => rfl)

/-- `UPDATE ... SET executing_at = now WHERE executing_at IS NULL RETURNING *` -/
def claimForExecution (p : PendingApprovals) (r : JsString) (now : Int) :
    Option PendingApprovalRow × PendingApprovals :=
  match p.getPending r with
  | none => (none, p)
  | some row =>
    match row.executingAt with
    | some _ => (none, p)
    | none => (some (setExecuting now row), p.update r (setExecuting now) fun _ => rfl)

def releaseClaim (p : PendingApprovals) (r : JsString) (error : Option JsString) :
    PendingApprovals :=
  p.update r (setReleased error) fun _ => rfl

/-- `false` when a claim that is not stuck is in the way, or the row is gone -/
def removeIfNotExecuting (p : PendingApprovals) (r : JsString) (now : Int) :
    Bool × PendingApprovals :=
  match p.getPending r with
  | none => (false, p)
  | some row =>
    match row.executingAt with
    | none => (true, p.removePending r)
    | some at_ => if at_ < now - stuckClaimAfterMs then (true, p.removePending r) else (false, p)

def escalate (p : PendingApprovals) (r : JsString) (now : Int) : PendingApprovals :=
  p.update r (setEscalated now) fun _ => rfl

/-- the row of an input, as the insert and the column defaults make it -/
def newRow (input : CreatePendingApprovalInput) (createdAt : Int) : PendingApprovalRow where
  requestId := input.requestId.uuid
  toolName := input.toolName
  level := input.level
  inputsHash := input.inputsHash
  planSummary := input.planSummary
  actor := input.actor
  externalInputsSummary := input.externalInputsSummary
  payload := input.payload
  createdAt := createdAt
  firstApprovedAt := none
  firstApprover := none
  availableAt := none
  escalatedAt := none
  executingAt := none
  executionError := none

/-- the insert of `createPendingApproval`; `none` where the id is not a fresh one -/
def insert (p : PendingApprovals) (input : CreatePendingApprovalInput) (createdAt : Int) :
    Option PendingApprovals :=
  if input.requestId.uuid ∈ p.used then none
  else
    match h : p.table.insert (newRow input createdAt) with
    | none => none
    | some table => some ⟨table, input.requestId.uuid :: p.used, by
        intro j hj
        rw [(Table.get_insert h j).2] at hj
        split at hj
        next he => rw [he]; exact List.mem_cons_self
        next => exact List.mem_cons_of_mem _ (p.covers j hj)⟩

/-! ## what the statements leave -/

@[simp] theorem getPending_update (p : PendingApprovals) (r j : JsString)
    (f : PendingApprovalRow → PendingApprovalRow) (hf : ∀ row, (f row).requestId = row.requestId) :
    (p.update r f hf).getPending j = if j = r then (p.getPending r).map f else p.getPending j :=
  Table.get_modify p.table r j f hf

@[simp] theorem getPending_removePending (p : PendingApprovals) (r j : JsString) :
    (p.removePending r).getPending j = if j = r then none else p.getPending j :=
  Table.get_erase _ _ _

theorem requestId_of_getPending {p : PendingApprovals} {r : JsString} {row : PendingApprovalRow}
    (h : p.getPending r = some row) : row.requestId = r :=
  Table.key_of_get h

theorem mem_used {p : PendingApprovals} {r : JsString} {row : PendingApprovalRow}
    (h : p.getPending r = some row) : r ∈ p.used :=
  p.covers r (by show p.getPending r ≠ none; rw [h]; simp)

theorem insert_cases {p p' : PendingApprovals} {input : CreatePendingApprovalInput}
    {createdAt : Int} (h : p.insert input createdAt = some p') :
    input.requestId.uuid ∉ p.used ∧ p'.used = input.requestId.uuid :: p.used ∧
      ∀ j, p'.getPending j = if j = input.requestId.uuid then some (newRow input createdAt)
        else p.getPending j := by
  unfold insert at h
  split at h
  next => cases h
  next hu =>
    split at h
    next => cases h
    next table ht =>
      cases h
      exact ⟨hu, rfl, fun j => (Table.get_insert ht j).2⟩

theorem markFirst_cases (p : PendingApprovals) (r : JsString) (now : Int) (approver : JsString) :
    (∃ row, p.getPending r = some row ∧ row.firstApprovedAt = none ∧
      p.markFirst r now approver = (true, p.update r (setFirst now approver) fun _ => rfl)) ∨
    ((∀ row, p.getPending r = some row → row.firstApprovedAt ≠ none) ∧
      p.markFirst r now approver = (false, p)) := by
  unfold markFirst
  cases hg : p.getPending r with
  | none => exact Or.inr ⟨fun row h => (by cases h), rfl⟩
  | some row =>
    cases hf : row.firstApprovedAt with
    | none => exact Or.inl ⟨row, rfl, hf, by simp only [hf]⟩
    | some at_ =>
      refine Or.inr ⟨fun row' h => ?_, by simp only [hf]⟩
      cases h
      rw [hf]
      simp

theorem claimForExecution_cases (p : PendingApprovals) (r : JsString) (now : Int) :
    (∃ row, p.getPending r = some row ∧ row.executingAt = none ∧ p.claimForExecution r now
      = (some (setExecuting now row), p.update r (setExecuting now) fun _ => rfl)) ∨
    p.claimForExecution r now = (none, p) := by
  unfold claimForExecution
  cases hg : p.getPending r with
  | none => exact Or.inr rfl
  | some row =>
    cases hf : row.executingAt with
    | none => exact Or.inl ⟨row, rfl, hf, by simp only [hf]⟩
    | some at_ => exact Or.inr (by simp only [hf])

theorem claimForExecution_of_free {p : PendingApprovals} {r : JsString} {row : PendingApprovalRow}
    (now : Int) (h : p.getPending r = some row) (hfree : row.executingAt = none) :
    p.claimForExecution r now
      = (some (setExecuting now row), p.update r (setExecuting now) fun _ => rfl) := by
  simp only [claimForExecution, h, hfree]

theorem claimForExecution_of_claimed {p : PendingApprovals} {r : JsString} {row : PendingApprovalRow}
    (now : Int) (h : p.getPending r = some row) (hclaimed : row.executingAt ≠ none) :
    p.claimForExecution r now = (none, p) := by
  obtain ⟨at_, hat⟩ := Option.ne_none_iff_exists'.mp hclaimed
  simp only [claimForExecution, h, hat]

theorem removeIfNotExecuting_cases (p : PendingApprovals) (r : JsString) (now : Int) :
    (∃ row, p.getPending r = some row ∧
      (∀ at_, row.executingAt = some at_ → at_ + stuckClaimAfterMs < now) ∧
      p.removeIfNotExecuting r now = (true, p.removePending r)) ∨
    p.removeIfNotExecuting r now = (false, p) := by
  unfold removeIfNotExecuting
  cases hg : p.getPending r with
  | none => exact Or.inr rfl
  | some row =>
    cases hf : row.executingAt with
    | none => exact Or.inl ⟨row, rfl, fun at_ h => (by rw [hf] at h; cases h), by simp only [hf]⟩
    | some at_ =>
      by_cases hlt : at_ < now - stuckClaimAfterMs
      · refine Or.inl ⟨row, rfl, fun at' h => ?_, by simp only [hf, if_pos hlt]⟩
        rw [hf] at h
        cases h
        omega
      · exact Or.inr (by simp only [hf, if_neg hlt])

end PendingApprovals

/-! ## `recordApproval` -/

inductive ApprovalStep where
  /-- the approval is complete -/
  | resolved
  /-- the first approval of a `dual-confirm` is to be written -/
  | first
  | tooEarly (availableAt : Int)
  deriving DecidableEq, Repr

def approvalStep (pending : PendingApprovalRow) (now : Int) : ApprovalStep :=
  match pending.level with
  | .confirm => .resolved
  | .dualConfirm =>
    match pending.firstApprovedAt with
    | none => .first
    | some firstApprovedAt =>
      let availableAt := pending.availableAt.getD (computeAvailableAt firstApprovedAt)
      if canAcceptSecondApproval availableAt now then .resolved else .tooEarly availableAt

end Hitl
