import JinCore.Orchestrator.Ordered
import JinCore.Tools.Registry

/-!
# An objective from its run row to its end (`orchestrator.service.ts`)

`runObjective` creates the run's row first and completes it last; whatever throws in between leaves
the function, and nothing catches it.

* `decompose`, `reconcile`              the two calls of the model, with the parse of their answers;
* `applyReconciliation`                 comments and approvals, conflict by conflict;
* `ObjectiveWorld`, `runObjective`      what every call and statement comes back with, and the row;
* `RunCloses`                           nothing throws up to `completeRun`;
* `run_closed_iff`, `run_left_running`.
-/

namespace Orchestrator
open JsString Common Agent Hitl Tools

/-- a domain error, or another one with its message -/
inductive Thrown where
  | jin (error : JinError)
  | other (message : JsString)
  deriving DecidableEq, Repr

/-- `text.slice(0, n)` -/
def sliceTo (text : JsString) (n : Nat) : JsString := ⟨text.units.take n⟩

def ticketDecompositionParseError (rawContent : JsString) : JinError where
  message := lit "Respuesta de descomposición de tickets no es JSON válido con la forma esperada: "
    ++ sliceTo rawContent 200
  code := lit "AGENT_TICKET_DECOMPOSITION_PARSE_ERROR"
  httpStatus := some 502

def reconciliationParseError (rawContent : JsString) : JinError where
  message := lit "Respuesta de reconciliación no es JSON válido con la forma esperada: "
    ++ sliceTo rawContent 200
  code := lit "AGENT_RECONCILIATION_PARSE_ERROR"
  httpStatus := some 502

/-- how a call of the guarded router ends: the budget and the kill switch throw as well -/
inductive CompletionReply where
  | returned (content : JsString)
  | threw (error : Thrown)
  deriving DecidableEq, Repr

/-- `none` where the text is not JSON, or not of the form of the schema -/
def parseResponse {ρ : Type} (parse : JsString → Option ρ) (parseError : JsString → JinError)
    (rawContent : JsString) : Except Thrown ρ :=
  match parse rawContent with
  | some value => .ok value
  | none => .error (.jin (parseError rawContent))

def complete {ρ : Type} (parse : JsString → Option ρ) (parseError : JsString → JinError) :
    CompletionReply → Except Thrown ρ
  | .returned content => parseResponse parse parseError content
  | .threw error => .error error

def sanitizeAllowedTools (draft : DecomposedTicketDraft) (catalog : List ToolDefinition) :
    DecomposedTicketDraft :=
  { draft with allowedTools := draft.allowedTools.filter fun name => catalog.any (·.name = name) }

/-- what a statement or a call comes back with: an answer, or what it throws -/
inductive DecideReply where
  | returned (decision : HitlDecision)
  | threw (error : Thrown)
  deriving DecidableEq, Repr

structure ConflictPayload where
  ticketId : TicketId
  conflictSummary : JsString
  proposedResolution : JsString
  runId : JsString
  deriving DecidableEq, Repr

/-- what `createPendingApproval` is given -/
structure ConflictApproval where
  requestId : JsString
  toolName : JsString
  level : HitlLevel
  planSummary : JsString
  payload : ConflictPayload
  actor : JsString
  deriving DecidableEq, Repr

/-- what happens around a call of `runObjective` -/
structure ObjectiveWorld where
  runId : JsString
  createRun : Fate
  decomposition : CompletionReply
  parseDrafts : JsString → Option (List DecomposedTicketDraft)
  createTickets : Option Thrown
  freshIds : (n : Nat) → FreshIds n
  /-- the steps of the loop and its sub-agents, in their order -/
  actions : List Action
  getTickets : Option Thrown
  getComments : Option Thrown
  reconciliation : CompletionReply
  parseReconciliation : JsString → Option ReconciliationOutput
  /-- of the `i`-th conflict -/
  decide : Nat → DecideReply
  createPendingApproval : Nat → Option Thrown
  /-- of the `j`-th ticket of the `i`-th conflict -/
  addComment : Nat → Nat → Option Thrown
  /-- the tickets of other runs, which a comment may refer to as well -/
  otherTickets : List TicketId
  unknownTicket : TicketId → Thrown
  getTicketsAgain : Option Thrown
  /-- the order of rows with one creation time -/
  order : List Ticket → List Ticket
  perm : ∀ tickets, (order tickets).Perm tickets
  completeRun : Fate
  databaseError : Thrown

/-- an `await` that gives no value -/
def attempt (threw : Option Thrown) : Except Thrown Unit :=
  match threw with
  | some error => .error error
  | none => .ok ()

def decompose (w : ObjectiveWorld) : Except Thrown (List DecomposedTicketDraft) :=
  (complete w.parseDrafts ticketDecompositionParseError w.decomposition).map fun drafts =>
    drafts.map fun draft => sanitizeAllowedTools draft toolRegistry

def reconcile (w : ObjectiveWorld) : Except Thrown ReconciliationOutput :=
  complete w.parseReconciliation reconciliationParseError w.reconciliation

/-! ## the conflicts -/

/-- the foreign key of a comment: a ticket of this run, or of another one -/
def knowsTicket (w : ObjectiveWorld) (l : Ledger) (ticketId : TicketId) : Bool :=
  l.tickets.any (·.id = ticketId) || w.otherTickets.contains ticketId

/-- a comment to each ticket of the `i`-th conflict, from the `j`-th on -/
def addComments (w : ObjectiveWorld) (i : Nat) (kind : AgentCommentKind) (body : JsString) :
    Nat → Ledger → List TicketId → Except Thrown Ledger
  | _, l, [] => .ok l
  | j, l, ticketId :: ticketIds => do
    attempt (w.addComment i j)
    if knowsTicket w l ticketId then
      addComments w i kind body (j + 1) (l.addComment ⟨ticketId, .orchestrator, none, kind, body⟩)
        ticketIds
    else .error (w.unknownTicket ticketId)

def joinIds : List TicketId → JsString
  | [] => lit ""
  | [ticketId] => ticketId
  | ticketId :: ticketIds => ticketId ++ lit ", " ++ joinIds ticketIds

def resolveConflictToolName : JsString := lit "resolveAgentConflict"

def conflictApproval (runId : JsString) (conflict : ReconciliationConflict) (ticketId : TicketId)
    (decision : HitlDecision) : ConflictApproval where
  requestId := decision.requestId
  toolName := resolveConflictToolName
  level := decision.level
  planSummary := lit "Conflicto material en run " ++ runId ++ lit " (tickets "
    ++ joinIds conflict.ticketIds ++ lit "): " ++ conflict.summary
  payload := ⟨ticketId, conflict.summary, conflict.proposedResolution, runId⟩
  actor := lit "orchestrator"

def decideConflict (w : ObjectiveWorld) (i : Nat) : Except Thrown HitlDecision :=
  match w.decide i with
  | .returned decision => .ok decision
  | .threw error => .error error

/-- an empty id is falsy, as no id is -/
def primaryTicketId (conflict : ReconciliationConflict) : Option TicketId :=
  conflict.ticketIds.head?.filter fun ticketId => ticketId ≠ lit ""

def applyConflict (w : ObjectiveWorld) (i : Nat) (l : Ledger) (approvals : List ConflictApproval)
    (conflict : ReconciliationConflict) : Except Thrown (Ledger × List ConflictApproval) :=
  match conflict.riskLevel with
  | .low => do
    let l ← addComments w i .resolution (conflict.summary ++ lit " — resuelto en modo-auto: "
      ++ conflict.proposedResolution) 0 l conflict.ticketIds
    return (l, approvals)
  | .material =>
    match primaryTicketId conflict with
    | none => .ok (l, approvals)
    | some ticketId => do
      let decision ← decideConflict w i
      attempt (w.createPendingApproval i)
      let l ← addComments w i .conflict conflict.summary 0 l conflict.ticketIds
      return (l, approvals ++ [conflictApproval w.runId conflict ticketId decision])

/-- from the `i`-th conflict on -/
def applyReconciliation (w : ObjectiveWorld) :
    Nat → Ledger → List ConflictApproval → List ReconciliationConflict →
      Except Thrown (Ledger × List ConflictApproval)
  | _, l, approvals, [] => .ok (l, approvals)
  | i, l, approvals, conflict :: conflicts => do
    let next ← applyConflict w i l approvals conflict
    applyReconciliation w (i + 1) next.1 next.2 conflicts

/-! ## the objective -/

structure RunRow where
  id : JsString
  objective : JsString
  parentSessionId : JsString
  status : AgentRunStatus
  finalResponse : Option JsString
  deriving DecidableEq, Repr

structure OrchestrationResult where
  runId : JsString
  status : AgentRunStatus
  finalResponse : Option JsString
  pendingApprovals : List (JsString × TicketId)
  deriving DecidableEq, Repr

inductive ObjectiveEnd where
  | returned (result : OrchestrationResult)
  | threw (error : Thrown)
  /-- the steps so far do not end the loop -/
  | unfinished
  deriving DecidableEq, Repr

/-- how the loop over the batches ends: whether it was killed, and the ledger it leaves -/
def runBatches (config : AgentConfig) (w : ObjectiveWorld) (drafts : List DecomposedTicketDraft) :
    Except ObjectiveEnd (Bool × Ledger) :=
  match Runs.run (Orchestration.step config) (.initial w.runId (w.freshIds drafts.length))
    w.actions with
  | none => .error .unfinished
  | some s =>
    match s.loop with
    | .returned killed => .ok (killed, s.ledger)
    | .threw message => .error (.threw (.other message))
    | _ => .error .unfinished

/-- what a throw does to the objective -/
def escape {ρ : Type} : Except Thrown ρ → Except ObjectiveEnd ρ
  | .ok value => .ok value
  | .error error => .error (.threw error)

/-- everything between the creation of the run and its completion: the arguments of `completeRun`,
and the approvals -/
def objectiveBody (config : AgentConfig) (w : ObjectiveWorld) :
    Except ObjectiveEnd (AgentRunStatus × Option JsString × List ConflictApproval) := do
  let drafts ← escape (decompose w)
  escape (attempt w.createTickets)
  let batches ← runBatches config w drafts
  if batches.1 then return (.killed, none, [])
  escape (attempt w.getTickets)
  escape (attempt w.getComments)
  let output ← escape (reconcile w)
  let applied ← escape (applyReconciliation w 0 batches.2 [] output.conflicts)
  escape (attempt w.getTicketsAgain)
  return (computeRunStatus (w.order applied.1.tickets) (some output), some output.finalResponse,
    applied.2)

/-- the run's row in the end, and what the caller gets -/
def runObjective (config : AgentConfig) (sessionId objective : JsString) (w : ObjectiveWorld) :
    Option RunRow × ObjectiveEnd :=
  let created : RunRow := ⟨w.runId, objective, sessionId, .running, none⟩
  match w.createRun with
  | .lost => (none, .threw w.databaseError)
  | .applied => (some created, .threw w.databaseError)
  | .ok =>
    match objectiveBody config w with
    | .error stopped => (some created, stopped)
    | .ok (status, finalResponse, approvals) =>
      let completed := { created with status := status, finalResponse := finalResponse }
      match w.completeRun with
      | .lost => (some created, .threw w.databaseError)
      | .applied => (some completed, .threw w.databaseError)
      | .ok => (some completed, .returned ⟨w.runId, status, finalResponse,
          approvals.map fun approval => (approval.requestId, approval.payload.ticketId)⟩)

/-! ## when nothing throws -/

section

variable {ε α β : Type}

theorem escape_eq_ok {x : Except Thrown α} {a : α} : escape x = .ok a ↔ x = .ok a := by
  cases x with
  | error e =>
    constructor <;> intro h <;> cases h
  | ok b =>
    constructor <;> intro h <;> cases h <;> rfl

theorem attempt_eq_ok {threw : Option Thrown} {u : Unit} : attempt threw = .ok u ↔ threw = none := by
  cases threw with
  | none => exact ⟨fun _ => rfl, fun _ => rfl⟩
  | some error => constructor <;> intro h <;> cases h

end

/-- every comment of the `i`-th conflict is written: its tickets exist -/
def CommentsApply (w : ObjectiveWorld) (l : Ledger) (i : Nat) (ticketIds : List TicketId) : Prop :=
  ∀ j ticketId, ticketIds[j]? = some ticketId →
    w.addComment i j = none ∧ knowsTicket w l ticketId = true

def ConflictApplies (w : ObjectiveWorld) (l : Ledger) (i : Nat)
    (conflict : ReconciliationConflict) : Prop :=
  match conflict.riskLevel with
  | .low => CommentsApply w l i conflict.ticketIds
  | .material => primaryTicketId conflict = none ∨
      ((∃ decision, w.decide i = .returned decision) ∧ w.createPendingApproval i = none ∧
        CommentsApply w l i conflict.ticketIds)

/-- after the loop: the reads succeed, and the reconciliation parses and applies -/
structure BoardCloses (w : ObjectiveWorld) (l : Ledger) : Prop where
  getTickets : w.getTickets = none
  getComments : w.getComments = none
  reconciles : ∃ output, reconcile w = .ok output ∧
    ∀ i conflict, output.conflicts[i]? = some conflict → ConflictApplies w l i conflict
  getTicketsAgain : w.getTicketsAgain = none

/-- the loop ends without an error of its own, and so does what comes before and after it -/
def BodyCloses (config : AgentConfig) (w : ObjectiveWorld) : Prop :=
  ∃ drafts, decompose w = .ok drafts ∧ w.createTickets = none ∧
    ∃ s, Runs.run (Orchestration.step config) (.initial w.runId (w.freshIds drafts.length)) w.actions
        = some s ∧
      (s.loop = .returned true ∨ (s.loop = .returned false ∧ BoardCloses w s.ledger))

/-- no row is created, or nothing throws between its creation and the update of `completeRun` -/
def RunCloses (config : AgentConfig) (w : ObjectiveWorld) : Prop :=
  w.createRun = .lost ∨ (w.createRun = .ok ∧ BodyCloses config w ∧ w.completeRun.applies = true)

/-! ### the conflicts -/

section

variable {w : ObjectiveWorld} {l : Ledger} {i : Nat}

theorem addComments_ok {kind : AgentCommentKind} {body : JsString} {ticketIds : List TicketId}
    {j : Nat} {l' : Ledger} (h : addComments w i kind body j l ticketIds = .ok l') :
    l'.tickets = l.tickets ∧ ∀ k ticketId, ticketIds[k]? = some ticketId →
      w.addComment i (j + k) = none ∧ knowsTicket w l ticketId = true := by
  induction ticketIds generalizing j l with
  | nil =>
    cases h
    exact ⟨rfl, fun k ticketId hk => absurd hk (by simp)⟩
  | cons ticketId ticketIds ih =>
    rw [addComments, bind_eq_ok] at h
    obtain ⟨_, hattempt, h⟩ := h
    split at h
    next hknown =>
      obtain ⟨htickets, hrest⟩ := ih h
      refine ⟨htickets, fun k id hk => ?_⟩
      cases k with
      | zero =>
        cases hk
        exact ⟨attempt_eq_ok.mp hattempt, hknown⟩
      | succ k =>
        have hnext := hrest k id hk
        rw [Nat.succ_add_eq_add_succ] at hnext
        exact hnext
    · cases h

theorem exists_addComments (kind : AgentCommentKind) (body : JsString) {ticketIds : List TicketId}
    {j : Nat} (h : ∀ k ticketId, ticketIds[k]? = some ticketId →
      w.addComment i (j + k) = none ∧ knowsTicket w l ticketId = true) :
    ∃ l', addComments w i kind body j l ticketIds = .ok l' := by
  induction ticketIds generalizing j l with
  | nil => exact ⟨l, rfl⟩
  | cons ticketId ticketIds ih =>
    obtain ⟨hcomment, hknown⟩ := h 0 ticketId rfl
    obtain ⟨l', hl'⟩ := @ih (l.addComment ⟨ticketId, .orchestrator, none, kind, body⟩) (j + 1) (by
      intro k id hk
      rw [Nat.succ_add_eq_add_succ]
      exact h (k + 1) id hk)
    refine ⟨l', ?_⟩
    rw [addComments, bind_eq_ok]
    refine ⟨(), attempt_eq_ok.mpr hcomment, ?_⟩
    rw [if_pos hknown]
    exact hl'

theorem commentsApply_iff (kind : AgentCommentKind) (body : JsString) (ticketIds : List TicketId) :
    (∃ l', addComments w i kind body 0 l ticketIds = .ok l') ↔ CommentsApply w l i ticketIds := by
  constructor
  · rintro ⟨l', h⟩ j ticketId hj
    have hcomment := (addComments_ok h).2 j ticketId hj
    rwa [Nat.zero_add] at hcomment
  · intro h
    refine exists_addComments kind body fun k ticketId hk => ?_
    rw [Nat.zero_add]
    exact h k ticketId hk

theorem decideConflict_ok {decision : HitlDecision} :
    decideConflict w i = .ok decision ↔ w.decide i = .returned decision := by
  rw [decideConflict]
  cases w.decide i with
  | returned d => constructor <;> intro h <;> cases h <;> rfl
  | threw error => constructor <;> intro h <;> cases h

theorem applyConflict_ok {conflict : ReconciliationConflict} {approvals : List ConflictApproval}
    {next : Ledger × List ConflictApproval} (h : applyConflict w i l approvals conflict = .ok next) :
    next.1.tickets = l.tickets ∧ ConflictApplies w l i conflict := by
  rw [applyConflict] at h
  rw [ConflictApplies]
  cases hrisk : conflict.riskLevel with
  | low =>
    simp only [hrisk, bind_eq_ok] at h
    obtain ⟨l', hcomments, h⟩ := h
    cases h
    exact ⟨(addComments_ok hcomments).1, (commentsApply_iff _ _ _).mp ⟨l', hcomments⟩⟩
  | material =>
    simp only [hrisk] at h
    cases hprimary : primaryTicketId conflict with
    | none =>
      simp only [hprimary] at h
      cases h
      exact ⟨rfl, Or.inl rfl⟩
    | some ticketId =>
      simp only [hprimary, bind_eq_ok] at h
      obtain ⟨decision, hdecide, _, happroval, l', hcomments, h⟩ := h
      cases h
      exact ⟨(addComments_ok hcomments).1, Or.inr ⟨⟨decision, decideConflict_ok.mp hdecide⟩,
        attempt_eq_ok.mp happroval, (commentsApply_iff _ _ _).mp ⟨l', hcomments⟩⟩⟩

theorem exists_applyConflict {conflict : ReconciliationConflict} (approvals : List ConflictApproval)
    (h : ConflictApplies w l i conflict) :
    ∃ next, applyConflict w i l approvals conflict = .ok next := by
  rw [ConflictApplies] at h
  rw [applyConflict]
  cases hrisk : conflict.riskLevel with
  | low =>
    simp only [hrisk] at h
    obtain ⟨l', hcomments⟩ := (commentsApply_iff .resolution (conflict.summary
      ++ lit " — resuelto en modo-auto: " ++ conflict.proposedResolution) _).mpr h
    exact ⟨(l', approvals), bind_eq_ok.mpr ⟨l', hcomments, rfl⟩⟩
  | material =>
    simp only [hrisk] at h
    cases hprimary : primaryTicketId conflict with
    | none => exact ⟨(l, approvals), rfl⟩
    | some ticketId =>
      simp only [hprimary, reduceCtorEq, false_or] at h
      obtain ⟨⟨decision, hdecide⟩, happroval, hcomments⟩ := h
      obtain ⟨l', hcomments⟩ := (commentsApply_iff .conflict conflict.summary _).mpr hcomments
      exact ⟨(l', approvals ++ [conflictApproval w.runId conflict ticketId decision]),
        bind_eq_ok.mpr ⟨decision, decideConflict_ok.mpr hdecide, bind_eq_ok.mpr ⟨(),
          attempt_eq_ok.mpr happroval, bind_eq_ok.mpr ⟨l', hcomments, rfl⟩⟩⟩⟩

theorem conflictApplies_congr {l l' : Ledger} (htickets : l'.tickets = l.tickets)
    (conflict : ReconciliationConflict) :
    ConflictApplies w l' i conflict ↔ ConflictApplies w l i conflict := by
  have hknows : ∀ ticketId, knowsTicket w l' ticketId = knowsTicket w l ticketId := by
    intro ticketId
    rw [knowsTicket, knowsTicket, htickets]
  simp only [ConflictApplies, CommentsApply, hknows]

theorem applyReconciliation_iff {conflicts : List ReconciliationConflict}
    (approvals : List ConflictApproval) :
    (∃ next, applyReconciliation w i l approvals conflicts = .ok next) ↔
      ∀ k conflict, conflicts[k]? = some conflict → ConflictApplies w l (i + k) conflict := by
  induction conflicts generalizing i l approvals with
  | nil => exact ⟨fun _ k conflict hk => absurd hk (by simp), fun _ => ⟨_, rfl⟩⟩
  | cons conflict conflicts ih =>
    simp only [applyReconciliation, bind_eq_ok]
    constructor
    · rintro ⟨next, applied, hfirst, hrest⟩
      obtain ⟨htickets, happlies⟩ := applyConflict_ok hfirst
      have hall := (ih applied.2).mp ⟨next, hrest⟩
      intro k c hk
      cases k with
      | zero =>
        cases hk
        exact happlies
      | succ k =>
        have hnext := hall k c hk
        rwa [conflictApplies_congr htickets, Nat.succ_add_eq_add_succ] at hnext
    · intro h
      obtain ⟨applied, hfirst⟩ := exists_applyConflict approvals (h 0 conflict rfl)
      have htickets := (applyConflict_ok hfirst).1
      obtain ⟨next, hrest⟩ := (ih applied.2).mpr (by
        intro k c hk
        rw [conflictApplies_congr htickets, Nat.succ_add_eq_add_succ]
        exact h (k + 1) c hk)
      exact ⟨next, applied, hfirst, hrest⟩

end

/-! ### the body -/

section

variable {config : AgentConfig} {w : ObjectiveWorld}

theorem runBatches_eq_ok {drafts : List DecomposedTicketDraft} {killed : Bool} {l : Ledger} :
    runBatches config w drafts = .ok (killed, l) ↔
      ∃ s, Runs.run (Orchestration.step config) (.initial w.runId (w.freshIds drafts.length))
        w.actions = some s ∧ s.loop = .returned killed ∧ s.ledger = l := by
  rw [runBatches]
  cases Runs.run (Orchestration.step config) (.initial w.runId (w.freshIds drafts.length))
      w.actions with
  | none =>
    constructor
    · intro h
      cases h
    · rintro ⟨s, hs, -⟩
      cases hs
  | some s =>
    cases hloop : s.loop with
    | returned k =>
      simp only [hloop, Except.ok.injEq, Prod.mk.injEq]
      constructor
      · rintro ⟨rfl, rfl⟩
        exact ⟨s, rfl, hloop, rfl⟩
      · rintro ⟨u, hu, hk, rfl⟩
        cases hu
        rw [hloop] at hk
        cases hk
        exact ⟨rfl, rfl⟩
    | _ =>
      simp only [hloop, reduceCtorEq, false_iff]
      rintro ⟨u, hu, hk, -⟩
      cases hu
      rw [hloop] at hk
      cases hk

theorem computeRunStatus_ne_running (tickets : List Ticket)
    (reconciliation : Option ReconciliationOutput) :
    computeRunStatus tickets reconciliation ≠ .running := by
  rw [computeRunStatus]
  split
  · rintro ⟨⟩
  · split <;> rintro ⟨⟩

/-- the body is done exactly where nothing in it throws -/
theorem objectiveBody_iff :
    (∃ completion, objectiveBody config w = .ok completion) ↔ BodyCloses config w := by
  simp only [objectiveBody, bind_eq_ok, escape_eq_ok, attempt_eq_ok]
  constructor
  · rintro ⟨completion, drafts, hdrafts, _, htickets, ⟨killed, l⟩, hbatches, hrest⟩
    obtain ⟨s, hrun, hloop, rfl⟩ := runBatches_eq_ok.mp hbatches
    refine ⟨drafts, hdrafts, htickets, s, hrun, ?_⟩
    cases killed with
    | true => exact Or.inl hloop
    | false =>
      simp only [Bool.false_eq_true, if_false, bind_eq_ok, escape_eq_ok, attempt_eq_ok] at hrest
      obtain ⟨_, hget, _, hcomments, output, houtput, applied, happlied, _, hagain, -⟩ := hrest
      have happlies := (applyReconciliation_iff []).mp ⟨applied, happlied⟩
      refine Or.inr ⟨hloop, hget, hcomments, ⟨output, houtput, fun i conflict hi => ?_⟩, hagain⟩
      have hconflict := happlies i conflict hi
      rwa [Nat.zero_add] at hconflict
  · rintro ⟨drafts, hdrafts, htickets, s, hrun, hloop | ⟨hloop, hboard⟩⟩
    · have hbatches := runBatches_eq_ok.mpr ⟨s, hrun, hloop, rfl⟩
      exact ⟨(.killed, none, []), drafts, hdrafts, (), htickets, (true, s.ledger), hbatches, rfl⟩
    · have hbatches := runBatches_eq_ok.mpr ⟨s, hrun, hloop, rfl⟩
      obtain ⟨output, houtput, happlies⟩ := hboard.reconciles
      have happlied : ∃ applied, applyReconciliation w 0 s.ledger [] output.conflicts
          = .ok applied := (applyReconciliation_iff []).mpr fun k conflict hk => by
        rw [Nat.zero_add]
        exact happlies k conflict hk
      obtain ⟨applied, happlied⟩ := happlied
      refine ⟨(computeRunStatus (w.order applied.1.tickets) (some output),
        some output.finalResponse, applied.2), drafts, hdrafts, (), htickets, (false, s.ledger),
        hbatches, ?_⟩
      simp only [Bool.false_eq_true, if_false, bind_eq_ok, escape_eq_ok, attempt_eq_ok]
      exact ⟨(), hboard.getTickets, (), hboard.getComments, output, houtput, applied, happlied, (),
        hboard.getTicketsAgain, rfl⟩

/-- no completion asks for `running` -/
theorem status_of_body {completion : AgentRunStatus × Option JsString × List ConflictApproval}
    (h : objectiveBody config w = .ok completion) : completion.1 ≠ .running := by
  simp only [objectiveBody, bind_eq_ok, escape_eq_ok, attempt_eq_ok] at h
  obtain ⟨drafts, -, _, -, ⟨killed, l⟩, -, hrest⟩ := h
  cases killed with
  | true =>
    cases hrest
    rintro ⟨⟩
  | false =>
    simp only [Bool.false_eq_true, if_false, bind_eq_ok, escape_eq_ok, attempt_eq_ok] at hrest
    obtain ⟨_, -, _, -, output, -, applied, -, _, -, h⟩ := hrest
    cases h
    exact computeRunStatus_ne_running _ _

end

/-! ## the row -/

/-- the row that was created is not left `running` -/
def NotLeftRunning (row : Option RunRow) : Prop := ∀ r, row = some r → r.status ≠ .running

/-- **When a run is closed.**  Whatever the model and the ledger do, and wherever `runObjective`
stands: the row it created is no longer `running` exactly when nothing threw before `completeRun`,
and its update was applied. -/
theorem run_closed_iff (config : AgentConfig) (sessionId objective : JsString)
    (w : ObjectiveWorld) :
    NotLeftRunning (runObjective config sessionId objective w).1 ↔ RunCloses config w := by
  have hrunning : ∀ r : RunRow, r.status = .running → ¬ NotLeftRunning (some r) :=
    fun r hr h => h r rfl hr
  have hleft : w.createRun = .ok → (¬ BodyCloses config w ∨ w.completeRun.applies = false) →
      ¬ RunCloses config w := by
    rintro hok hnot (hlost | ⟨-, hbody, happlies⟩)
    · rw [hok] at hlost
      cases hlost
    · rcases hnot with hnot | hnot
      · exact hnot hbody
      · rw [hnot] at happlies
        cases happlies
  cases hcreate : w.createRun with
  | lost =>
    simp only [runObjective, hcreate]
    refine iff_of_true ?_ (Or.inl hcreate)
    rintro r ⟨⟩
  | applied =>
    simp only [runObjective, hcreate]
    refine iff_of_false (hrunning _ rfl) ?_
    rintro (h | ⟨h, -⟩) <;> rw [hcreate] at h <;> cases h
  | ok =>
    cases hbody : objectiveBody config w with
    | error stopped =>
      simp only [runObjective, hcreate, hbody]
      refine iff_of_false (hrunning _ rfl) (hleft hcreate (Or.inl fun hcloses => ?_))
      obtain ⟨completion, hok⟩ := objectiveBody_iff.mpr hcloses
      rw [hbody] at hok
      cases hok
    | ok completion =>
      have hstatus := status_of_body hbody
      have hcloses := objectiveBody_iff.mp ⟨completion, hbody⟩
      obtain ⟨status, finalResponse, approvals⟩ := completion
      cases hcomplete : w.completeRun with
      | lost =>
        simp only [runObjective, hcreate, hbody, hcomplete]
        exact iff_of_false (hrunning _ rfl) (hleft hcreate (Or.inr (by rw [hcomplete]; rfl)))
      | applied =>
        simp only [runObjective, hcreate, hbody, hcomplete]
        refine iff_of_true ?_ (Or.inr ⟨hcreate, hcloses, by rw [hcomplete]; rfl⟩)
        rintro r ⟨⟩
        exact hstatus
      | ok =>
        simp only [runObjective, hcreate, hbody, hcomplete]
        refine iff_of_true ?_ (Or.inr ⟨hcreate, hcloses, by rw [hcomplete]; rfl⟩)
        rintro r ⟨⟩
        exact hstatus

/-! ## a run whose decomposition does not parse -/

def serialIds (n : Nat) : FreshIds n where
  ids := (List.range n).map fun k => ⟨List.replicate k 0x61⟩
  nodup := by
    refine List.nodup_range.map fun j k h => ?_
    have hlength := congrArg (fun id : TicketId => id.units.length) h
    rwa [List.length_replicate, List.length_replicate] at hlength
  length_eq := by rw [List.length_map, List.length_range]

/-- prose where a JSON array was asked for -/
def prose : JsString := lit "Claro, acá van los tickets"

/-- every call and statement succeeds, but what the model says first is no JSON -/
def proseWorld : ObjectiveWorld where
  runId := lit "run"
  createRun := .ok
  decomposition := .returned prose
  parseDrafts _ := none
  createTickets := none
  freshIds := serialIds
  actions := []
  getTickets := none
  getComments := none
  reconciliation := .returned prose
  parseReconciliation _ := none
  decide _ := .threw (.other (lit ""))
  createPendingApproval _ := none
  addComment _ _ := none
  otherTickets := []
  unknownTicket _ := .other (lit "foreign key")
  getTicketsAgain := none
  order tickets := tickets
  perm := List.Perm.refl
  completeRun := .ok
  databaseError := .other (lit "database")

theorem run_left_running :
    (runObjective sampleConfig (lit "s1") (lit "Ordenar los correos") proseWorld).2
        = .threw (.jin (ticketDecompositionParseError prose)) ∧
      ¬ NotLeftRunning
        (runObjective sampleConfig (lit "s1") (lit "Ordenar los correos") proseWorld).1 :=
  ⟨rfl, fun h => h _ rfl rfl⟩

end Orchestrator
