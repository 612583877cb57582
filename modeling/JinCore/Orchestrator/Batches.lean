import JinCore.Lib.Runs
import JinCore.Lib.Table
import JinCore.Orchestrator.Logic
import Mathlib.Data.List.Perm.Lattice

/-!
# The batches of a run (`ledger.repository.ts`, `orchestrator.service.ts`)

`runBatchesUntilDone` is a loop over the ledger, its sub-agents are processes beside it: each
statement of the ledger is one step, and the sub-agents of a batch take theirs in any order.  The
rows of a run are inserted by one statement, so `getTickets` may give them back in any order.

* `createTickets`, `updateTicketStatus`, `assignSubAgent`, `addComment`, `getCompletedSiblings`
                                  the ledger, on the rows of one run;
* `SubAgent.step`                 the statements of `runSubAgentForTicket`;
* `Orchestration.step`            the loop and its sub-agents; `started` records each call of
                                  `runSubAgentForTicket`, newest first.
-/

namespace Orchestrator
open JsString ModelProvider Agent

structure Ledger where
  tickets : List Ticket
  comments : List TicketComment
  deriving DecidableEq, Repr

/-- the ids that `randomUUID` gives to new rows -/
structure FreshIds (n : Nat) where
  ids : List TicketId
  nodup : ids.Nodup
  length_eq : ids.length = n

/-- `ids[depIndex]` -/
def idAt (ids : List TicketId) (depIndex : Int) : Option TicketId :=
  if 0 ≤ depIndex then ids[depIndex.toNat]? else none

/-- the rows of the drafts, each with its id -/
def createTickets (runId : JsString) (ids : List TicketId) (drafts : List DecomposedTicketDraft) :
    List Ticket :=
  List.zipWith (fun id draft =>
    { id := id, runId := runId, description := draft.description, status := .pending,
      assignedSubAgentId := none, allowedTools := draft.allowedTools,
      dependsOn := draft.dependsOnIndexes.map (idAt ids), result := none }) ids drafts

namespace Ledger

/-- an `UPDATE … WHERE id` -/
def update (l : Ledger) (ticketId : TicketId) (f : Ticket → Ticket) : Ledger :=
  { l with tickets := l.tickets.map fun t => if t.id = ticketId then f t else t }

def updateTicketStatus (l : Ledger) (ticketId : TicketId) (status : AgentTicketStatus)
    (result : Option JsString) : Ledger :=
  l.update ticketId fun t => { t with status := status, result := result.orElse fun _ => t.result }

def assignSubAgent (l : Ledger) (ticketId subAgentId : JsString) : Ledger :=
  l.update ticketId fun t => { t with assignedSubAgentId := some subAgentId }

def addComment (l : Ledger) (comment : TicketComment) : Ledger :=
  { l with comments := l.comments ++ [comment] }

end Ledger

/-- of the rows that `getTickets` gave back -/
def getCompletedSiblings (tickets : List Ticket) (excludeTicketId : TicketId) : List Ticket :=
  tickets.filter fun t => t.id ≠ excludeTicketId && t.status = .done

/-! ## a sub-agent -/

/-- where `runSubAgentForTicket` stands: the statement it is about to send -/
inductive SubAgentPhase where
  | starting
  | assigning
  | reading
  | turning (history : List ModelMessage)
  | commenting (result : AgentTurnResult)
  | closing (result : AgentTurnResult)
  | failing (message : JsString)
  | noting (message : JsString)
  | ended
  /-- it rethrew `KillSwitchActiveError` -/
  | threw
  /-- a statement outside its `try` threw -/
  | crashed (message : JsString)
  deriving DecidableEq, Repr

structure SubAgent where
  ticket : Ticket
  phase : SubAgentPhase
  deriving DecidableEq, Repr

/-- how `runTurn` ends -/
inductive TurnReply where
  | returned (result : AgentTurnResult)
  | threw (message : JsString)
  | killSwitchActive
  deriving DecidableEq, Repr

/-- what a statement comes back with -/
inductive AgentReply where
  | done
  | rows (tickets : List Ticket)
  | turn (reply : TurnReply)
  | threw (message : JsString)
  deriving DecidableEq, Repr

def SubAgent.step (l : Ledger) (a : SubAgent) : AgentReply → Option (Ledger × SubAgentPhase)
  | .done =>
    match a.phase with
    | .starting => some (l.updateTicketStatus a.ticket.id .inProgress none, .assigning)
    | .assigning => some (l.assignSubAgent a.ticket.id a.ticket.id, .reading)
    | .commenting result =>
      some (l.addComment ⟨a.ticket.id, .subAgent, some a.ticket.id, .result, result.finalResponse⟩,
        .closing result)
    | .closing result =>
      some (l.updateTicketStatus a.ticket.id
        (if result.pendingApprovals.length > 0 then .blocked else .done) (some result.finalResponse),
        .ended)
    | .failing message => some (l.updateTicketStatus a.ticket.id .failed none, .noting message)
    | .noting message =>
      some (l.addComment ⟨a.ticket.id, .orchestrator, none, .note,
        lit "Sub-agente falló: " ++ message⟩, .ended)
    | _ => none
  | .rows tickets =>
    match a.phase with
    | .reading =>
      if tickets.Perm l.tickets then
        some (l, .turning (buildBoardContextMessages (getCompletedSiblings tickets a.ticket.id)))
      else none
    | _ => none
  | .turn reply =>
    match a.phase with
    | .turning _ =>
      match reply with
      | .returned result => some (l, .commenting result)
      | .threw message => some (l, .failing message)
      | .killSwitchActive => some (l, .threw)
    | _ => none
  | .threw message =>
    match a.phase with
    -- within the `try`
    | .commenting _ | .closing _ => some (l, .failing message)
    | .starting | .assigning | .reading | .failing _ | .noting _ => some (l, .crashed message)
    | _ => none

/-! ## the loop -/

inductive LoopPhase where
  /-- before `killSwitchService.isActive()`, with the tickets read last -/
  | checking (tickets : List Ticket)
  /-- in `Promise.all` of a batch, with the batches after it -/
  | awaiting (rest : List (List Ticket))
  /-- before `getTickets` -/
  | rereading
  | returned (killed : Bool)
  | threw (message : JsString)
  deriving DecidableEq, Repr

structure Orchestration where
  ledger : Ledger
  loop : LoopPhase
  agents : List SubAgent
  started : List TicketId
  deriving DecidableEq, Repr

inductive Action where
  | isActive (active : Bool)
  | isActiveThrew (message : JsString)
  | statement (ticketId : TicketId) (reply : AgentReply)
  | settled
  | rejected (ticketId : TicketId)
  | getTickets (rows : List Ticket)
  | getTicketsThrew (message : JsString)
  deriving DecidableEq, Repr

namespace Orchestration

/-- the next turn of the loop over the batches: `Promise.all` calls every sub-agent at once -/
def nextBatch (s : Orchestration) : List (List Ticket) → Orchestration
  | [] => { s with loop := .rereading }
  | batch :: rest =>
    { s with
      loop := .awaiting rest
      agents := batch.map fun t => ⟨t, .starting⟩
      started := batch.reverse.map Ticket.id ++ s.started }

def setPhase (agents : List SubAgent) (ticketId : TicketId) (phase : SubAgentPhase) : List SubAgent :=
  agents.map fun a => if a.ticket.id = ticketId then { a with phase := phase } else a

def step (config : AgentConfig) (s : Orchestration) : Action → Option Orchestration
  | .isActive active =>
    match s.loop with
    | .checking tickets =>
      if active then some { s with loop := .returned true }
      else if (computeReadyBatch tickets).length = 0 then some { s with loop := .returned false }
      else
        match chunk (computeReadyBatch tickets) config.maxConcurrentSubAgents with
        | .ok batches => some (s.nextBatch batches)
        | .error message => some { s with loop := .threw message }
    | _ => none
  | .statement ticketId reply =>
    match s.agents.find? fun a => a.ticket.id = ticketId with
    | some a =>
      match a.step s.ledger reply with
      | some (ledger, phase) =>
        some { s with ledger := ledger, agents := setPhase s.agents ticketId phase }
      | none => none
    | none => none
  | .settled =>
    match s.loop with
    | .awaiting rest =>
      if s.agents.all fun a => a.phase = .ended then some (s.nextBatch rest) else none
    | _ => none
  | .rejected ticketId =>
    match s.loop with
    | .awaiting _ =>
      match (s.agents.find? fun a => a.ticket.id = ticketId).map SubAgent.phase with
      | some .threw => some { s with loop := .returned true }
      | some (.crashed message) => some { s with loop := .threw message }
      | _ => none
    | _ => none
  | .getTickets rows =>
    match s.loop with
    | .rereading => if rows.Perm s.ledger.tickets then some { s with loop := .checking rows } else none
    | _ => none
  | .isActiveThrew message =>
    match s.loop with
    | .checking _ => some { s with loop := .threw message }
    | _ => none
  | .getTicketsThrew message =>
    match s.loop with
    | .rereading => some { s with loop := .threw message }
    | _ => none

/-- after `createTickets` -/
def initial (runId : JsString) {drafts : List DecomposedTicketDraft}
    (fresh : FreshIds drafts.length) : Orchestration where
  ledger := ⟨createTickets runId fresh.ids drafts, []⟩
  loop := .checking (createTickets runId fresh.ids drafts)
  agents := []
  started := []

end Orchestration

end Orchestrator
