import JinCore.Agent.Logic
import Mathlib.Data.List.Perm.Basic

/-!
# Tickets and batches (`orchestrator.types.ts`, `orchestrator.logic.ts`)

* `Ticket`, `ReconciliationOutput`   the ledger's rows and what a reconciliation says;
* `computeReadyBatch`, `chunk`, `computeRunStatus`, `buildBoardContextMessages`   the pure logic;
* `IsDone`, `mem_computeReadyBatch`  a ready ticket, over rows with distinct ids;
* `flatten_chunk`, `ne_nil_of_mem_chunk`   the chunks hold the items, and none is empty;
* `computeRunStatus_pending`         a pending ticket blocks its run.
-/

namespace Orchestrator
open JsString ModelProvider

inductive AgentTicketStatus where
  | pending | inProgress | done | failed | blocked
  deriving DecidableEq, Repr

inductive AgentRunStatus where
  | running | blocked | done | failed | killed
  deriving DecidableEq, Repr

inductive AgentCommentAuthorType where
  | orchestrator | subAgent | owner
  deriving DecidableEq, Repr

inductive AgentCommentKind where
  | note | result | conflict | resolution
  deriving DecidableEq, Repr

abbrev TicketId := JsString

structure DecomposedTicketDraft where
  description : JsString
  allowedTools : List JsString
  dependsOnIndexes : List Int
  deriving DecidableEq, Repr

/-- a dependency is `none` where its index names no draft (`undefined`, and `null` once stored) -/
structure Ticket where
  id : TicketId
  runId : JsString
  description : JsString
  status : AgentTicketStatus
  assignedSubAgentId : Option JsString
  allowedTools : List JsString
  dependsOn : List (Option TicketId)
  result : Option JsString
  deriving DecidableEq, Repr

structure TicketComment where
  ticketId : TicketId
  authorType : AgentCommentAuthorType
  authorId : Option JsString
  kind : AgentCommentKind
  body : JsString
  deriving DecidableEq, Repr

inductive RiskLevel where
  | low | material
  deriving DecidableEq, Repr

structure ReconciliationConflict where
  ticketIds : List TicketId
  summary : JsString
  riskLevel : RiskLevel
  proposedResolution : JsString
  deriving DecidableEq, Repr

structure ReconciliationOutput where
  finalResponse : JsString
  conflicts : List ReconciliationConflict
  deriving DecidableEq, Repr

/-! ## the logic -/

/-- `statusById.get(depId)`: of two rows with an id the later one counts -/
def statusById (tickets : List Ticket) (depId : Option TicketId) : Option AgentTicketStatus :=
  (tickets.reverse.find? fun t => some t.id = depId).map Ticket.status

def computeReadyBatch (tickets : List Ticket) : List Ticket :=
  tickets.filter fun t =>
    t.status = .pending && t.dependsOn.all fun depId => statusById tickets depId = some .done

/-- the slices from `i` on, for as many turns as are left -/
def chunkFrom {α : Type} (items : List α) (size : Nat) : Nat → Nat → List (List α)
  | 0, _ => []
  | turns + 1, i =>
    if i < items.length then (items.drop i).take size :: chunkFrom items size turns (i + size)
    else []

/-- `.error` is the message of what is thrown -/
def chunk {α : Type} (items : List α) (size : Nat) : Except JsString (List (List α)) :=
  if size < 1 then
    .error (lit "chunk: size debe ser >= 1, recibido " ++ Autonomy.intText size)
  else .ok (chunkFrom items size items.length 0)

def computeRunStatus (tickets : List Ticket) (reconciliation : Option ReconciliationOutput) :
    AgentRunStatus :=
  let hasUnresolvedMaterialConflict :=
    (reconciliation.map fun r => r.conflicts.any fun c => c.riskLevel = .material).getD false
  let hasUnfinished := tickets.any fun t =>
    t.status = .pending || t.status = .inProgress || t.status = .blocked
  if hasUnfinished || hasUnresolvedMaterialConflict then .blocked
  else if tickets.any fun t => t.status = .failed then .failed
  else .done

/-- the lines of the board, joined by `\n` -/
def joinLines : List JsString → JsString
  | [] => lit ""
  | [line] => line
  | line :: lines => line ++ lit "\n" ++ joinLines lines

def buildBoardContextMessages (completedSiblings : List Ticket) : List ModelMessage :=
  if completedSiblings.length = 0 then []
  else
    let summary := joinLines (completedSiblings.map fun t =>
      lit "- " ++ t.description ++ lit "\n  Resultado: " ++ t.result.getD (lit "(sin resultado)"))
    [⟨.user, .text (lit "Estado actual del tablero — esto es lo que otros sub-agentes ya resolvieron en este mismo objetivo:\n\n"
        ++ summary)⟩,
      ⟨.assistant, .text (lit "Entendido, tengo en cuenta el estado del tablero para mi propia tarea.")⟩]

/-! ## ready tickets -/

/-- the dependency is a ticket, and it is done -/
def IsDone (tickets : List Ticket) (depId : Option TicketId) : Prop :=
  ∃ t ∈ tickets, some t.id = depId ∧ t.status = .done

theorem isDone_perm {xs ys : List Ticket} (h : xs.Perm ys) {depId : Option TicketId}
    (hd : IsDone xs depId) : IsDone ys depId := by
  obtain ⟨t, ht, hid, hstatus⟩ := hd
  exact ⟨t, h.mem_iff.mp ht, hid, hstatus⟩

/-- a table of distinct ids has one row for an id -/
theorem eq_of_id {tickets : List Ticket} (hnodup : (tickets.map Ticket.id).Nodup) {t u : Ticket}
    (ht : t ∈ tickets) (hu : u ∈ tickets) (hid : t.id = u.id) : t = u :=
  List.inj_on_of_nodup_map hnodup ht hu hid

theorem statusById_done {tickets : List Ticket} (hnodup : (tickets.map Ticket.id).Nodup)
    (depId : Option TicketId) :
    statusById tickets depId = some .done ↔ IsDone tickets depId := by
  rw [statusById, Option.map_eq_some_iff]
  constructor
  · rintro ⟨t, ht, hstatus⟩
    have hid := List.find?_some ht
    exact ⟨t, List.mem_reverse.mp (List.mem_of_find?_eq_some ht), of_decide_eq_true hid, hstatus⟩
  · rintro ⟨t, ht, hid, hstatus⟩
    have hfind : (tickets.reverse.find? fun t => decide (some t.id = depId)).isSome := by
      rw [List.find?_isSome]
      exact ⟨t, List.mem_reverse.mpr ht, decide_eq_true hid⟩
    obtain ⟨u, hu⟩ := Option.isSome_iff_exists.mp hfind
    have hfound := List.find?_some hu
    have huid : some u.id = depId := of_decide_eq_true hfound
    have hut : u = t := eq_of_id hnodup (List.mem_reverse.mp (List.mem_of_find?_eq_some hu)) ht
      (Option.some.inj (huid.trans hid.symm))
    exact ⟨u, hu, hut ▸ hstatus⟩

theorem mem_computeReadyBatch {tickets : List Ticket} (hnodup : (tickets.map Ticket.id).Nodup)
    {t : Ticket} : t ∈ computeReadyBatch tickets ↔
      t ∈ tickets ∧ t.status = .pending ∧ ∀ depId ∈ t.dependsOn, IsDone tickets depId := by
  rw [computeReadyBatch, List.mem_filter, Bool.and_eq_true, decide_eq_true_eq, List.all_eq_true]
  refine and_congr_right fun _ => and_congr_right fun _ => ?_
  refine forall_congr' fun depId => imp_congr_right fun _ => ?_
  rw [decide_eq_true_eq, statusById_done hnodup]

/-! ## chunks -/

theorem flatten_chunkFrom {α : Type} (items : List α) {size : Nat} (hsize : 1 ≤ size) (turns i : Nat)
    (h : items.length ≤ i + turns) : (chunkFrom items size turns i).flatten = items.drop i := by
  induction turns generalizing i with
  | zero => exact (List.drop_eq_nil_of_le (by omega)).symm
  | succ turns ih =>
    rw [chunkFrom]
    split
    · rw [List.flatten_cons, ih (i + size) (by omega), ← List.drop_drop, List.take_append_drop]
    · exact (List.drop_eq_nil_of_le (by omega)).symm

theorem ne_nil_of_mem_chunkFrom {α : Type} {items : List α} {size : Nat} (hsize : 1 ≤ size)
    {turns i : Nat} {batch : List α} (h : batch ∈ chunkFrom items size turns i) : batch ≠ [] := by
  induction turns generalizing i with
  | zero => cases h
  | succ turns ih =>
    rw [chunkFrom] at h
    split at h
    next hi =>
      rcases List.mem_cons.mp h with rfl | h
      · intro hnil
        have hlength := congrArg List.length hnil
        rw [List.length_take, List.length_drop, List.length_nil] at hlength
        omega
      · exact ih h
    · cases h

theorem chunk_ok {α : Type} (items : List α) {size : Nat} (hsize : 1 ≤ size) :
    chunk items size = .ok (chunkFrom items size items.length 0) :=
  if_neg (Nat.not_lt_of_le hsize)

theorem flatten_chunk {α : Type} {items : List α} {size : Nat} (hsize : 1 ≤ size)
    {batches : List (List α)} (h : chunk items size = .ok batches) : batches.flatten = items := by
  rw [chunk_ok items hsize] at h
  cases h
  exact flatten_chunkFrom items hsize items.length 0 (Nat.le_add_left _ _)

theorem ne_nil_of_mem_chunk {α : Type} {items : List α} {size : Nat} (hsize : 1 ≤ size)
    {batches : List (List α)} (h : chunk items size = .ok batches) :
    ∀ batch ∈ batches, batch ≠ [] := by
  rw [chunk_ok items hsize] at h
  cases h
  exact fun batch => ne_nil_of_mem_chunkFrom hsize

/-! ## the status of a run -/

theorem computeRunStatus_pending {tickets : List Ticket} {t : Ticket} (ht : t ∈ tickets)
    (hstatus : t.status = .pending) (reconciliation : Option ReconciliationOutput) :
    computeRunStatus tickets reconciliation = .blocked := by
  have hunfinished : (tickets.any fun t =>
      t.status = .pending || t.status = .inProgress || t.status = .blocked) = true :=
    List.any_eq_true.mpr ⟨t, ht, by rw [hstatus]; rfl⟩
  rw [computeRunStatus, hunfinished]
  rfl

end Orchestrator
