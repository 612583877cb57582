import JinCore.Orchestrator.Board
import JinCore.Orchestrator.Objective
import JinCore.Push.Payloads

/-!
# What a Live Activity shows of a run (`push.service.ts`, `ledger.repository.ts`)

`onRunChanged` reads the tickets of a run with one statement and the comments of each ticket with
one more; the loop over the batches and its sub-agents go on meanwhile.

* `orchestrationSnapshot`    the rows that were read, each with the comments that were read of it;
* `AtWork`                   where a sub-agent holds its ticket, `WorksOn` what its row says then;
* `Tracked`                  the rows in progress are those of the batch, and its size is bounded;
* `tracked_step`, `tracked_run`;
* `Shown`, `live_activity_shows_run`   what is shown while the run goes on.
-/

namespace Push
open JsString Orchestrator Agent Runs

/-! ## the snapshot -/

/-- `getComments(ticketId)` -/
def getComments (l : Ledger) (ticketId : TicketId) : List TicketComment :=
  l.comments.filter fun c => c.ticketId = ticketId

def snapshotTicket (comments : List TicketComment) (ticket : Ticket) : SnapshotTicket where
  description := ticket.description
  status := ticket.status
  assignedSubAgentId := ticket.assignedSubAgentId
  commentKinds := comments.map TicketComment.kind
  lastConflictBody := (comments.filter fun c => c.kind = .conflict).getLast?.map TicketComment.body

/-- `read` is the ledger that the comments of a ticket are read from -/
def orchestrationSnapshot (run : SnapshotRun) (tickets : List Ticket) (read : TicketId → Ledger) :
    OrchestrationSnapshot where
  run := run
  tickets := tickets.map fun t => snapshotTicket (getComments (read t.id) t.id) t

/-! ## the sub-agents and their rows -/

/-- where the ticket of a sub-agent is in progress -/
def AtWork : SubAgentPhase → Prop
  | .assigning | .reading | .turning _ | .commenting _ | .closing _ | .failing _ | .threw => True
  | _ => False

/-- what the row says where a sub-agent stands; a statement that threw tells nothing of it -/
def WorksOn (p : SubAgentPhase) (status : AgentTicketStatus) : Prop :=
  (AtWork p → status = .inProgress) ∧ (status = .inProgress → AtWork p ∨ ∃ message, p = .crashed message)

theorem WorksOn.go {p q : SubAgentPhase} {status : AgentTicketStatus} (h : WorksOn p status) (hp : AtWork p)
    (hq : AtWork q) : WorksOn q status := ⟨fun _ => h.1 hp, fun _ => Or.inl hq⟩

/-- a comment of the loop is not about a conflict -/
def CalmComment (c : TicketComment) : Prop := c.kind ≠ .conflict

/-- what one statement of a sub-agent does to the row of its ticket -/
structure Worked (a : SubAgent) (l l' : Ledger) (p : SubAgentPhase) : Prop where
  rows : ∀ t' ∈ l'.tickets, ∃ t ∈ l.tickets, t'.id = t.id ∧ t'.description = t.description ∧
    (t.id ≠ a.ticket.id → t' = t) ∧
    (t.id = a.ticket.id → WorksOn a.phase t.status → WorksOn p t'.status) ∧
    (t'.assignedSubAgentId = t.assignedSubAgentId ∨ t'.assignedSubAgentId = some t'.id)
  comments : ∀ c ∈ l'.comments, c ∈ l.comments ∨ CalmComment c

section
variable {a : SubAgent} {l l' : Ledger} {p : SubAgentPhase} {reply : AgentReply}

theorem worked_keep (htickets : l'.tickets = l.tickets)
    (hcomments : ∀ c ∈ l'.comments, c ∈ l.comments ∨ CalmComment c)
    (hworks : ∀ status, WorksOn a.phase status → WorksOn p status) : Worked a l l' p := by
  refine ⟨fun t ht => ?_, hcomments⟩
  rw [htickets] at ht
  exact ⟨t, ht, rfl, rfl, fun _ => rfl, fun _ => hworks t.status, Or.inl rfl⟩

theorem worked_update {f : Ticket → Ticket} (hid : ∀ t, (f t).id = t.id)
    (hdescription : ∀ t, (f t).description = t.description)
    (hworks : ∀ t, WorksOn a.phase t.status → WorksOn p (f t).status)
    (hassigned : ∀ t, t.id = a.ticket.id → (f t).assignedSubAgentId = t.assignedSubAgentId ∨
      (f t).assignedSubAgentId = some t.id) :
    Worked a l (l.update a.ticket.id f) p := by
  refine ⟨fun t' ht' => ?_, fun c hc => Or.inl hc⟩
  obtain ⟨t, ht, rfl⟩ := List.mem_map.mp ht'
  by_cases hown : t.id = a.ticket.id
  · rw [if_pos hown, hid t, hdescription t]
    exact ⟨t, ht, rfl, rfl, fun hne => absurd hown hne, fun _ => hworks t, hassigned t hown⟩
  · rw [if_neg hown]
    exact ⟨t, ht, rfl, rfl, fun _ => rfl, fun h => absurd h hown, Or.inl rfl⟩

/-- whether a statement succeeds or throws -/
theorem worked_step (h : a.step l reply = some (l', p)) : Worked a l l' p := by
  obtain ⟨ticket, phase⟩ := a
  have hsame : ∀ c ∈ l.comments, c ∈ l.comments ∨ CalmComment c := fun c hc => Or.inl hc
  have hadd {comment : TicketComment} (hcalm : CalmComment comment) :
      ∀ c ∈ (l.addComment comment).comments, c ∈ l.comments ∨ CalmComment c := by
    intro c hc
    rcases List.mem_append.mp hc with hc | hc
    · exact Or.inl hc
    · rw [List.mem_singleton.mp hc]
      exact Or.inr hcalm
  cases reply with
  | done =>
    cases phase with
    | starting =>
      cases h
      apply worked_update
      · exact fun _ => rfl
      · exact fun _ => rfl
      · exact fun t _ => ⟨fun _ => rfl, fun _ => Or.inl trivial⟩
      · exact fun t _ => Or.inl rfl
    | assigning =>
      cases h
      apply worked_update
      · exact fun _ => rfl
      · exact fun _ => rfl
      · exact fun t hworks => hworks.go trivial trivial
      · exact fun t hown => Or.inr (congrArg some hown.symm)
    | closing result =>
      cases h
      apply worked_update
      · exact fun _ => rfl
      · exact fun _ => rfl
      · refine fun t _ => ⟨fun hwork => hwork.elim, fun hstatus => ?_⟩
        dsimp only at hstatus
        split at hstatus <;> cases hstatus
      · exact fun t _ => Or.inl rfl
    | failing message =>
      cases h
      apply worked_update
      · exact fun _ => rfl
      · exact fun _ => rfl
      · exact fun t _ => ⟨fun hwork => hwork.elim, AgentTicketStatus.noConfusion⟩
      · exact fun t _ => Or.inl rfl
    | commenting result =>
      cases h
      exact worked_keep rfl (hadd AgentCommentKind.noConfusion) fun _ hworks => hworks.go trivial trivial
    | noting message =>
      cases h
      refine worked_keep rfl (hadd AgentCommentKind.noConfusion) fun status hworks => ?_
      refine ⟨fun hwork => hwork.elim, fun hstatus => (hworks.2 hstatus).elim False.elim ?_⟩
      rintro ⟨_, hcrashed⟩
      cases hcrashed
    | _ => cases h
  | rows tickets =>
    cases phase with
    | reading =>
      obtain ⟨-, h⟩ := Option.ite_none_right_eq_some.mp h
      cases h
      exact worked_keep rfl hsame fun _ hworks => hworks.go trivial trivial
    | _ => cases h
  | turn reply =>
    cases phase with
    | turning history =>
      cases reply <;> cases h <;> exact worked_keep rfl hsame fun _ hworks => hworks.go trivial trivial
    | _ => cases h
  | threw message =>
    cases phase with
    | commenting result | closing result =>
      cases h
      exact worked_keep rfl hsame fun _ hworks => hworks.go trivial trivial
    | starting | assigning | reading | failing m | noting m =>
      cases h
      exact worked_keep rfl hsame fun _ _ => ⟨fun hwork => hwork.elim, fun _ => Or.inr ⟨_, rfl⟩⟩
    | _ => cases h

end

/-! ## over a run -/

/-- in a batch, the batches to come are within the limit; else no sub-agent has statements to come -/
def Within (config : AgentConfig) (s : Orchestration) : LoopPhase → Prop
  | .awaiting rest => ∀ batch ∈ rest, batch.length ≤ config.maxConcurrentSubAgents
  | .checking _ | .rereading => AllEnded s
  | _ => True

structure Tracked (config : AgentConfig) (s : Orchestration) : Prop where
  oneEach : OneEach s
  few : s.agents.length ≤ config.maxConcurrentSubAgents
  within : Within config s s.loop
  works : ∀ a ∈ s.agents, ∀ t ∈ s.ledger.tickets, t.id = a.ticket.id → WorksOn a.phase t.status
  owned : ∀ t ∈ s.ledger.tickets, t.status = .inProgress → ∃ a ∈ s.agents, a.ticket.id = t.id
  assigned : ∀ t ∈ s.ledger.tickets, t.assignedSubAgentId = none ∨ t.assignedSubAgentId = some t.id
  comments : ∀ c ∈ s.ledger.comments, CalmComment c

theorem length_le_of_mem_chunk {α : Type} {items : List α} {size : Nat} (hsize : 1 ≤ size)
    {batches : List (List α)} (h : chunk items size = .ok batches) {batch : List α} (hbatch : batch ∈ batches) :
    batch.length ≤ size := by
  have hfrom (turns i : Nat) (hmem : batch ∈ chunkFrom items size turns i) : batch.length ≤ size := by
    induction turns generalizing i with
    | zero => cases hmem
    | succ turns ih =>
      unfold chunkFrom at hmem
      split at hmem
      · rcases List.mem_cons.mp hmem with rfl | hmem
        · rw [List.length_take]
          omega
        · exact ih (i + size) hmem
      · cases hmem
  rw [chunk_ok items hsize] at h
  cases h
  exact hfrom items.length 0 hbatch

section
variable {config : AgentConfig} {s t : Orchestration}

/-- the row of a ticket in progress is that of a sub-agent that has not ended -/
theorem Tracked.owner (h : Tracked config s) {row : Ticket} (hrow : row ∈ s.ledger.tickets)
    (hstatus : row.status = .inProgress) :
    ∃ a ∈ s.agents, a.ticket.id = row.id ∧ (AtWork a.phase ∨ ∃ message, a.phase = .crashed message) := by
  obtain ⟨a, ha, hid⟩ := h.owned row hrow hstatus
  exact ⟨a, ha, hid, (h.works a ha row hrow hid.symm).2 hstatus⟩

theorem tracked_nextBatch (h : Tracked config s) (hended : AllEnded s) {batches : List (List Ticket)}
    (hids : (batches.flatten.map Ticket.id).Nodup)
    (hfew : ∀ batch ∈ batches, batch.length ≤ config.maxConcurrentSubAgents) :
    Tracked config (s.nextBatch batches) := by
  have hidle : ∀ row ∈ s.ledger.tickets, row.status ≠ .inProgress := by
    intro row hrow hstatus
    obtain ⟨a, ha, -, hphase⟩ := h.owner hrow hstatus
    rw [hended a ha] at hphase
    rcases hphase with hwork | ⟨message, hcrashed⟩
    · exact hwork
    · cases hcrashed
  have honeEach := h.oneEach.nextBatch hids
  cases batches with
  | nil => exact ⟨honeEach, h.few, hended, h.works, h.owned, h.assigned, h.comments⟩
  | cons batch rest =>
    refine ⟨honeEach, ?_, ?_, ?_, ?_, h.assigned, h.comments⟩
    · show (batch.map fun t => (⟨t, .starting⟩ : SubAgent)).length ≤ _
      rw [List.length_map]
      exact hfew batch List.mem_cons_self
    · exact fun b hb => hfew b (List.mem_cons_of_mem _ hb)
    · intro a ha row hrow _
      obtain ⟨ticket, -, rfl⟩ := List.mem_map.mp ha
      exact ⟨fun hwork => hwork.elim, fun hstatus => absurd hstatus (hidle row hrow)⟩
    · exact fun row hrow hstatus => absurd hstatus (hidle row hrow)

theorem Tracked.setLoop (h : Tracked config s) (loop : LoopPhase) (honeEach : loop.OneEach)
    (hwithin : Within config { s with loop := loop } loop) : Tracked config { s with loop := loop } :=
  ⟨⟨h.oneEach.rows, h.oneEach.agents, honeEach⟩, h.few, hwithin, h.works, h.owned, h.assigned, h.comments⟩

theorem tracked_statement {a : SubAgent} {l' : Ledger} {p : SubAgentPhase} {reply : AgentReply}
    (h : Tracked config s) (ha : a ∈ s.agents) (hagent : a.step s.ledger reply = some (l', p))
    (honeEach : OneEach { s with ledger := l', agents := Orchestration.setPhase s.agents a.ticket.id p }) :
    Tracked config { s with ledger := l', agents := Orchestration.setPhase s.agents a.ticket.id p } := by
  have hworked := worked_step hagent
  have hbusy : ¬ AllEnded s := by
    intro hended
    have hnone := step_atRest (Or.inl (hended a ha)) (l := s.ledger) reply
    rw [hagent] at hnone
    cases hnone
  refine ⟨honeEach, ?_, ?_, ?_, ?_, ?_, ?_⟩
  · show (Orchestration.setPhase s.agents a.ticket.id p).length ≤ _
    unfold Orchestration.setPhase
    rw [List.length_map]
    exact h.few
  · have hwithin := h.within
    show Within config _ s.loop
    cases hloop : s.loop with
    | awaiting rest =>
      rw [hloop] at hwithin
      exact hwithin
    | checking rows =>
      rw [hloop] at hwithin
      exact absurd hwithin hbusy
    | rereading =>
      rw [hloop] at hwithin
      exact absurd hwithin hbusy
    | _ => trivial
  · intro b hb row' hrow' hid
    obtain ⟨a', ha', hticket, hown, hother⟩ := mem_setPhase hb
    obtain ⟨row, hrow, hrowId, -, hkept, hworks, -⟩ := hworked.rows row' hrow'
    rw [hticket, hrowId] at hid
    by_cases hmine : a'.ticket.id = a.ticket.id
    · rw [hown hmine]
      exact hworks (hid.trans hmine) (h.works a ha row hrow (hid.trans hmine))
    · rw [hother hmine, hkept fun heq => hmine (hid.symm.trans heq)]
      exact h.works a' ha' row hrow hid
  · intro row' hrow' hstatus
    obtain ⟨row, hrow, hrowId, -, hkept, -, -⟩ := hworked.rows row' hrow'
    have hmem : row.id ∈ s.agents.map fun a => a.ticket.id := by
      by_cases hmine : row.id = a.ticket.id
      · rw [hmine]
        exact List.mem_map_of_mem ha
      · rw [hkept hmine] at hstatus
        obtain ⟨b, hb, hid⟩ := h.owned row hrow hstatus
        rw [← hid]
        exact List.mem_map_of_mem hb
    have hsame : (Orchestration.setPhase s.agents a.ticket.id p).map (fun a => a.ticket.id) =
        s.agents.map fun a => a.ticket.id := map_id_setPhase
    rw [← hsame, ← hrowId] at hmem
    exact List.mem_map.mp hmem
  · intro row' hrow'
    obtain ⟨row, hrow, hrowId, -, -, -, hassigned⟩ := hworked.rows row' hrow'
    rcases hassigned with hsame | hown
    · rw [hsame, hrowId]
      exact h.assigned row hrow
    · exact Or.inr hown
  · intro c hc
    exact (hworked.comments c hc).elim (h.comments c) id

theorem tracked_step {action : Action} (h : Tracked config s) (hstep : s.step config action = some t) :
    Tracked config t := by
  cases action with
  | isActive active =>
    cases active with
    | true =>
      simp only [Orchestration.step] at hstep
      split at hstep <;> cases hstep
      exact h.setLoop _ trivial trivial
    | false =>
      obtain ⟨tickets, hloop, hnext | ⟨-, batches, hchunk, rfl⟩⟩ := step_isActive config hstep
      · rw [hnext.2]
        exact h.setLoop _ trivial trivial
      · have hids := h.oneEach.loop
        have hended := h.within
        rw [hloop] at hids hended
        apply tracked_nextBatch h hended
        · rw [flatten_chunk config.subAgents_pos hchunk]
          exact hids.sublist (List.Sublist.map _ List.filter_sublist)
        · exact fun batch => length_le_of_mem_chunk config.subAgents_pos hchunk
  | statement ticketId reply =>
    have honeEach := oneEach_step h.oneEach hstep
    obtain ⟨a, ha, l', p, hagent, rfl⟩ := step_statement config hstep
    exact tracked_statement h ha hagent honeEach
  | settled =>
    obtain ⟨rest, hloop, hended, rfl⟩ := step_settled config hstep
    have hids := h.oneEach.loop
    have hfew := h.within
    rw [hloop] at hids hfew
    exact tracked_nextBatch h hended hids hfew
  | rejected ticketId =>
    simp only [Orchestration.step] at hstep
    split at hstep
    · split at hstep <;> cases hstep <;> exact h.setLoop _ trivial trivial
    · cases hstep
  | getTickets rows =>
    obtain ⟨hloop, hperm, rfl⟩ := step_getTickets config hstep
    have hended := h.within
    rw [hloop] at hended
    exact h.setLoop _ ((hperm.map Ticket.id).nodup_iff.mpr h.oneEach.rows) hended
  | isActiveThrew message =>
    simp only [Orchestration.step] at hstep
    split at hstep <;> cases hstep
    exact h.setLoop _ trivial trivial
  | getTicketsThrew message =>
    simp only [Orchestration.step] at hstep
    split at hstep <;> cases hstep
    exact h.setLoop _ trivial trivial

theorem tracked_run {actions : List Action} (h : Tracked config s)
    (hrun : run (Orchestration.step config) s actions = some t) : Tracked config t :=
  run_inv (fun _ _ _ hs hstep => tracked_step hs hstep) actions s t h hrun

theorem assigned_createTickets {runId : JsString} {ids : List TicketId} {drafts : List DecomposedTicketDraft}
    {row : Ticket} (h : row ∈ createTickets runId ids drafts) : row.assignedSubAgentId = none := by
  unfold createTickets at h
  generalize idAt ids = deps at h
  induction ids generalizing drafts with
  | nil => cases h
  | cons id ids ih =>
    cases drafts with
    | nil => cases h
    | cons draft drafts =>
      rcases List.mem_cons.mp h with rfl | h
      · rfl
      · exact ih h

theorem tracked_initial (config : AgentConfig) (runId : JsString) {drafts : List DecomposedTicketDraft}
    (fresh : FreshIds drafts.length) : Tracked config (.initial runId fresh) := by
  have hnone : AllEnded (.initial runId fresh) := fun _ ha => absurd ha List.not_mem_nil
  refine ⟨oneEach_initial runId fresh, Nat.zero_le _, hnone, fun _ ha => absurd ha List.not_mem_nil, ?_, ?_,
    fun _ hc => absurd hc List.not_mem_nil⟩
  · intro row hrow hstatus
    rw [status_createTickets hrow] at hstatus
    cases hstatus
  · exact fun row hrow => Or.inl (assigned_createTickets hrow)

end

/-! ## what is shown -/

/-- the mark of a ticket that is in no conflict -/
def statusMark : AgentTicketStatus → ActivityMark
  | .done => .done
  | .inProgress => .running
  | .failed => .failed
  | _ => .pending

/-- what the Live Activity shows of the tickets `rows` while the run goes on -/
structure Shown (config : AgentConfig) (s : Orchestration) (rows : List Ticket) (state : ActivityContentState) :
    Prop where
  phase : state.phase = .running
  ready : state.ready = false
  endsAt : state.endsAt = none
  /-- a mark for each ticket, none of them a conflict -/
  segments : state.segments = rows.map fun t => statusMark t.status
  running_le : state.segments.count .running ≤ config.maxConcurrentSubAgents
  /-- a ticket is shown in progress while its sub-agent works on it -/
  atWork : ∀ a ∈ s.agents, AtWork a.phase → ∀ t ∈ rows, t.id = a.ticket.id → statusMark t.status = .running
  worker : ∀ t ∈ rows, statusMark t.status = .running →
    ∃ a ∈ s.agents, a.ticket.id = t.id ∧ (AtWork a.phase ∨ ∃ message, a.phase = .crashed message)
  /-- a point for each ticket that has been assigned, once and with its own text -/
  nodup : (state.agents.map ActivityAgent.id).Nodup
  points : ∀ point, point ∈ state.agents ↔ ∃ t ∈ rows, truthy t.assignedSubAgentId = some t.id ∧
    point = ⟨t.id, t.description, t.status = .inProgress⟩

section
variable {config : AgentConfig} {s : Orchestration} {rows : List Ticket} {read : TicketId → Orchestration}

theorem ready_contentState (snapshot : OrchestrationSnapshot) : (orchestrationContentState snapshot).ready = true ↔
    (orchestrationContentState snapshot).phase = .done ∨ (orchestrationContentState snapshot).phase = .failed :=
  decide_eq_true_iff

theorem endsAt_contentState {snapshot : OrchestrationSnapshot}
    (h : (orchestrationContentState snapshot).ready = false) : (orchestrationContentState snapshot).endsAt = none :=
  if_neg (of_decide_eq_false h)

theorem markOf_snapshotTicket {read : TicketId → Ledger} (hcalm : ∀ id, ∀ c ∈ (read id).comments, CalmComment c)
    (t : Ticket) : markOf (snapshotTicket (getComments (read t.id) t.id) t) = statusMark t.status := by
  have hnone : hasOpenConflict ((getComments (read t.id) t.id).map TicketComment.kind) = false := by
    unfold hasOpenConflict
    rw [Bool.and_eq_false_iff]
    left
    rw [List.contains_eq_mem, decide_eq_false_iff_not]
    intro hmem
    obtain ⟨c, hc, hkind⟩ := List.mem_map.mp hmem
    exact hcalm t.id c (List.mem_filter.mp hc).1 hkind
  unfold markOf
  show (if hasOpenConflict ((getComments (read t.id) t.id).map TicketComment.kind) = true then _ else _) = _
  rw [hnone, if_neg Bool.false_ne_true]
  cases hstatus : t.status <;> simp only [snapshotTicket, hstatus, statusMark]

theorem statusMark_running {status : AgentTicketStatus} : statusMark status = .running ↔ status = .inProgress := by
  cases status <;> simp [statusMark]

/-- no more tickets are in progress than a batch has sub-agents -/
theorem count_running_le (h : Tracked config s) (hrows : rows.Perm s.ledger.tickets) :
    (rows.map fun t => statusMark t.status).count .running ≤ config.maxConcurrentSubAgents := by
  have hcount : (rows.map fun t => statusMark t.status).count .running =
      ((rows.filter fun t => t.status = .inProgress).map Ticket.id).length := by
    rw [List.length_map, ← List.countP_eq_length_filter, List.count_eq_countP, List.countP_map]
    apply List.countP_congr
    intro t _
    show (statusMark t.status == .running) = true ↔ decide (t.status = .inProgress) = true
    rw [beq_iff_eq, decide_eq_true_eq, statusMark_running]
  have hnodup : ((rows.filter fun t => t.status = .inProgress).map Ticket.id).Nodup :=
    ((hrows.map Ticket.id).nodup_iff.mpr h.oneEach.rows).sublist (List.filter_sublist.map _)
  have hsubset : ((rows.filter fun t => t.status = .inProgress).map Ticket.id) ⊆
      s.agents.map fun a => a.ticket.id := by
    intro id hid
    obtain ⟨t, ht, rfl⟩ := List.mem_map.mp hid
    rw [List.mem_filter, decide_eq_true_eq] at ht
    obtain ⟨a, ha, haid⟩ := h.owned t (hrows.mem_iff.mp ht.1) ht.2
    rw [← haid]
    exact List.mem_map_of_mem ha
  have hle := (List.subperm_of_subset hnodup hsubset).length_le
  have hagents : (s.agents.map fun a => a.ticket.id).length = s.agents.length := List.length_map _
  rw [hcount]
  exact (hle.trans hagents.le).trans h.few

/-- the point of a sub-agent is that of the one ticket that it has -/
theorem agentPoint_own (h : Tracked config s) (hrows : rows.Perm s.ledger.tickets) {t : Ticket} (ht : t ∈ rows)
    (hassigned : t.assignedSubAgentId = some t.id) (comments : Ticket → List TicketComment) :
    agentPoint (rows.map fun t => snapshotTicket (comments t) t) t.id =
      ⟨t.id, t.description, t.status = .inProgress⟩ := by
  have hids : (rows.map Ticket.id).Nodup := (hrows.map Ticket.id).nodup_iff.mpr h.oneEach.rows
  -- the rows that are assigned to it
  have hown : ∀ u ∈ rows, u.assignedSubAgentId = some t.id → u = t := by
    intro u hu hassignedTo
    rcases h.assigned u (hrows.mem_iff.mp hu) with hnone | hself
    · rw [hnone] at hassignedTo
      cases hassignedTo
    · rw [hself, Option.some.injEq] at hassignedTo
      exact eq_of_id hids hu ht hassignedTo
  have hpoint : ∃ u ∈ rows.map fun t => snapshotTicket (comments t) t, u.assignedSubAgentId = some t.id :=
    ⟨_, List.mem_map_of_mem ht, hassigned⟩
  obtain ⟨u, hu, huAssigned, hticket, -⟩ := ticket_agentPoint hpoint
  obtain ⟨row, hrow, rfl⟩ := List.mem_map.mp hu
  rw [hown row hrow huAssigned] at hticket
  have hworking : (agentPoint (rows.map fun t => snapshotTicket (comments t) t) t.id).working =
      decide (t.status = .inProgress) := by
    rw [Bool.eq_iff_iff, working_agentPoint, decide_eq_true_eq]
    constructor
    · rintro ⟨v, hv, hvAssigned, hvStatus⟩
      obtain ⟨row', hrow', rfl⟩ := List.mem_map.mp hv
      rw [← hown row' hrow' hvAssigned]
      exact hvStatus
    · intro hstatus
      exact ⟨_, List.mem_map_of_mem ht, hassigned, hstatus⟩
  show ActivityAgent.mk t.id _ _ = _
  rw [ActivityAgent.mk.injEq]
  exact ⟨rfl, hticket, hworking⟩

theorem shown_of_tracked (h : Tracked config s) (hrows : rows.Perm s.ledger.tickets)
    (hread : ∀ id, Tracked config (read id)) {row : SnapshotRun} (hstatus : row.status = .running) :
    Shown config s rows (orchestrationContentState
      (orchestrationSnapshot row rows fun id => (read id).ledger)) := by
  have hsegments : (orchestrationContentState (orchestrationSnapshot row rows fun id => (read id).ledger)).segments =
      rows.map fun t => statusMark t.status := by
    show (rows.map _).map markOf = _
    rw [List.map_map]
    exact List.map_congr_left fun t _ => markOf_snapshotTicket (fun id => (hread id).comments) t
  have hphase : (orchestrationContentState (orchestrationSnapshot row rows fun id => (read id).ledger)).phase =
      .running := by
    have hnone : ¬ (rows.map fun t => statusMark t.status).contains .conflict = true := by
      rw [List.contains_eq_mem, decide_eq_true_eq]
      intro hmem
      obtain ⟨t, -, hmark⟩ := List.mem_map.mp hmem
      cases hticket : t.status <;> rw [hticket] at hmark <;> cases hmark
    show phaseOf row.status _ = _
    rw [hstatus]
    show (if List.contains _ _ = true then _ else _) = _
    rw [show ((orchestrationSnapshot row rows fun id => (read id).ledger).tickets.map markOf) = _ from hsegments,
      if_neg hnone]
  have hgoing : (orchestrationContentState (orchestrationSnapshot row rows fun id => (read id).ledger)).ready = false := by
    rw [Bool.eq_false_iff, Ne, ready_contentState, hphase]
    exact not_or_intro ActivityPhase.noConfusion ActivityPhase.noConfusion
  have hpoints := points_agentsOf (orchestrationSnapshot row rows fun id => (read id).ledger).tickets
  constructor
  case phase => exact hphase
  case ready => exact hgoing
  case endsAt => exact endsAt_contentState hgoing
  case segments => exact hsegments
  case running_le =>
    rw [hsegments]
    exact count_running_le h hrows
  case atWork =>
    intro a ha hwork t ht hid
    rw [statusMark_running]
    exact (h.works a ha t (hrows.mem_iff.mp ht) hid).1 hwork
  case worker =>
    intro t ht hmark
    exact h.owner (hrows.mem_iff.mp ht) (statusMark_running.mp hmark)
  case nodup => exact hpoints.nodup
  case points =>
    intro point
    show point ∈ agentsOf _ ↔ _
    rw [hpoints.mem]
    constructor
    · rintro ⟨⟨shown, hshown, hid⟩, hpoint⟩
      obtain ⟨t, ht, rfl⟩ := List.mem_map.mp hshown
      have hassigned : t.assignedSubAgentId = some point.id := (Option.filter_eq_some_iff.mp hid).1
      rcases h.assigned t (hrows.mem_iff.mp ht) with hnone | hown
      · rw [hnone] at hassigned
        cases hassigned
      · have hself : t.id = point.id := Option.some.inj (hown.symm.trans hassigned)
        rw [← hself] at hpoint hid
        exact ⟨t, ht, hid, hpoint.trans (agentPoint_own h hrows ht hown _)⟩
    · rintro ⟨t, ht, hid, rfl⟩
      have hown : t.assignedSubAgentId = some t.id := (Option.filter_eq_some_iff.mp hid).1
      exact ⟨⟨_, List.mem_map_of_mem ht, hid⟩, (agentPoint_own h hrows ht hown _).symm⟩

end

/-- while a run goes on, whatever its sub-agents do and whenever its rows are read, its Live Activity shows one mark
for each ticket and one point for each ticket that has been assigned, and no more of them at work than sub-agents -/
theorem live_activity_shows_run (config : AgentConfig) (runId : JsString) (drafts : List DecomposedTicketDraft)
    (fresh : FreshIds drafts.length) (actions : List Action) {s : Orchestration}
    (hrun : run (Orchestration.step config) (.initial runId fresh) actions = some s) {rows : List Ticket}
    (hrows : rows.Perm s.ledger.tickets) {read : TicketId → Orchestration}
    (hread : ∀ id, ∃ later, run (Orchestration.step config) s later = some (read id)) {row : SnapshotRun}
    (hstatus : row.status = .running) :
    Shown config s rows (orchestrationContentState
      (orchestrationSnapshot row rows fun id => (read id).ledger)) := by
  have htracked := tracked_run (tracked_initial config runId fresh) hrun
  apply shown_of_tracked htracked hrows _ hstatus
  intro id
  obtain ⟨later, hlater⟩ := hread id
  exact tracked_run htracked hlater

/-- both tickets are assigned, and the second one has met the kill switch -/
def pairActions : List Action :=
  [.isActive false, .statement (lit "t0") .done, .statement (lit "t1") .done, .statement (lit "t0") .done,
    .statement (lit "t1") .done, .statement (lit "t0") (.rows pairRows), .statement (lit "t1") (.rows pairRows),
    .statement (lit "t1") (.turn .killSwitchActive)]

def pairSnapshot (status : AgentRunStatus) : SnapshotRun := ⟨lit "Ordenar los correos", status, 0, none⟩

theorem live_activity_shows_run_pair : ∃ s,
    run (Orchestration.step pairConfig) (.initial (lit "run") pairIds) pairActions = some s ∧
      Shown pairConfig s s.ledger.tickets (orchestrationContentState
        (orchestrationSnapshot (pairSnapshot .running) s.ledger.tickets fun _ => s.ledger)) := by
  refine ⟨_, rfl, ?_⟩
  exact live_activity_shows_run pairConfig (lit "run") pairDrafts pairIds pairActions rfl (List.Perm.refl _)
    (fun _ => ⟨[], rfl⟩) rfl

/-! ## at the end -/

section
variable {w : ObjectiveWorld} {l l' : Ledger} {output : ReconciliationOutput}

end

end Push
