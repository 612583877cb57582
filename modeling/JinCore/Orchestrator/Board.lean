import JinCore.Orchestrator.Killed

/-!
# The board that a sub-agent sees (`orchestrator.service.ts`)

A sub-agent reads the board after two statements of its own, while the others of its batch go on.

* `BoardRun.step`     the loop and its sub-agents; `board` keeps the rows at the start of the batch;
* `Causal`            the history of a turn shows what was done at the start of the batch;
* `NoPeerDone`        the condition on a step: no other ticket of the batch is done at the read;
* `Boards`            the invariant: outside the batch the ledger is the board;
* `board_causal`, `board_of_a_peer`.
-/

namespace Orchestrator
open JsString ModelProvider Agent Runs

structure BoardRun where
  orchestration : Orchestration
  /-- the rows of the ledger when the batch started -/
  board : List Ticket
  deriving DecidableEq, Repr

namespace BoardRun

/-- the rows are taken where a batch starts -/
def boardAfter (s : BoardRun) (action : Action) (next : Orchestration) : List Ticket :=
  match action, next.loop with
  | .isActive _, .awaiting _ | .settled, .awaiting _ => s.orchestration.ledger.tickets
  | _, _ => s.board

def step (config : AgentConfig) (s : BoardRun) (action : Action) : Option BoardRun :=
  (s.orchestration.step config action).map fun next => ⟨next, s.boardAfter action next⟩

def initial (runId : JsString) {drafts : List DecomposedTicketDraft}
    (fresh : FreshIds drafts.length) : BoardRun where
  orchestration := .initial runId fresh
  board := createTickets runId fresh.ids drafts

end BoardRun

/-- The history describes the other tickets that were done on the board, all that the ticket depends on
are among them, and none is of this batch. -/
structure Causal (board : List Ticket) (agents : List SubAgent) (ticket : Ticket)
    (history : List ModelMessage) : Prop where
  siblings : ∃ siblings, siblings.Perm (getCompletedSiblings board ticket.id) ∧
    history = buildBoardContextMessages siblings
  dependencies : ∀ depId ∈ ticket.dependsOn,
    ∃ t ∈ getCompletedSiblings board ticket.id, some t.id = depId
  noPeer : ∀ t ∈ getCompletedSiblings board ticket.id, ∀ b ∈ agents, b.ticket.id ≠ t.id

/-- when a sub-agent reads the board, no other ticket of its batch is done -/
def NoPeerDone (s : BoardRun) : Action → Prop
  | .statement ticketId (.rows _) => ∀ b ∈ s.orchestration.agents, b.ticket.id ≠ ticketId →
      ∀ t ∈ s.orchestration.ledger.tickets, t.id = b.ticket.id → t.status ≠ .done
  | _ => True

/-! ## the rows outside a batch -/

/-- the rows of tickets that are not of the batch -/
def others (agents : List SubAgent) (tickets : List Ticket) : List Ticket :=
  tickets.filter fun t => t.id ∉ agents.map fun a => a.ticket.id

section
variable {agents : List SubAgent} {tickets : List Ticket} {t : Ticket}

theorem mem_others : t ∈ others agents tickets ↔ t ∈ tickets ∧ ∀ a ∈ agents, a.ticket.id ≠ t.id := by
  rw [others, List.mem_filter, decide_eq_true_iff]
  refine and_congr_right fun _ => ?_
  rw [List.mem_map]
  constructor
  · intro h a ha hid
    exact h ⟨a, ha, hid⟩
  · rintro h ⟨a, ha, hid⟩
    exact h a ha hid

theorem others_setPhase {ticketId : TicketId} {p : SubAgentPhase} :
    others (Orchestration.setPhase agents ticketId p) tickets = others agents tickets := by
  rw [others, others, map_id_setPhase]

/-- where no ticket of the batch but the own one is done, the other tickets that are done are those
outside the batch -/
theorem getCompletedSiblings_others {ticketId : TicketId}
    (hself : ticketId ∈ agents.map fun a => a.ticket.id)
    (hpeers : ∀ b ∈ agents, b.ticket.id ≠ ticketId → ∀ t ∈ tickets, t.id = b.ticket.id →
      t.status ≠ .done) :
    getCompletedSiblings tickets ticketId = (others agents tickets).filter fun t => t.status = .done := by
  rw [getCompletedSiblings, others, List.filter_filter]
  apply List.filter_congr
  intro t ht
  rw [Bool.eq_iff_iff, Bool.and_eq_true, Bool.and_eq_true]
  simp only [decide_eq_true_eq]
  constructor
  · rintro ⟨hid, hdone⟩
    refine ⟨hdone, fun hmem => ?_⟩
    obtain ⟨b, hb, hbid⟩ := List.mem_map.mp hmem
    exact hpeers b hb (fun heq => hid (hbid.symm.trans heq)) t ht hbid.symm hdone
  · rintro ⟨hdone, hmem⟩
    refine ⟨?_, hdone⟩
    rintro rfl
    exact hmem hself

end

/-! ## one statement of a sub-agent -/

section
variable {a : SubAgent} {l l' : Ledger} {p : SubAgentPhase} {reply : AgentReply}

/-- a statement changes the row of its ticket alone -/
theorem rows_step (h : a.step l reply = some (l', p)) :
    ∃ f : Ticket → Ticket,
      l'.tickets = (l.tickets.map fun t => if t.id = a.ticket.id then f t else t) ∧
        ∀ t, (f t).id = t.id := by
  have hkeep : l'.tickets = l.tickets → ∃ f : Ticket → Ticket,
      l'.tickets = (l.tickets.map fun t => if t.id = a.ticket.id then f t else t) ∧
        ∀ t, (f t).id = t.id := by
    intro hsame
    exact ⟨fun t => t, by simp [hsame], fun _ => rfl⟩
  obtain ⟨ticket, phase⟩ := a
  cases reply with
  | done =>
    cases phase with
    | starting | assigning | closing result | failing message =>
      cases h
      exact ⟨_, rfl, fun _ => rfl⟩
    | commenting result | noting message =>
      cases h
      exact hkeep rfl
    | _ => cases h
  | rows tickets =>
    cases phase with
    | reading =>
      obtain ⟨-, h⟩ := Option.ite_none_right_eq_some.mp h
      cases h
      exact hkeep rfl
    | _ => cases h
  | turn reply =>
    cases phase with
    | turning history =>
      cases reply <;> cases h <;> exact hkeep rfl
    | _ => cases h
  | threw message =>
    cases phase with
    | starting | assigning | reading | commenting result | closing result | failing m | noting m =>
      cases h
      exact hkeep rfl
    | _ => cases h

/-- a turn begins with the rows that the sub-agent has read -/
theorem history_step {history : List ModelMessage} (h : a.step l reply = some (l', .turning history)) :
    ∃ rows, reply = .rows rows ∧ rows.Perm l.tickets ∧
      history = buildBoardContextMessages (getCompletedSiblings rows a.ticket.id) := by
  obtain ⟨ticket, phase⟩ := a
  cases reply with
  | done => cases phase <;> cases h
  | rows rows =>
    cases phase with
    | reading =>
      obtain ⟨hperm, h⟩ := Option.ite_none_right_eq_some.mp h
      cases h
      exact ⟨rows, rfl, hperm, rfl⟩
    | _ => cases h
  | turn reply =>
    cases phase with
    | turning history => cases reply <;> cases h
    | _ => cases h
  | threw message => cases phase <;> cases h

/-- the rows outside the batch of a sub-agent -/
theorem others_step {agents : List SubAgent} (ha : a ∈ agents) (h : a.step l reply = some (l', p)) :
    others agents l'.tickets = others agents l.tickets := by
  obtain ⟨f, hrows, hf⟩ := rows_step h
  have hmem : a.ticket.id ∈ agents.map fun a => a.ticket.id := List.mem_map_of_mem ha
  rw [hrows, others, others, List.filter_map]
  have hsame : ((fun t : Ticket => decide (t.id ∉ agents.map fun a => a.ticket.id)) ∘
      fun t => if t.id = a.ticket.id then f t else t)
      = fun t => decide (t.id ∉ agents.map fun a => a.ticket.id) := by
    funext t
    show decide ((if t.id = a.ticket.id then f t else t).id ∉ _) = _
    split
    · rw [hf t]
    · rfl
  rw [hsame]
  conv_rhs => rw [← List.map_id (l.tickets.filter _)]
  refine List.map_congr_left fun t ht => if_neg ?_
  intro hid
  exact of_decide_eq_true (List.mem_filter.mp ht).2 (hid ▸ hmem)

theorem row_step {t' : Ticket} (h : a.step l reply = some (l', p)) (ht' : t' ∈ l'.tickets) :
    ∃ t ∈ l.tickets, t'.id = t.id ∧ (t.id ≠ a.ticket.id → t' = t) := by
  obtain ⟨f, hrows, hf⟩ := rows_step h
  rw [hrows] at ht'
  obtain ⟨t, ht, rfl⟩ := List.mem_map.mp ht'
  refine ⟨t, ht, ?_, fun hid => if_neg hid⟩
  split
  · exact hf t
  · rfl

end

/-! ## the invariant -/

/-- a ticket of a batch to come: its row is pending, and outside the batch that goes on all that it
depends on is done -/
structure ToCome (s : Orchestration) (t : Ticket) : Prop where
  pending : ∀ u ∈ s.ledger.tickets, u.id = t.id → u.status = .pending
  apart : ∀ a ∈ s.agents, a.ticket.id ≠ t.id
  dependencies : ∀ depId ∈ t.dependsOn, IsDone (others s.agents s.ledger.tickets) depId

def LoopBoards (s : Orchestration) : Prop :=
  match s.loop with
  | .checking tickets => tickets.Perm s.ledger.tickets ∧ AllEnded s
  | .awaiting rest => ∀ t ∈ rest.flatten, ToCome s t
  | .rereading => AllEnded s
  | _ => True

structure Boards (s : BoardRun) : Prop where
  oneEach : OneEach s.orchestration
  loop : LoopBoards s.orchestration
  same : others s.orchestration.agents s.orchestration.ledger.tickets
    = others s.orchestration.agents s.board
  undone : ∀ a ∈ s.orchestration.agents, ∀ t ∈ s.board, t.id = a.ticket.id → t.status ≠ .done
  dependencies : ∀ a ∈ s.orchestration.agents, ∀ depId ∈ a.ticket.dependsOn, IsDone s.board depId
  turning : ∀ a ∈ s.orchestration.agents, ∀ history, a.phase = .turning history →
    Causal s.board s.orchestration.agents a.ticket history

section
variable {s : BoardRun} {o : Orchestration}

theorem isDone_of_others {agents : List SubAgent} {tickets : List Ticket} {depId : Option TicketId}
    (h : IsDone (others agents tickets) depId) : IsDone tickets depId := by
  obtain ⟨t, ht, hid, hdone⟩ := h
  exact ⟨t, (mem_others.mp ht).1, hid, hdone⟩

/-- a batch starts with the tickets that were to come -/
theorem boards_nextBatch (h : Boards s) (board : List Ticket) {batches : List (List Ticket)}
    (hids : (batches.flatten.map Ticket.id).Nodup) (hended : AllEnded s.orchestration)
    (hpending : ∀ t ∈ batches.flatten, ∀ u ∈ s.orchestration.ledger.tickets, u.id = t.id →
      u.status = .pending)
    (hdone : ∀ t ∈ batches.flatten, ∀ depId ∈ t.dependsOn,
      IsDone s.orchestration.ledger.tickets depId)
    (hboard : board = if batches = [] then s.board else s.orchestration.ledger.tickets) :
    Boards ⟨s.orchestration.nextBatch batches, board⟩ := by
  have honeEach := h.oneEach.nextBatch hids
  cases batches with
  | nil =>
    rw [if_pos rfl] at hboard
    rw [hboard]
    exact ⟨honeEach, hended, h.same, h.undone, h.dependencies, h.turning⟩
  | cons batch rest =>
    rw [if_neg (List.cons_ne_nil _ _)] at hboard
    rw [hboard]
    have hagent : ∀ a ∈ batch.map (fun t => (⟨t, .starting⟩ : SubAgent)),
        a.ticket ∈ (batch :: rest).flatten ∧ a.phase = .starting := by
      intro a ha
      obtain ⟨t, ht, rfl⟩ := List.mem_map.mp ha
      exact ⟨List.mem_append_left _ ht, rfl⟩
    have hundone : ∀ a ∈ batch.map (fun t => (⟨t, .starting⟩ : SubAgent)),
        ∀ t ∈ s.orchestration.ledger.tickets, t.id = a.ticket.id → t.status ≠ .done := by
      intro a ha t ht hid hstatus
      rw [hpending _ (hagent a ha).1 t ht hid] at hstatus
      cases hstatus
    refine ⟨honeEach, ?_, rfl, hundone, fun a ha => hdone _ (hagent a ha).1, ?_⟩
    · -- the batches after it
      show ∀ t ∈ rest.flatten, ToCome _ t
      intro t ht
      have hmem : t ∈ (batch :: rest).flatten := List.mem_append_right _ ht
      refine ⟨hpending t hmem, fun a ha hid => ?_, fun depId hdep => ?_⟩
      · rw [List.flatten_cons, List.map_append, List.nodup_append] at hids
        obtain ⟨u, hu, rfl⟩ := List.mem_map.mp ha
        exact hids.2.2 _ (List.mem_map_of_mem hu) _ (List.mem_map_of_mem ht) hid
      · obtain ⟨u, hu, hid, hstatus⟩ := hdone t hmem depId hdep
        refine ⟨u, mem_others.mpr ⟨hu, fun a ha haid => ?_⟩, hid, hstatus⟩
        exact hundone a ha u hu haid.symm hstatus
    · -- no turn has begun
      intro a ha history hphase
      rw [(hagent a ha).2] at hphase
      cases hphase

/-- the batches of the tickets that are ready -/
theorem boards_ready (config : AgentConfig) (h : Boards s) {tickets : List Ticket}
    (hloop : s.orchestration.loop = .checking tickets) (board : List Ticket)
    {batches : List (List Ticket)}
    (hchunk : chunk (computeReadyBatch tickets) config.maxConcurrentSubAgents = .ok batches)
    (hboard : board = if batches = [] then s.board else s.orchestration.ledger.tickets) :
    Boards ⟨s.orchestration.nextBatch batches, board⟩ := by
  have hchecking := h.loop
  unfold LoopBoards at hchecking
  rw [hloop] at hchecking
  obtain ⟨hperm, hended⟩ := hchecking
  have hids : (tickets.map Ticket.id).Nodup := (hperm.map Ticket.id).nodup_iff.mpr h.oneEach.rows
  have hflatten := flatten_chunk config.subAgents_pos hchunk
  refine boards_nextBatch h board ?_ hended ?_ ?_ hboard
  · rw [hflatten]
    exact hids.sublist (List.Sublist.map _ List.filter_sublist)
  · intro t ht u hu hid
    rw [hflatten] at ht
    obtain ⟨ht, hpending, -⟩ := (mem_computeReadyBatch hids).mp ht
    rw [eq_of_id h.oneEach.rows hu (hperm.mem_iff.mp ht) hid]
    exact hpending
  · intro t ht depId hdep
    rw [hflatten] at ht
    exact isDone_perm hperm (((mem_computeReadyBatch hids).mp ht).2.2 depId hdep)

/-- what a sub-agent reads while no other ticket of its batch is done -/
theorem causal_of_read (h : Boards s) {a : SubAgent} (ha : a ∈ s.orchestration.agents)
    {rows : List Ticket} (hperm : rows.Perm s.orchestration.ledger.tickets)
    (hpeers : ∀ b ∈ s.orchestration.agents, b.ticket.id ≠ a.ticket.id →
      ∀ t ∈ s.orchestration.ledger.tickets, t.id = b.ticket.id → t.status ≠ .done) :
    Causal s.board s.orchestration.agents a.ticket
      (buildBoardContextMessages (getCompletedSiblings rows a.ticket.id)) := by
  have hself : a.ticket.id ∈ s.orchestration.agents.map fun a => a.ticket.id :=
    List.mem_map_of_mem ha
  have hboard : getCompletedSiblings s.board a.ticket.id =
      (others s.orchestration.agents s.board).filter fun t => t.status = .done :=
    getCompletedSiblings_others hself fun b hb _ t ht hid => h.undone b hb t ht hid
  refine ⟨⟨_, ?_, rfl⟩, ?_, ?_⟩
  · rw [hboard, ← h.same, ← getCompletedSiblings_others hself hpeers]
    exact hperm.filter _
  · intro depId hdep
    obtain ⟨t, ht, hid, hstatus⟩ := h.dependencies a ha depId hdep
    refine ⟨t, List.mem_filter.mpr ⟨ht, ?_⟩, hid⟩
    rw [Bool.and_eq_true, decide_eq_true_iff, decide_eq_true_iff]
    exact ⟨fun heq => h.undone a ha t ht heq hstatus, hstatus⟩
  · intro t ht b hb hid
    rw [hboard, List.mem_filter] at ht
    exact (mem_others.mp ht.1).2 b hb hid

theorem boards_statement (h : Boards s) {a : SubAgent} (ha : a ∈ s.orchestration.agents)
    {l' : Ledger} {p : SubAgentPhase} {reply : AgentReply}
    (hagent : a.step s.orchestration.ledger reply = some (l', p))
    (horderly : NoPeerDone s (.statement a.ticket.id reply)) :
    let next : Orchestration := { s.orchestration with
      ledger := l', agents := Orchestration.setPhase s.orchestration.agents a.ticket.id p }
    OneEach next → Boards ⟨next, s.board⟩ := by
  intro next honeEach
  have hothers : others next.agents l'.tickets
      = others s.orchestration.agents s.orchestration.ledger.tickets := by
    rw [others_setPhase, others_step ha hagent]
  have hticket : ∀ b ∈ next.agents, ∃ c ∈ s.orchestration.agents, b.ticket = c.ticket ∧
      (c.ticket.id = a.ticket.id → b.phase = p) ∧ (c.ticket.id ≠ a.ticket.id → b = c) :=
    fun b hb => mem_setPhase hb
  have hids : ∀ id, (∀ c ∈ s.orchestration.agents, c.ticket.id ≠ id) →
      ∀ b ∈ next.agents, b.ticket.id ≠ id := by
    intro id hc b hb
    obtain ⟨c, hcmem, hbc, -⟩ := hticket b hb
    rw [hbc]
    exact hc c hcmem
  refine ⟨honeEach, ?_, ?_, ?_, ?_, ?_⟩
  · -- the loop
    have hloop := h.loop
    unfold LoopBoards at hloop ⊢
    have hbusy : AllEnded s.orchestration → False := by
      intro hended
      have hnone := step_atRest (Or.inl (hended a ha)) (l := s.orchestration.ledger) reply
      rw [hagent] at hnone
      cases hnone
    cases hphase : s.orchestration.loop with
    | checking tickets =>
      rw [hphase] at hloop
      exact (hbusy hloop.2).elim
    | awaiting rest =>
      rw [hphase] at hloop
      simp only [next, hphase]
      intro t ht
      have htocome := hloop t ht
      refine ⟨fun u' hu' hid => ?_, hids t.id htocome.apart, fun depId hdep => ?_⟩
      · obtain ⟨u, hu, huid, hsame⟩ := row_step hagent hu'
        have hne : u.id ≠ a.ticket.id := by
          intro heq
          exact htocome.apart a ha (heq.symm.trans (huid.symm.trans hid))
        rw [hsame hne]
        exact htocome.pending u hu (huid.symm.trans hid)
      · rw [show others _ _ = _ from hothers]
        exact htocome.dependencies depId hdep
    | rereading =>
      rw [hphase] at hloop
      exact (hbusy hloop).elim
    | returned killed => trivial
    | threw message => trivial
  · show others next.agents l'.tickets = others next.agents s.board
    rw [hothers, others_setPhase]
    exact h.same
  · intro b hb
    obtain ⟨c, hc, hbc, -⟩ := hticket b hb
    rw [hbc]
    exact h.undone c hc
  · intro b hb
    obtain ⟨c, hc, hbc, -⟩ := hticket b hb
    rw [hbc]
    exact h.dependencies c hc
  · intro b hb history hphase
    obtain ⟨c, hc, hbc, hp, hsame⟩ := hticket b hb
    have hcausal : Causal s.board s.orchestration.agents b.ticket history := by
      by_cases hca : c.ticket.id = a.ticket.id
      · rw [hp hca] at hphase
        subst hphase
        obtain ⟨rows, rfl, hperm, rfl⟩ := history_step hagent
        have hread := causal_of_read h ha hperm horderly
        have hca' : c = a := List.inj_on_of_nodup_map h.oneEach.agents hc ha hca
        rw [hbc, hca']
        exact hread
      · have hbc' := hsame hca
        subst hbc'
        exact h.turning b hc history hphase
    exact ⟨hcausal.siblings, hcausal.dependencies,
      fun t ht => hids t.id fun c hc => hcausal.noPeer t ht c hc⟩

/-- the loop moves on, and no batch starts -/
theorem Boards.setLoop (h : Boards s) (loop : LoopPhase) (honeEach : loop.OneEach)
    (hloop : LoopBoards { s.orchestration with loop := loop }) :
    Boards ⟨{ s.orchestration with loop := loop }, s.board⟩ :=
  ⟨⟨h.oneEach.rows, h.oneEach.agents, honeEach⟩, hloop, h.same, h.undone, h.dependencies, h.turning⟩

theorem boards_step (config : AgentConfig) {action : Action} {t : BoardRun} (h : Boards s)
    (horderly : NoPeerDone s action) (hstep : s.step config action = some t) : Boards t := by
  obtain ⟨next, hnext, rfl⟩ := Option.map_eq_some_iff.mp hstep
  have honeEach := oneEach_step h.oneEach hnext
  cases action with
  | isActive active =>
    cases active with
    | true =>
      simp only [Orchestration.step] at hnext
      split at hnext
      · cases hnext
        exact h.setLoop _ trivial trivial
      · cases hnext
    | false =>
      obtain ⟨tickets, hloop, ⟨-, rfl⟩ | ⟨-, batches, hchunk, rfl⟩⟩ := step_isActive config hnext
      · exact h.setLoop _ trivial trivial
      · refine boards_ready config h hloop _ hchunk ?_
        cases batches <;> rfl
  | statement ticketId reply =>
    simp only [Orchestration.step] at hnext
    cases hfind : s.orchestration.agents.find? fun a => a.ticket.id = ticketId with
    | none => simp only [hfind, reduceCtorEq] at hnext
    | some a =>
      have hfound := List.find?_some hfind
      have hid : a.ticket.id = ticketId := of_decide_eq_true hfound
      subst hid
      cases hagent : a.step s.orchestration.ledger reply with
      | none => simp only [hfind, hagent, reduceCtorEq] at hnext
      | some pair =>
        simp only [hfind, hagent] at hnext
        cases hnext
        exact boards_statement h (List.mem_of_find?_eq_some hfind) hagent horderly honeEach
  | settled =>
    obtain ⟨rest, hloop, hended, rfl⟩ := step_settled config hnext
    have htocome := h.loop
    have hids := h.oneEach.loop
    unfold LoopBoards at htocome
    rw [hloop] at htocome hids
    refine boards_nextBatch h _ hids hended (fun t ht => (htocome t ht).pending)
      (fun t ht depId hdep => isDone_of_others ((htocome t ht).dependencies depId hdep)) ?_
    cases rest <;> rfl
  | rejected ticketId =>
    simp only [Orchestration.step] at hnext
    split at hnext
    · split at hnext <;> cases hnext <;> exact h.setLoop _ trivial trivial
    · cases hnext
  | getTickets rows =>
    obtain ⟨hloop, hperm, rfl⟩ := step_getTickets config hnext
    have hended := h.loop
    unfold LoopBoards at hended
    rw [hloop] at hended
    exact h.setLoop _ honeEach.loop ⟨hperm, hended⟩
  | isActiveThrew message =>
    simp only [Orchestration.step] at hnext
    split at hnext <;> cases hnext
    exact h.setLoop _ trivial trivial
  | getTicketsThrew message =>
    simp only [Orchestration.step] at hnext
    split at hnext <;> cases hnext
    exact h.setLoop _ trivial trivial

end

theorem boards_initial (runId : JsString) {drafts : List DecomposedTicketDraft}
    (fresh : FreshIds drafts.length) : Boards (.initial runId fresh) where
  oneEach := oneEach_initial runId fresh
  loop := ⟨List.Perm.refl _, fun _ ha => absurd ha List.not_mem_nil⟩
  same := rfl
  undone _ ha := absurd ha List.not_mem_nil
  dependencies _ ha := absurd ha List.not_mem_nil
  turning _ ha := absurd ha List.not_mem_nil

/-- **A sub-agent sees what was done before its batch.**  Whatever the drafts depend on, whatever the
size of a batch and however the sub-agents end and interleave: as long as none reads the board while
another ticket of its batch is done, the history of every turn shows exactly the other tickets that
were done when its batch started, with their results, all that its ticket depends on among them and no
ticket of its batch. -/
theorem board_causal (config : AgentConfig) (runId : JsString) (drafts : List DecomposedTicketDraft)
    (fresh : FreshIds drafts.length) (actions : List Action) (s : BoardRun)
    (horderly : Guarded (BoardRun.step config) NoPeerDone (.initial runId fresh) actions)
    (hrun : run (BoardRun.step config) (.initial runId fresh) actions = some s) :
    ∀ a ∈ s.orchestration.agents, ∀ history, a.phase = .turning history →
      Causal s.board s.orchestration.agents a.ticket history :=
  (run_inv_guarded (fun _ _ _ h hG hstep => boards_step config h hG hstep) actions _ s
    (boards_initial runId fresh) horderly hrun).turning

/-! ## a batch of two -/

/-- the rows while the first sub-agent is at work, and when it is done and the second one at work -/
def firstRows (done : Bool) : List Ticket :=
  [⟨lit "t0", lit "run", lit "Leer correos", if done then .done else .inProgress, some (lit "t0"),
      [lit "readEmails"], [], if done then some (lit "3 correos") else none⟩,
    ⟨lit "t1", lit "run", lit "Resumir", if done then .inProgress else .pending,
      if done then some (lit "t1") else none, [], [], none⟩]

/-- the first sub-agent is done before the second one reads the board -/
def peerFirst : List Action :=
  [.isActive false, .statement (lit "t0") .done, .statement (lit "t0") .done,
    .statement (lit "t0") (.rows (firstRows false)),
    .statement (lit "t0") (.turn (.returned sampleResult)), .statement (lit "t0") .done,
    .statement (lit "t0") .done, .statement (lit "t1") .done, .statement (lit "t1") .done,
    .statement (lit "t1") (.rows (firstRows true))]

/-- both read the board before either is done -/
def bothRead : List Action :=
  [.isActive false, .statement (lit "t0") .done, .statement (lit "t0") .done,
    .statement (lit "t1") .done, .statement (lit "t1") .done,
    .statement (lit "t0") (.rows pairRows),
    .statement (lit "t1") (.rows pairRows)]

/-- the condition on a step, as a check -/
def checkPeers (s : BoardRun) : Action → Bool
  | .statement ticketId (.rows _) => s.orchestration.agents.all fun b =>
      decide (b.ticket.id = ticketId) ||
        s.orchestration.ledger.tickets.all fun t =>
          decide (t.id ≠ b.ticket.id) || decide (t.status ≠ .done)
  | _ => true

theorem noPeerDone_of_check (s : BoardRun) (action : Action) (h : checkPeers s action = true) :
    NoPeerDone s action := by
  cases action with
  | statement ticketId reply =>
    cases reply with
    | rows rows =>
      intro b hb hne t ht hid
      rcases Bool.or_eq_true_iff.mp (List.all_eq_true.mp h b hb) with heq | hall
      · exact absurd (of_decide_eq_true heq) hne
      · rcases Bool.or_eq_true_iff.mp (List.all_eq_true.mp hall t ht) with hid' | hstatus
        · exact absurd hid (of_decide_eq_true hid')
        · exact of_decide_eq_true hstatus
    | _ => trivial
  | _ => trivial

/-- two turns that begin with an empty board -/
theorem board_causal_pair : ∃ s, run (BoardRun.step pairConfig) (.initial (lit "run") pairIds) bothRead
      = some s ∧ ∀ a ∈ s.orchestration.agents, ∀ history, a.phase = .turning history →
        Causal s.board s.orchestration.agents a.ticket history := by
  have hsome : (run (BoardRun.step pairConfig) (.initial (lit "run") pairIds) bothRead).isSome := by
    decide
  refine ⟨_, (Option.some_get hsome).symm, ?_⟩
  exact board_causal pairConfig (lit "run") pairDrafts pairIds bothRead _
    (guarded_of_checkAll noPeerDone_of_check _ _ (by decide)) (Option.some_get hsome).symm

/-- The second sub-agent of a batch is shown the result of the first one. -/
theorem board_of_a_peer : ∃ s, run (BoardRun.step pairConfig) (.initial (lit "run") pairIds) peerFirst
      = some s ∧ ∃ a ∈ s.orchestration.agents, ∃ history, a.phase = .turning history ∧
        ¬ Causal s.board s.orchestration.agents a.ticket history := by
  have hrun : (run (BoardRun.step pairConfig) (.initial (lit "run") pairIds) peerFirst).map (fun s =>
      decide (∃ a ∈ s.orchestration.agents, a.phase = .turning (buildBoardContextMessages
        (getCompletedSiblings (firstRows true) (lit "t1"))) ∧
          getCompletedSiblings s.board a.ticket.id = [])) = some true := by
    decide +kernel
  obtain ⟨s, hs, hcheck⟩ := Option.map_eq_some_iff.mp hrun
  obtain ⟨a, ha, hphase, hnone⟩ := of_decide_eq_true hcheck
  refine ⟨s, hs, a, ha, _, hphase, fun hcausal => ?_⟩
  obtain ⟨siblings, hperm, hhistory⟩ := hcausal.siblings
  rw [hnone] at hperm
  rw [hperm.eq_nil] at hhistory
  exact absurd hhistory (by decide)

end Orchestrator
