import JinCore.Orchestrator.Batches

/-!
# A run ends, in the order of its dependencies

While the kill switch is inactive, every run of the loop and its sub-agents is finite, starts each
ticket at most once and only after its dependencies, and leaves no ready ticket behind.

* `SubAgentPhase.Shows`, `Stepped`, `stepped_of_step`   what one statement of a sub-agent can do;
* `Core`, `LoopInv`, `Inv`       the invariant of the loop and its sub-agents; `inv_step`;
* `potential`                    what is still to come, `potential_step`;
* `exists_step`                  a loop that has not returned can go on;
* `orchestration_in_order`.
-/

namespace Orchestrator
open JsString ModelProvider Agent

/-! ## one statement of a sub-agent -/

/-- the columns that no statement changes -/
def Ticket.fixed (t : Ticket) : Ticket :=
  { t with status := .pending, assignedSubAgentId := none, result := none }

theorem id_of_fixed {t u : Ticket} (h : t.fixed = u.fixed) : t.id = u.id :=
  (Ticket.mk.inj h).1

theorem dependsOn_of_fixed {t u : Ticket} (h : t.fixed = u.fixed) : t.dependsOn = u.dependsOn :=
  (Ticket.mk.inj h).2.2.2.2.2.2.1

namespace SubAgentPhase

/-- the status of the ticket before the statement -/
def Shows : SubAgentPhase → AgentTicketStatus → Prop
  | .starting, status => status = .pending
  | .noting _, status => status = .failed
  | .ended, status => status = .done ∨ status = .blocked ∨ status = .failed
  | .crashed _, _ => True
  | _, status => status = .inProgress

/-- how many statements are to come -/
def cost : SubAgentPhase → Nat
  | .starting => 6
  | .assigning => 5
  | .reading => 4
  | .turning _ => 3
  | .commenting _ | .failing _ => 2
  | .closing _ | .noting _ => 1
  | .ended | .threw | .crashed _ => 0

/-- it has rejected, and `Promise.all` with it -/
def rejects : SubAgentPhase → Bool
  | .threw | .crashed _ => true
  | _ => false

end SubAgentPhase

/-- a statement comes back, and a turn does not meet an active kill switch -/
def AgentReply.calm : AgentReply → Prop
  | .turn reply => reply ≠ .killSwitchActive
  | .threw _ => False
  | _ => True

/-- a statement changes the row of its ticket, and takes the sub-agent one step on -/
structure Stepped (a : SubAgent) (l l' : Ledger) (p : SubAgentPhase) (f : Ticket → Ticket) :
    Prop where
  tickets : l'.tickets = l.tickets.map fun t => if t.id = a.ticket.id then f t else t
  fixed : ∀ t, (f t).fixed = t.fixed
  shows : ∀ t, a.phase.Shows t.status → p.Shows (f t).status
  undone : ¬ a.phase.Shows .done
  cost : p.cost + 1 = a.phase.cost
  calm : p.rejects = false

theorem stepped_keep {a : SubAgent} {l l' : Ledger} {p : SubAgentPhase}
    (htickets : l'.tickets = l.tickets) (hshows : ∀ status, a.phase.Shows status → p.Shows status)
    (hundone : ¬ a.phase.Shows .done) (hcost : p.cost + 1 = a.phase.cost) (hcalm : p.rejects = false) :
    Stepped a l l' p fun t => t where
  tickets := by simp [htickets]
  fixed _ := rfl
  shows t := hshows t.status
  undone := hundone
  cost := hcost
  calm := hcalm

theorem stepped_of_step {a : SubAgent} {l l' : Ledger} {p : SubAgentPhase} {reply : AgentReply}
    (hreply : reply.calm) (h : a.step l reply = some (l', p)) :
    ∃ f, Stepped a l l' p f := by
  obtain ⟨ticket, phase⟩ := a
  cases reply with
  | done =>
    cases phase with
    | starting =>
      cases h
      exact ⟨_, rfl, fun _ => rfl, fun _ _ => rfl, (by rintro ⟨⟩), rfl, rfl⟩
    | assigning =>
      cases h
      exact ⟨_, rfl, fun _ => rfl, fun _ ht => ht, (by rintro ⟨⟩), rfl, rfl⟩
    | commenting result =>
      cases h
      exact ⟨_, stepped_keep rfl (fun _ ht => ht) (by rintro ⟨⟩) rfl rfl⟩
    | closing result =>
      cases h
      refine ⟨_, rfl, fun _ => rfl, fun _ _ => ?_, (by rintro ⟨⟩), rfl, rfl⟩
      show (if _ then AgentTicketStatus.blocked else .done) = .done ∨ _
      split
      · exact Or.inr (Or.inl rfl)
      · exact Or.inl rfl
    | failing message =>
      cases h
      exact ⟨_, rfl, fun _ => rfl, fun _ _ => rfl, (by rintro ⟨⟩), rfl, rfl⟩
    | noting message =>
      cases h
      exact ⟨_, stepped_keep rfl (fun _ ht => Or.inr (Or.inr ht)) (by rintro ⟨⟩) rfl rfl⟩
    | _ => cases h
  | rows tickets =>
    cases phase with
    | reading =>
      obtain ⟨-, h⟩ := Option.ite_none_right_eq_some.mp h
      cases h
      exact ⟨_, stepped_keep rfl (fun _ ht => ht) (by rintro ⟨⟩) rfl rfl⟩
    | _ => cases h
  | turn reply =>
    cases phase with
    | turning history =>
      cases reply with
      | returned result =>
        cases h
        exact ⟨_, stepped_keep rfl (fun _ ht => ht) (by rintro ⟨⟩) rfl rfl⟩
      | threw message =>
        cases h
        exact ⟨_, stepped_keep rfl (fun _ ht => ht) (by rintro ⟨⟩) rfl rfl⟩
      | killSwitchActive => exact absurd rfl hreply
    | _ => cases h
  | threw message => cases hreply

namespace Stepped

variable {a : SubAgent} {l l' : Ledger} {p : SubAgentPhase} {f : Ticket → Ticket}

/-- a row after the statement comes from a row before it -/
theorem row (h : Stepped a l l' p f) {t' : Ticket} (ht' : t' ∈ l'.tickets) :
    ∃ t ∈ l.tickets, t'.fixed = t.fixed ∧ (t.id = a.ticket.id → t' = f t) ∧
      (t.id ≠ a.ticket.id → t' = t) := by
  rw [h.tickets] at ht'
  obtain ⟨t, ht, rfl⟩ := List.mem_map.mp ht'
  refine ⟨t, ht, ?_, fun hid => if_pos hid, fun hid => if_neg hid⟩
  split
  · exact h.fixed t
  · rfl

theorem row_of_mem (h : Stepped a l l' p f) {t : Ticket} (ht : t ∈ l.tickets) :
    ∃ t' ∈ l'.tickets, t'.fixed = t.fixed ∧ (t.id ≠ a.ticket.id → t' = t) := by
  rw [h.tickets]
  refine ⟨_, List.mem_map_of_mem ht, ?_, fun hid => if_neg hid⟩
  split
  · exact h.fixed t
  · rfl

theorem map_fixed (h : Stepped a l l' p f) :
    l'.tickets.map Ticket.fixed = l.tickets.map Ticket.fixed := by
  rw [h.tickets, List.map_map]
  refine List.map_congr_left fun t _ => ?_
  show (if _ then f t else t).fixed = t.fixed
  split
  · exact h.fixed t
  · rfl

theorem map_id (h : Stepped a l l' p f) :
    l'.tickets.map Ticket.id = l.tickets.map Ticket.id := by
  have hfixed := congrArg (List.map Ticket.id) h.map_fixed
  rwa [List.map_map, List.map_map] at hfixed

end Stepped

/-! ## phases -/

section

variable {agents : List SubAgent} {ticketId : TicketId} {p : SubAgentPhase}

theorem map_id_setPhase : (Orchestration.setPhase agents ticketId p).map (fun a => a.ticket.id)
    = agents.map fun a => a.ticket.id := by
  rw [Orchestration.setPhase, List.map_map]
  refine List.map_congr_left fun a _ => ?_
  show (if _ then _ else a).ticket.id = a.ticket.id
  split <;> rfl

theorem mem_setPhase {b : SubAgent} (h : b ∈ Orchestration.setPhase agents ticketId p) :
    ∃ a ∈ agents, b.ticket = a.ticket ∧ (a.ticket.id = ticketId → b.phase = p) ∧
      (a.ticket.id ≠ ticketId → b = a) := by
  obtain ⟨a, ha, rfl⟩ := List.mem_map.mp h
  refine ⟨a, ha, ?_, fun hid => ?_, fun hid => if_neg hid⟩
  · split <;> rfl
  · rw [if_pos hid]

def totalCost (agents : List SubAgent) : Nat := (agents.map fun a => a.phase.cost).sum

theorem setPhase_of_not_mem (h : ticketId ∉ agents.map fun a => a.ticket.id) :
    Orchestration.setPhase agents ticketId p = agents := by
  conv_rhs => rw [← List.map_id agents]
  refine List.map_congr_left fun a ha => ?_
  rw [if_neg fun hid => h (List.mem_map.mpr ⟨a, ha, hid⟩)]
  rfl

/-- one statement is taken from what is to come -/
theorem totalCost_setPhase {a : SubAgent} (hnodup : (agents.map fun a => a.ticket.id).Nodup)
    (ha : a ∈ agents) (hid : a.ticket.id = ticketId) (hcost : p.cost + 1 = a.phase.cost) :
    totalCost (Orchestration.setPhase agents ticketId p) + 1 = totalCost agents := by
  induction agents with
  | nil => cases ha
  | cons b agents ih =>
    rw [List.map_cons, List.nodup_cons] at hnodup
    have hsetPhase : Orchestration.setPhase (b :: agents) ticketId p
        = (if b.ticket.id = ticketId then { b with phase := p } else b)
          :: Orchestration.setPhase agents ticketId p := rfl
    rcases List.mem_cons.mp ha with rfl | ha
    · rw [hsetPhase, if_pos hid, setPhase_of_not_mem (hid ▸ hnodup.1)]
      simp only [totalCost, List.map_cons, List.sum_cons]
      omega
    · have hb : b.ticket.id ≠ ticketId := fun hb =>
        hnodup.1 (List.mem_map.mpr ⟨a, ha, hid.trans hb.symm⟩)
      have hrest := ih hnodup.2 ha
      rw [hsetPhase, if_neg hb]
      simp only [totalCost, List.map_cons, List.sum_cons] at hrest ⊢
      omega

end

/-! ## the invariant -/

/-- the rows, the sub-agents and the starts, wherever the loop stands -/
structure Core (drafted : List Ticket) (s : Orchestration) : Prop where
  frame : s.ledger.tickets.map Ticket.fixed = drafted.map Ticket.fixed
  ids : (s.ledger.tickets.map Ticket.id).Nodup
  once : s.started.Nodup
  known : ∀ id ∈ s.started, ∃ t ∈ s.ledger.tickets, t.id = id
  agentsOnce : (s.agents.map fun a => a.ticket.id).Nodup
  agentsStarted : ∀ a ∈ s.agents, a.ticket.id ∈ s.started
  calm : ∀ a ∈ s.agents, a.phase.rejects = false
  unstarted : ∀ t ∈ s.ledger.tickets, t.id ∉ s.started → t.status = .pending
  running : ∀ t ∈ s.ledger.tickets, ∀ a ∈ s.agents, a.ticket.id = t.id → a.phase.Shows t.status
  settled : ∀ t ∈ s.ledger.tickets, t.id ∈ s.started → (∀ a ∈ s.agents, a.ticket.id ≠ t.id) →
    SubAgentPhase.ended.Shows t.status
  dependencies : ∀ t ∈ s.ledger.tickets, t.id ∈ s.started →
    ∀ depId ∈ t.dependsOn, IsDone s.ledger.tickets depId

theorem Core.setLoop {drafted : List Ticket} {s : Orchestration} (h : Core drafted s)
    (loop : LoopPhase) : Core drafted { s with loop := loop } :=
  ⟨h.frame, h.ids, h.once, h.known, h.agentsOnce, h.agentsStarted, h.calm, h.unstarted, h.running,
    h.settled, h.dependencies⟩

def AllEnded (s : Orchestration) : Prop := ∀ a ∈ s.agents, a.phase = .ended

/-- a ticket of a batch that has not begun -/
structure Waiting (s : Orchestration) (t : Ticket) : Prop where
  unstarted : t.id ∉ s.started
  row : ∃ u ∈ s.ledger.tickets, u.id = t.id ∧ u.dependsOn = t.dependsOn
  dependencies : ∀ depId ∈ t.dependsOn, IsDone s.ledger.tickets depId

structure Batches (s : Orchestration) (rest : List (List Ticket)) : Prop where
  once : (rest.flatten.map Ticket.id).Nodup
  waiting : ∀ t ∈ rest.flatten, Waiting s t
  nonempty : ∀ batch ∈ rest, batch ≠ []

/-- no ticket is ready any more -/
def Exhausted (tickets : List Ticket) : Prop :=
  ∀ t ∈ tickets, t.status = .pending → ¬ ∀ depId ∈ t.dependsOn, IsDone tickets depId

def LoopInv (s : Orchestration) : Prop :=
  match s.loop with
  | .checking tickets => tickets.Perm s.ledger.tickets ∧ AllEnded s
  | .awaiting rest => Batches s rest
  | .rereading => AllEnded s
  | .returned killed => killed = false ∧ AllEnded s ∧ Exhausted s.ledger.tickets
  | .threw _ => False

structure Inv (drafted : List Ticket) (s : Orchestration) : Prop where
  core : Core drafted s
  loop : LoopInv s

theorem Core.settled_of_allEnded {drafted : List Ticket} {s : Orchestration} (h : Core drafted s)
    (hended : AllEnded s) {t : Ticket} (ht : t ∈ s.ledger.tickets) (hstarted : t.id ∈ s.started) :
    SubAgentPhase.ended.Shows t.status := by
  by_cases hagent : ∃ a ∈ s.agents, a.ticket.id = t.id
  · obtain ⟨a, ha, hid⟩ := hagent
    have hshows := h.running t ht a ha hid
    rwa [hended a ha] at hshows
  · exact h.settled t ht hstarted fun a ha hid => hagent ⟨a, ha, hid⟩

theorem not_shows_ended_pending : ¬ SubAgentPhase.ended.Shows .pending := by
  rintro (h | h | h) <;> cases h

/-! ## steps of the loop -/

section

variable {drafted : List Ticket} {s : Orchestration}

/-- a new batch begins where every sub-agent has ended -/
theorem inv_nextBatch (h : Core drafted s) (hended : AllEnded s) {batches : List (List Ticket)}
    (hb : Batches s batches) : Inv drafted (s.nextBatch batches) := by
  cases batches with
  | nil => exact ⟨h.setLoop .rereading, hended⟩
  | cons batch rest =>
    have hnodup := hb.once
    rw [List.flatten_cons, List.map_append, List.nodup_append] at hnodup
    obtain ⟨hbatch, hrest, hdisjoint⟩ := hnodup
    have hwaiting : ∀ t ∈ batch, Waiting s t := fun t ht =>
      hb.waiting t (List.mem_append_left _ ht)
    have hmem : ∀ id, id ∈ batch.reverse.map Ticket.id ++ s.started ↔
        id ∈ batch.map Ticket.id ∨ id ∈ s.started := by
      intro id
      rw [List.mem_append, List.map_reverse, List.mem_reverse]
    refine ⟨⟨h.frame, h.ids, ?_, ?_, ?_, ?_, ?_, ?_, ?_, ?_, ?_⟩, ?_⟩
    · -- once
      refine List.nodup_append.mpr ⟨?_, h.once, ?_⟩
      · rw [List.map_reverse, List.nodup_reverse]
        exact hbatch
      · rintro x hx y hy rfl
        rw [List.map_reverse, List.mem_reverse] at hx
        obtain ⟨t, ht, rfl⟩ := List.mem_map.mp hx
        exact (hwaiting t ht).unstarted hy
    · -- known
      intro id hid
      rcases (hmem id).mp hid with hid | hid
      · obtain ⟨t, ht, rfl⟩ := List.mem_map.mp hid
        obtain ⟨u, hu, hut, -⟩ := (hwaiting t ht).row
        exact ⟨u, hu, hut⟩
      · exact h.known id hid
    · -- agentsOnce
      show ((batch.map fun t => (⟨t, .starting⟩ : SubAgent)).map fun a => a.ticket.id).Nodup
      rw [List.map_map]
      exact hbatch
    · -- agentsStarted
      intro a ha
      obtain ⟨t, ht, rfl⟩ := List.mem_map.mp ha
      exact (hmem t.id).mpr (Or.inl (List.mem_map_of_mem ht))
    · -- calm
      intro a ha
      obtain ⟨t, ht, rfl⟩ := List.mem_map.mp ha
      rfl
    · -- unstarted
      intro t ht hid
      exact h.unstarted t ht fun hold => hid ((hmem t.id).mpr (Or.inr hold))
    · -- running
      intro t ht a ha hid
      obtain ⟨b, hbmem, rfl⟩ := List.mem_map.mp ha
      have hid : b.id = t.id := hid
      exact h.unstarted t ht (hid ▸ (hwaiting b hbmem).unstarted)
    · -- settled
      intro t ht hid hno
      rcases (hmem t.id).mp hid with hid | hid
      · obtain ⟨b, hbmem, hbid⟩ := List.mem_map.mp hid
        exact absurd hbid (hno ⟨b, .starting⟩ (List.mem_map_of_mem hbmem))
      · exact h.settled_of_allEnded hended ht hid
    · -- dependencies
      intro t ht hid
      rcases (hmem t.id).mp hid with hid | hid
      · obtain ⟨b, hbmem, hbid⟩ := List.mem_map.mp hid
        obtain ⟨u, hu, hub, hdeps⟩ := (hwaiting b hbmem).row
        have hut : u = t := eq_of_id h.ids hu ht (hub.trans hbid)
        rw [← hut, hdeps]
        exact (hwaiting b hbmem).dependencies
      · exact h.dependencies t ht hid
    · -- the batches after it
      show Batches _ rest
      refine ⟨hrest, fun t ht => ?_, fun b hbmem => hb.nonempty b (List.mem_cons_of_mem _ hbmem)⟩
      have hw := hb.waiting t (List.mem_append_right _ ht)
      refine ⟨fun hid => ?_, hw.row, hw.dependencies⟩
      rcases (hmem t.id).mp hid with hid | hid
      · exact hdisjoint _ hid _ (List.mem_map_of_mem ht) rfl
      · exact hw.unstarted hid

/-- the batches of the tickets that are ready -/
theorem batches_chunk (config : AgentConfig) (h : Core drafted s) (hended : AllEnded s)
    {tickets : List Ticket} (hperm : tickets.Perm s.ledger.tickets) {batches : List (List Ticket)}
    (hchunk : chunk (computeReadyBatch tickets) config.maxConcurrentSubAgents = .ok batches) :
    Batches s batches := by
  have hids : (tickets.map Ticket.id).Nodup := (hperm.map Ticket.id).nodup_iff.mpr h.ids
  have hflatten := flatten_chunk config.subAgents_pos hchunk
  refine ⟨?_, fun t ht => ?_, ne_nil_of_mem_chunk config.subAgents_pos hchunk⟩
  · rw [hflatten]
    exact hids.sublist (List.Sublist.map _ List.filter_sublist)
  · rw [hflatten] at ht
    obtain ⟨ht, hpending, hdeps⟩ := (mem_computeReadyBatch hids).mp ht
    have hrow := hperm.mem_iff.mp ht
    refine ⟨fun hstarted => ?_, ⟨t, hrow, rfl, rfl⟩, fun depId hd => isDone_perm hperm (hdeps depId hd)⟩
    have hshows := h.settled_of_allEnded hended hrow hstarted
    rw [hpending] at hshows
    exact not_shows_ended_pending hshows

theorem exhausted_of_ready_nil (h : Core drafted s) {tickets : List Ticket}
    (hperm : tickets.Perm s.ledger.tickets) (hready : (computeReadyBatch tickets).length = 0) :
    Exhausted s.ledger.tickets := by
  have hids : (tickets.map Ticket.id).Nodup := (hperm.map Ticket.id).nodup_iff.mpr h.ids
  intro t ht hpending hdeps
  have hmem : t ∈ computeReadyBatch tickets := (mem_computeReadyBatch hids).mpr
    ⟨hperm.mem_iff.mpr ht, hpending, fun depId hd => isDone_perm hperm.symm (hdeps depId hd)⟩
  rw [List.length_eq_zero_iff.mp hready] at hmem
  cases hmem

/-! ## statements of the sub-agents -/

section

variable {a : SubAgent} {l' : Ledger} {p : SubAgentPhase} {f : Ticket → Ticket}

/-- the row of a sub-agent that is still at work is not done, so that what is done stays so -/
theorem isDone_stepped (h : Core drafted s) (ha : a ∈ s.agents) (hs : Stepped a s.ledger l' p f)
    {depId : Option TicketId} (hd : IsDone s.ledger.tickets depId) : IsDone l'.tickets depId := by
  obtain ⟨t, ht, hid, hstatus⟩ := hd
  have hne : t.id ≠ a.ticket.id := by
    intro heq
    have hshows := h.running t ht a ha heq.symm
    rw [hstatus] at hshows
    exact hs.undone hshows
  obtain ⟨t', ht', -, hsame⟩ := hs.row_of_mem ht
  rw [hsame hne] at ht'
  exact ⟨t, ht', hid, hstatus⟩

theorem core_statement (h : Core drafted s) (ha : a ∈ s.agents)
    (hs : Stepped a s.ledger l' p f) : Core drafted { s with
      ledger := l', agents := Orchestration.setPhase s.agents a.ticket.id p } := by
  refine ⟨hs.map_fixed.trans h.frame, hs.map_id ▸ h.ids, h.once, ?_, ?_, ?_, ?_, ?_, ?_, ?_, ?_⟩
  · -- known
    intro id hid
    obtain ⟨t, ht, rfl⟩ := h.known id hid
    obtain ⟨t', ht', hfixed, -⟩ := hs.row_of_mem ht
    exact ⟨t', ht', id_of_fixed hfixed⟩
  · -- agentsOnce
    show ((Orchestration.setPhase s.agents a.ticket.id p).map _).Nodup
    rw [map_id_setPhase]
    exact h.agentsOnce
  · -- agentsStarted
    intro b hb
    obtain ⟨c, hc, hticket, -⟩ := mem_setPhase hb
    rw [hticket]
    exact h.agentsStarted c hc
  · -- calm
    intro b hb
    obtain ⟨c, hc, -, hp, hsame⟩ := mem_setPhase hb
    by_cases hid : c.ticket.id = a.ticket.id
    · rw [hp hid]
      exact hs.calm
    · rw [hsame hid]
      exact h.calm c hc
  · -- unstarted
    intro t' ht' hnot
    obtain ⟨t, ht, hfixed, -, hsame⟩ := hs.row ht'
    have hid : t'.id = t.id := id_of_fixed hfixed
    have hne : t.id ≠ a.ticket.id := by
      intro heq
      exact hnot (hid ▸ heq ▸ h.agentsStarted a ha)
    rw [hsame hne]
    exact h.unstarted t ht (hid ▸ hnot)
  · -- running
    intro t' ht' b hb hbid
    obtain ⟨t, ht, hfixed, hf, hsame⟩ := hs.row ht'
    have hid : t'.id = t.id := id_of_fixed hfixed
    obtain ⟨c, hc, hticket, hp, hold⟩ := mem_setPhase hb
    rw [hticket, hid] at hbid
    by_cases hca : c.ticket.id = a.ticket.id
    · rw [hp hca, hf (hbid.symm.trans hca)]
      exact hs.shows t (h.running t ht a ha (hca.symm.trans hbid))
    · rw [hold hca, hsame fun heq => hca (hbid.trans heq)]
      exact h.running t ht c hc hbid
  · -- settled
    intro t' ht' hstarted hno
    obtain ⟨t, ht, hfixed, -, hsame⟩ := hs.row ht'
    have hid : t'.id = t.id := id_of_fixed hfixed
    have hnone : ∀ c ∈ s.agents, c.ticket.id ≠ t.id := by
      intro c hc hct
      obtain ⟨b, hb, hbticket⟩ : ∃ b ∈ Orchestration.setPhase s.agents a.ticket.id p,
          b.ticket.id = c.ticket.id := by
        have hmem : c.ticket.id ∈ (Orchestration.setPhase s.agents a.ticket.id p).map
            fun a => a.ticket.id := by
          rw [map_id_setPhase]
          exact List.mem_map_of_mem hc
        exact List.mem_map.mp hmem
      exact hno b hb (hbticket.trans (hct.trans hid.symm))
    rw [hsame fun heq => hnone a ha heq.symm]
    exact h.settled t ht (hid ▸ hstarted) hnone
  · -- dependencies
    intro t' ht' hstarted depId hd
    obtain ⟨t, ht, hfixed, -⟩ := hs.row ht'
    have hid : t'.id = t.id := id_of_fixed hfixed
    have hdeps : t'.dependsOn = t.dependsOn := dependsOn_of_fixed hfixed
    exact isDone_stepped h ha hs (h.dependencies t ht (hid ▸ hstarted) depId (hdeps ▸ hd))

/-- a sub-agent that is still at work belongs to a batch that the loop awaits -/
theorem awaiting_of_stepped (h : Inv drafted s) (ha : a ∈ s.agents)
    (hs : Stepped a s.ledger l' p f) : ∃ rest, s.loop = .awaiting rest := by
  have hbusy : ¬ AllEnded s := by
    intro hended
    have hcost := hs.cost
    rw [hended a ha] at hcost
    cases hcost
  have hloop := h.loop
  unfold LoopInv at hloop
  cases hphase : s.loop with
  | awaiting rest => exact ⟨rest, rfl⟩
  | checking tickets =>
    rw [hphase] at hloop
    exact absurd hloop.2 hbusy
  | rereading =>
    rw [hphase] at hloop
    exact absurd hloop hbusy
  | returned killed =>
    rw [hphase] at hloop
    exact absurd hloop.2.1 hbusy
  | threw message =>
    rw [hphase] at hloop
    cases hloop

/-- the batches after it go on waiting -/
theorem inv_statement (h : Inv drafted s) (ha : a ∈ s.agents) (hs : Stepped a s.ledger l' p f) :
    Inv drafted { s with
      ledger := l', agents := Orchestration.setPhase s.agents a.ticket.id p } := by
  refine ⟨core_statement h.core ha hs, ?_⟩
  obtain ⟨rest, hphase⟩ := awaiting_of_stepped h ha hs
  have hloop := h.loop
  unfold LoopInv at hloop ⊢
  rw [hphase] at hloop
  simp only [hphase]
  refine ⟨hloop.once, fun t ht => ?_, hloop.nonempty⟩
  have hw := hloop.waiting t ht
  obtain ⟨u, hu, hut, hdeps⟩ := hw.row
  obtain ⟨u', hu', hfixed, -⟩ := hs.row_of_mem hu
  refine ⟨hw.unstarted, ⟨u', hu', ?_, ?_⟩, fun depId hd =>
    isDone_stepped h.core ha hs (hw.dependencies depId hd)⟩
  · exact (id_of_fixed hfixed).trans hut
  · exact (dependsOn_of_fixed hfixed).trans hdeps

end

end

/-! ## what a step can be -/

section

variable (config : AgentConfig) {s t : Orchestration}

theorem allEnded_of_all (h : (s.agents.all fun a => a.phase = .ended) = true) : AllEnded s :=
  fun a ha => of_decide_eq_true (List.all_eq_true.mp h a ha)

theorem step_isActive (h : s.step config (.isActive false) = some t) :
    ∃ tickets, s.loop = .checking tickets ∧
      ((computeReadyBatch tickets).length = 0 ∧ t = { s with loop := .returned false } ∨
        (computeReadyBatch tickets).length ≠ 0 ∧ ∃ batches,
          chunk (computeReadyBatch tickets) config.maxConcurrentSubAgents = .ok batches ∧
            t = s.nextBatch batches) := by
  cases hphase : s.loop with
  | checking tickets =>
    simp only [Orchestration.step, hphase, Bool.false_eq_true, if_false] at h
    refine ⟨tickets, rfl, ?_⟩
    by_cases hready : (computeReadyBatch tickets).length = 0
    · rw [if_pos hready] at h
      cases h
      exact Or.inl ⟨hready, rfl⟩
    · rw [if_neg hready, chunk_ok _ config.subAgents_pos] at h
      cases h
      exact Or.inr ⟨hready, _, chunk_ok _ config.subAgents_pos, rfl⟩
  | _ => simp only [Orchestration.step, hphase, reduceCtorEq] at h

theorem step_statement {ticketId : TicketId} {reply : AgentReply}
    (h : s.step config (.statement ticketId reply) = some t) :
    ∃ a ∈ s.agents, ∃ l' p, a.step s.ledger reply = some (l', p) ∧
      t = { s with ledger := l', agents := Orchestration.setPhase s.agents a.ticket.id p } := by
  simp only [Orchestration.step] at h
  cases hfind : s.agents.find? fun a => a.ticket.id = ticketId with
  | none => simp only [hfind, reduceCtorEq] at h
  | some a =>
    have hfound := List.find?_some hfind
    have hid : a.ticket.id = ticketId := of_decide_eq_true hfound
    cases hagent : a.step s.ledger reply with
    | none => simp only [hfind, hagent, reduceCtorEq] at h
    | some next =>
      simp only [hfind, hagent] at h
      cases h
      exact ⟨a, List.mem_of_find?_eq_some hfind, next.1, next.2, hagent, by rw [hid]⟩

theorem step_settled (h : s.step config .settled = some t) :
    ∃ rest, s.loop = .awaiting rest ∧ AllEnded s ∧ t = s.nextBatch rest := by
  cases hphase : s.loop with
  | awaiting rest =>
    simp only [Orchestration.step, hphase] at h
    obtain ⟨hall, h⟩ := Option.ite_none_right_eq_some.mp h
    cases h
    exact ⟨rest, rfl, allEnded_of_all hall, rfl⟩
  | _ => simp only [Orchestration.step, hphase, reduceCtorEq] at h

theorem step_rejected {ticketId : TicketId} (h : s.step config (.rejected ticketId) = some t) :
    ∃ a ∈ s.agents, a.phase.rejects = true := by
  cases hphase : s.loop with
  | awaiting rest =>
    simp only [Orchestration.step, hphase] at h
    cases hfind : s.agents.find? fun a => a.ticket.id = ticketId with
    | none => simp only [hfind, Option.map_none, reduceCtorEq] at h
    | some a =>
      refine ⟨a, List.mem_of_find?_eq_some hfind, ?_⟩
      cases hagent : a.phase with
      | threw => rfl
      | crashed message => rfl
      | _ => simp only [hfind, Option.map_some, hagent, reduceCtorEq] at h
  | _ => simp only [Orchestration.step, hphase, reduceCtorEq] at h

theorem step_getTickets {rows : List Ticket} (h : s.step config (.getTickets rows) = some t) :
    s.loop = .rereading ∧ rows.Perm s.ledger.tickets ∧ t = { s with loop := .checking rows } := by
  cases hphase : s.loop with
  | rereading =>
    simp only [Orchestration.step, hphase] at h
    obtain ⟨hperm, h⟩ := Option.ite_none_right_eq_some.mp h
    cases h
    exact ⟨rfl, hperm, rfl⟩
  | _ => simp only [Orchestration.step, hphase, reduceCtorEq] at h

end

/-! ## every step -/

/-- the answers of an inactive kill switch and of a ledger without failures -/
def Action.calm : Action → Prop
  | .isActive active => active = false
  | .statement _ reply => reply.calm
  | .isActiveThrew _ | .getTicketsThrew _ => False
  | _ => True

instance decidableReplyCalm : DecidablePred AgentReply.calm
  | .turn reply => inferInstanceAs (Decidable (reply ≠ .killSwitchActive))
  | .threw _ => instDecidableFalse
  | .done | .rows _ => instDecidableTrue

instance decidableCalm : DecidablePred Action.calm
  | .isActive active => inferInstanceAs (Decidable (active = false))
  | .statement _ reply => inferInstanceAs (Decidable reply.calm)
  | .isActiveThrew _ | .getTicketsThrew _ => instDecidableFalse
  | .settled | .rejected _ | .getTickets _ => instDecidableTrue

/-- what is still to come: of the sub-agents at work, of the tickets not started, of the loop -/
def potential (drafted : List Ticket) (s : Orchestration) : Nat :=
  match s.loop with
  | .checking _ => 9 * (drafted.length - s.started.length) + 1
  | .awaiting _ => totalCost s.agents + 9 * (drafted.length - s.started.length) + 3
  | .rereading => 9 * (drafted.length - s.started.length) + 2
  | _ => 0

section

variable {drafted : List Ticket} {s t : Orchestration}

theorem length_tickets (h : Core drafted s) : s.ledger.tickets.length = drafted.length := by
  have hlength := congrArg List.length h.frame
  rwa [List.length_map, List.length_map] at hlength

theorem started_le (h : Core drafted s) : s.started.length ≤ drafted.length := by
  have hsub : s.started ⊆ s.ledger.tickets.map Ticket.id := by
    intro id hid
    obtain ⟨t, ht, rfl⟩ := h.known id hid
    exact List.mem_map_of_mem ht
  have hle := (List.subperm_of_subset h.once hsub).length_le
  rwa [List.length_map, length_tickets h] at hle

theorem totalCost_starting (batch : List Ticket) :
    totalCost (batch.map fun t => ⟨t, .starting⟩) = 6 * batch.length := by
  rw [totalCost, List.map_map]
  induction batch with
  | nil => rfl
  | cons t batch ih =>
    rw [List.map_cons, List.sum_cons, ih, List.length_cons]
    show 6 + _ = _
    omega

/-- the batches to come cost no more than their tickets were counted for -/
theorem potential_nextBatch {batches : List (List Ticket)}
    (hb : Batches s batches) (h : Core drafted (s.nextBatch batches)) :
    potential drafted (s.nextBatch batches) ≤ 9 * (drafted.length - s.started.length) + 2 ∧
      (batches ≠ [] →
        potential drafted (s.nextBatch batches) ≤ 9 * (drafted.length - s.started.length)) := by
  cases batches with
  | nil => exact ⟨Nat.le_refl _, fun hne => absurd rfl hne⟩
  | cons batch rest =>
    have hpos : 0 < batch.length := List.length_pos_iff.mpr (hb.nonempty batch List.mem_cons_self)
    have hle := started_le h
    have hlength : (s.nextBatch (batch :: rest)).started.length
        = batch.length + s.started.length := by
      show (batch.reverse.map Ticket.id ++ s.started).length = _
      rw [List.length_append, List.length_map, List.length_reverse]
    have hpotential : potential drafted (s.nextBatch (batch :: rest))
        = 6 * batch.length + 9 * (drafted.length - (batch.length + s.started.length)) + 3 := by
      rw [← totalCost_starting, ← hlength]
      rfl
    rw [hlength] at hle
    rw [hpotential]
    constructor
    · omega
    · intro _
      omega

/-- one step keeps the invariant and lowers what is still to come -/
theorem inv_step (config : AgentConfig) {action : Action} (h : Inv drafted s) (hcalm : action.calm)
    (hstep : s.step config action = some t) :
    Inv drafted t ∧ potential drafted t + 1 ≤ potential drafted s := by
  have hloop := h.loop
  unfold LoopInv at hloop
  cases action with
  | isActive active =>
    have hactive : active = false := hcalm
    subst hactive
    obtain ⟨tickets, hphase, hcases⟩ := step_isActive config hstep
    have hbefore : potential drafted s = 9 * (drafted.length - s.started.length) + 1 := by
      rw [potential, hphase]
    simp only [hphase] at hloop
    obtain ⟨hperm, hended⟩ := hloop
    rcases hcases with ⟨hready, rfl⟩ | ⟨hready, batches, hchunk, rfl⟩
    · have hexhausted := exhausted_of_ready_nil h.core hperm hready
      refine ⟨⟨h.core.setLoop _, rfl, hended, hexhausted⟩, ?_⟩
      rw [hbefore]
      exact Nat.le_add_left _ _
    · have hbatches := batches_chunk config h.core hended hperm hchunk
      have hinv := inv_nextBatch h.core hended hbatches
      have hne : batches ≠ [] := by
        rintro rfl
        exact hready (congrArg List.length (flatten_chunk config.subAgents_pos hchunk).symm)
      have hpotential := (potential_nextBatch hbatches hinv.core).2 hne
      exact ⟨hinv, by omega⟩
  | statement ticketId reply =>
    obtain ⟨a, ha, l', p, hagent, rfl⟩ := step_statement config hstep
    obtain ⟨f, hs⟩ := stepped_of_step hcalm hagent
    obtain ⟨rest, hphase⟩ := awaiting_of_stepped h ha hs
    have hcost := totalCost_setPhase h.core.agentsOnce ha rfl hs.cost
    refine ⟨inv_statement h ha hs, ?_⟩
    simp only [potential, hphase]
    omega
  | settled =>
    obtain ⟨rest, hphase, hended, rfl⟩ := step_settled config hstep
    simp only [hphase] at hloop
    have hinv := inv_nextBatch h.core hended hloop
    have hpotential := (potential_nextBatch hloop hinv.core).1
    have hbefore : potential drafted s
        = totalCost s.agents + 9 * (drafted.length - s.started.length) + 3 := by
      rw [potential, hphase]
    exact ⟨hinv, by omega⟩
  | rejected ticketId =>
    obtain ⟨a, ha, hrejects⟩ := step_rejected config hstep
    rw [h.core.calm a ha] at hrejects
    cases hrejects
  | isActiveThrew message => cases hcalm
  | getTicketsThrew message => cases hcalm
  | getTickets rows =>
    obtain ⟨hphase, hperm, rfl⟩ := step_getTickets config hstep
    simp only [hphase] at hloop
    refine ⟨⟨h.core.setLoop _, hperm, hloop⟩, ?_⟩
    have hbefore : potential drafted s = 9 * (drafted.length - s.started.length) + 2 := by
      rw [potential, hphase]
    rw [hbefore]
    exact Nat.le_refl _

end

/-! ## runs -/

theorem map_id_createTickets (runId : JsString) (ids : List TicketId)
    (drafts : List DecomposedTicketDraft) (h : ids.length = drafts.length) :
    (createTickets runId ids drafts).map Ticket.id = ids := by
  rw [createTickets]
  generalize idAt ids = deps
  induction ids generalizing drafts with
  | nil => rfl
  | cons id ids ih =>
    cases drafts with
    | nil => cases h
    | cons draft drafts =>
      rw [List.zipWith_cons_cons, List.map_cons, ih drafts (Nat.succ.inj h)]

theorem status_createTickets {runId : JsString} {ids : List TicketId}
    {drafts : List DecomposedTicketDraft} {t : Ticket} (h : t ∈ createTickets runId ids drafts) :
    t.status = .pending := by
  rw [createTickets] at h
  generalize idAt ids = deps at h
  induction ids generalizing drafts with
  | nil => cases h
  | cons id ids ih =>
    cases drafts with
    | nil => cases h
    | cons draft drafts =>
      rcases List.mem_cons.mp h with rfl | h
      · rfl
      · exact ih h

theorem length_createTickets (runId : JsString) {ids : List TicketId}
    {drafts : List DecomposedTicketDraft} (h : ids.length = drafts.length) :
    (createTickets runId ids drafts).length = drafts.length := by
  rw [createTickets, List.length_zipWith, h, Nat.min_self]

theorem inv_initial (runId : JsString) {drafts : List DecomposedTicketDraft}
    (fresh : FreshIds drafts.length) :
    Inv (createTickets runId fresh.ids drafts) (.initial runId fresh) := by
  have hids := map_id_createTickets runId fresh.ids drafts fresh.length_eq
  refine ⟨⟨rfl, hids ▸ fresh.nodup, List.nodup_nil, ?_, List.nodup_nil, ?_, ?_, ?_, ?_, ?_, ?_⟩,
    List.Perm.refl _, ?_⟩
  · exact fun id hid => absurd hid List.not_mem_nil
  · exact fun a ha => absurd ha List.not_mem_nil
  · exact fun a ha => absurd ha List.not_mem_nil
  · exact fun t ht _ => status_createTickets ht
  · exact fun t _ a ha => absurd ha List.not_mem_nil
  · exact fun t _ hid => absurd hid List.not_mem_nil
  · exact fun t _ hid => absurd hid List.not_mem_nil
  · exact fun a ha => absurd ha List.not_mem_nil

/-- a sub-agent that has not ended has a statement to send -/
theorem exists_agentStep (l : Ledger) {a : SubAgent} (hended : a.phase ≠ .ended)
    (hcalm : a.phase.rejects = false) :
    ∃ reply : AgentReply, reply.calm ∧ (a.step l reply).isSome = true := by
  obtain ⟨ticket, phase⟩ := a
  cases phase with
  | reading =>
    refine ⟨.rows l.tickets, True.intro, ?_⟩
    simp only [SubAgent.step, List.Perm.refl, if_true, Option.isSome_some]
  | turning history => exact ⟨.turn (.threw (lit "")), by rintro ⟨⟩, rfl⟩
  | ended => exact absurd rfl hended
  | threw => cases hcalm
  | crashed message => cases hcalm
  | _ => exact ⟨.done, True.intro, rfl⟩

/-- a loop that has not returned can go on -/
theorem exists_step (config : AgentConfig) {drafted : List Ticket} {s : Orchestration}
    (h : Inv drafted s) (hloop : s.loop ≠ .returned false) :
    ∃ action : Action, action.calm ∧ (s.step config action).isSome = true := by
  have hinv := h.loop
  unfold LoopInv at hinv
  cases hphase : s.loop with
  | checking tickets =>
    refine ⟨.isActive false, rfl, ?_⟩
    simp only [Orchestration.step, hphase, Bool.false_eq_true, if_false]
    split
    · rfl
    · rw [chunk_ok _ config.subAgents_pos]
      rfl
  | awaiting rest =>
    by_cases hall : (s.agents.all fun a => a.phase = .ended) = true
    · refine ⟨.settled, True.intro, ?_⟩
      simp only [Orchestration.step, hphase]
      rw [if_pos hall]
      rfl
    · obtain ⟨b, hb, hbusy⟩ : ∃ a ∈ s.agents, a.phase ≠ .ended := by
        simpa using hall
      have hfind : (s.agents.find? fun a => a.ticket.id = b.ticket.id) = some b :=
        Table.find?_key h.core.agentsOnce hb
      obtain ⟨reply, hcalm, hsome⟩ := exists_agentStep s.ledger hbusy (h.core.calm b hb)
      obtain ⟨next, hnext⟩ := Option.isSome_iff_exists.mp hsome
      refine ⟨.statement b.ticket.id reply, hcalm, ?_⟩
      simp only [Orchestration.step, hfind, hnext]
      rfl
  | rereading =>
    refine ⟨.getTickets s.ledger.tickets, True.intro, ?_⟩
    simp only [Orchestration.step, hphase]
    rw [if_pos (List.Perm.refl _)]
    rfl
  | returned killed =>
    rw [hphase] at hinv hloop
    exact absurd (congrArg LoopPhase.returned hinv.1) hloop
  | threw message =>
    rw [hphase] at hinv
    cases hinv

/-- what holds of the starts in every state of a run -/
structure InOrder (s : Orchestration) : Prop where
  once : s.started.Nodup
  dependencies : ∀ t ∈ s.ledger.tickets, t.id ∈ s.started →
    ∀ depId ∈ t.dependsOn, IsDone s.ledger.tickets depId
  ready : s.loop = .returned false → ∀ t ∈ s.ledger.tickets,
    (∀ depId ∈ t.dependsOn, IsDone s.ledger.tickets depId) → t.id ∈ s.started
  blocked : s.loop = .returned false → ∀ t ∈ s.ledger.tickets, t.id ∉ s.started →
    ∀ rows, rows.Perm s.ledger.tickets → ∀ reconciliation,
      computeRunStatus rows reconciliation = .blocked

theorem Inv.inOrder {drafted : List Ticket} {s : Orchestration} (h : Inv drafted s) : InOrder s where
  once := h.core.once
  dependencies := h.core.dependencies
  ready hreturned t ht hdeps := by
    have hloop := h.loop
    unfold LoopInv at hloop
    rw [hreturned] at hloop
    by_contra hnot
    exact hloop.2.2 t ht (h.core.unstarted t ht hnot) hdeps
  blocked _ t ht hnot _ hperm reconciliation :=
    computeRunStatus_pending (hperm.mem_iff.mpr ht) (h.core.unstarted t ht hnot) reconciliation

/-- **A run ends, in order.**  Whatever the drafts depend on and however their sub-agents end and
interleave: each ticket is started at most once, after its dependencies are done; no run takes more
than `9 n + 1` steps for `n` drafts, and it stops only where the loop has returned; then every
ticket whose dependencies are done was started, and a ticket that was not blocks the run. -/
theorem orchestration_in_order (config : AgentConfig) (runId : JsString)
    (drafts : List DecomposedTicketDraft) (fresh : FreshIds drafts.length) (actions : List Action)
    (hcalm : ∀ action ∈ actions, action.calm) (s : Orchestration)
    (hrun : Runs.run (Orchestration.step config) (.initial runId fresh) actions = some s) :
    InOrder s ∧ actions.length ≤ 9 * drafts.length + 1 ∧
      ((∀ action : Action, action.calm → s.step config action = none) →
        s.loop = .returned false) := by
  have hinitial := inv_initial runId fresh
  have hguarded : Runs.Guarded (Orchestration.step config) (fun _ action => action.calm)
      (.initial runId fresh) actions := Runs.guarded_of_forall actions _ hcalm
  have hinv : Inv (createTickets runId fresh.ids drafts) s :=
    Runs.run_inv_guarded (fun s a t hs ha ht => (inv_step config hs ha ht).1) actions _ s hinitial
      hguarded hrun
  have hlength := Runs.length_add_le (fun s a t hs ha ht => inv_step config hs ha ht) actions _ s
    hinitial hguarded hrun
  refine ⟨hinv.inOrder, ?_, fun hstuck => ?_⟩
  · have hpotential : potential (createTickets runId fresh.ids drafts) (.initial runId fresh)
        = 9 * (createTickets runId fresh.ids drafts).length + 1 := rfl
    have hdrafts := length_createTickets runId fresh.length_eq
    omega
  · by_contra hloop
    obtain ⟨action, hcalm, hsome⟩ := exists_step config hinv hloop
    rw [hstuck action hcalm] at hsome
    cases hsome

/-! ## a run of two tickets -/

def sampleConfig : AgentConfig where
  maxIterationsPerTurn := 1
  maxConsecutiveToolFailures := 1
  maxConcurrentSubAgents := 1
  iterations_pos := Nat.one_pos
  failures_pos := Nat.one_pos
  subAgents_pos := Nat.one_pos

/-- the second draft depends on itself, and on a draft that does not exist -/
def sampleDrafts : List DecomposedTicketDraft :=
  [⟨lit "Leer correos", [lit "readEmails"], []⟩, ⟨lit "Resumir", [], [1, 5]⟩]

def sampleIds : FreshIds sampleDrafts.length where
  ids := [lit "t0", lit "t1"]
  nodup := by decide
  length_eq := rfl

def sampleRows (status : AgentTicketStatus) (subAgent result : Option JsString) : List Ticket :=
  [⟨lit "t0", lit "run", lit "Leer correos", status, subAgent, [lit "readEmails"], [], result⟩,
    ⟨lit "t1", lit "run", lit "Resumir", .pending, none, [], [some (lit "t1"), none], none⟩]

def sampleResult : AgentTurnResult where
  finalResponse := lit "3 correos"
  plan := ⟨[]⟩
  pendingApprovals := []
  iterationsUsed := 1
  modelsUsed := []

def sampleActions : List Action :=
  [.isActive false, .statement (lit "t0") .done, .statement (lit "t0") .done,
    .statement (lit "t0") (.rows (sampleRows .inProgress (some (lit "t0")) none)),
    .statement (lit "t0") (.turn (.returned sampleResult)), .statement (lit "t0") .done,
    .statement (lit "t0") .done, .settled,
    .getTickets (sampleRows .done (some (lit "t0")) (some (lit "3 correos"))).reverse,
    .isActive false]

def sampleEnd : Orchestration where
  ledger := ⟨sampleRows .done (some (lit "t0")) (some (lit "3 correos")),
    [⟨lit "t0", .subAgent, some (lit "t0"), .result, lit "3 correos"⟩]⟩
  loop := .returned false
  agents := [⟨⟨lit "t0", lit "run", lit "Leer correos", .pending, none, [lit "readEmails"], [],
    none⟩, .ended⟩]
  started := [lit "t0"]

theorem orchestration_in_order_sample : InOrder sampleEnd ∧ 10 ≤ 9 * sampleDrafts.length + 1 := by
  have h := orchestration_in_order sampleConfig (lit "run") sampleDrafts sampleIds sampleActions
    (by decide) sampleEnd (by decide)
  exact ⟨h.1, h.2.1⟩

end Orchestrator
