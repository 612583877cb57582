import JinCore.Orchestrator.Ordered

/-!
# A killed run (`orchestrator.service.ts`)

`Promise.all` rejects with the first `KillSwitchActiveError` and the run is recorded as killed, while
the other sub-agents of the batch stand wherever they do.

* `KilledRun.step`      the loop and its sub-agents, the tools that they execute, and `completeRun`;
* `OneEach`             a sub-agent for each ticket, whatever is thrown; `oneEach_run`;
* `AtRest`, `awake_writes`   a sub-agent that is not at rest writes another comment;
* `killed_run_final_iff`, `killed_run_goes_on`.
-/

namespace Orchestrator
open JsString Common ModelProvider Agent

/-- where `runObjective` stands, from the loop on -/
inductive ObjectivePhase where
  | looping | returned | threw
  deriving DecidableEq, Repr

structure KilledRun where
  orchestration : Orchestration
  phase : ObjectivePhase
  /-- of the run's row -/
  status : AgentRunStatus
  /-- the tools that its sub-agents have executed, newest first -/
  executed : List (TicketId × ModelToolCall)
  deriving DecidableEq, Repr

inductive RunAction where
  | batches (action : Action)
  /-- a sub-agent executes a tool in its turn -/
  | execute (ticketId : TicketId) (call : ModelToolCall)
  | completeRun (fate : Fate)
  deriving DecidableEq, Repr

def SubAgentPhase.isTurn : SubAgentPhase → Bool
  | .turning _ => true
  | _ => false

namespace KilledRun

def step (config : AgentConfig) (s : KilledRun) : RunAction → Option KilledRun
  | .batches action =>
    (s.orchestration.step config action).map fun o => { s with orchestration := o }
  | .execute ticketId call =>
    match s.orchestration.agents.find? fun a => a.ticket.id = ticketId with
    | some a =>
      if a.phase.isTurn then some { s with executed := (ticketId, call) :: s.executed } else none
    | none => none
  | .completeRun fate =>
    if s.phase = .looping ∧ s.orchestration.loop = .returned true then
      some { s with
        phase := if fate = .ok then .returned else .threw
        status := if fate.applies then .killed else s.status }
    else none

def initial (runId : JsString) {drafts : List DecomposedTicketDraft}
    (fresh : FreshIds drafts.length) : KilledRun where
  orchestration := .initial runId fresh
  phase := .looping
  status := .running
  executed := []

end KilledRun

/-- no ticket has another status, there is no other comment and no other tool has been executed -/
structure Untouched (s s' : KilledRun) : Prop where
  statuses : s'.orchestration.ledger.tickets.map (fun t => (t.id, t.status))
    = s.orchestration.ledger.tickets.map fun t => (t.id, t.status)
  comments : s'.orchestration.ledger.comments = s.orchestration.ledger.comments
  executed : s'.executed = s.executed

/-- it has ended or thrown: nothing of it is to come -/
def SubAgentPhase.AtRest (p : SubAgentPhase) : Prop := p = .ended ∨ p.rejects = true

/-! ## one sub-agent for a ticket -/

/-- the rows that a batch is taken from, and the batches to come, have distinct ids -/
def LoopPhase.OneEach : LoopPhase → Prop
  | .checking tickets => (tickets.map Ticket.id).Nodup
  | .awaiting rest => (rest.flatten.map Ticket.id).Nodup
  | _ => True

structure OneEach (s : Orchestration) : Prop where
  rows : (s.ledger.tickets.map Ticket.id).Nodup
  agents : (s.agents.map fun a => a.ticket.id).Nodup
  loop : s.loop.OneEach

section
variable {config : AgentConfig} {s t : Orchestration} {a : SubAgent} {l l' : Ledger}
  {p : SubAgentPhase} {reply : AgentReply}

theorem map_id_update (l : Ledger) (ticketId : TicketId) {f : Ticket → Ticket}
    (hf : ∀ t, (f t).id = t.id) : (l.update ticketId f).tickets.map Ticket.id
      = l.tickets.map Ticket.id := by
  rw [Ledger.update, List.map_map]
  refine List.map_congr_left fun t _ => ?_
  show (if _ then f t else t).id = t.id
  split
  · exact hf t
  · rfl

/-- no statement gives a row another id, whether it succeeds or throws -/
theorem map_id_step (h : a.step l reply = some (l', p)) :
    l'.tickets.map Ticket.id = l.tickets.map Ticket.id := by
  obtain ⟨ticket, phase⟩ := a
  cases reply with
  | done =>
    cases phase with
    | starting | assigning | closing result | failing message =>
      cases h
      exact map_id_update l _ fun _ => rfl
    | commenting result | noting message =>
      cases h
      rfl
    | _ => cases h
  | rows tickets =>
    cases phase with
    | reading =>
      obtain ⟨-, h⟩ := Option.ite_none_right_eq_some.mp h
      cases h
      rfl
    | _ => cases h
  | turn reply =>
    cases phase with
    | turning history =>
      cases reply <;> cases h <;> rfl
    | _ => cases h
  | threw message =>
    cases phase with
    | starting | assigning | reading | commenting result | closing result | failing m | noting m =>
      cases h
      rfl
    | _ => cases h

theorem OneEach.nextBatch (h : OneEach s) {batches : List (List Ticket)}
    (hbatches : (batches.flatten.map Ticket.id).Nodup) : OneEach (s.nextBatch batches) := by
  cases batches with
  | nil => exact ⟨h.rows, h.agents, trivial⟩
  | cons batch rest =>
    rw [List.flatten_cons, List.map_append, List.nodup_append] at hbatches
    refine ⟨h.rows, ?_, hbatches.2.1⟩
    show ((batch.map fun t => (⟨t, .starting⟩ : SubAgent)).map fun a => a.ticket.id).Nodup
    rw [List.map_map]
    exact hbatches.1

theorem oneEach_step {action : Action} (h : OneEach s) (hstep : s.step config action = some t) :
    OneEach t := by
  cases action with
  | isActive active =>
    cases active with
    | true =>
      simp only [Orchestration.step] at hstep
      split at hstep
      · cases hstep
        exact ⟨h.rows, h.agents, trivial⟩
      · cases hstep
    | false =>
      obtain ⟨tickets, hloop, hnext | ⟨-, batches, hchunk, rfl⟩⟩ := step_isActive config hstep
      · rw [hnext.2]
        exact ⟨h.rows, h.agents, trivial⟩
      · have hids := h.loop
        rw [hloop] at hids
        refine h.nextBatch ?_
        rw [flatten_chunk config.subAgents_pos hchunk]
        exact hids.sublist (List.Sublist.map _ List.filter_sublist)
  | statement ticketId reply =>
    obtain ⟨a, -, l', p, hagent, rfl⟩ := step_statement config hstep
    refine ⟨?_, ?_, h.loop⟩
    · show (l'.tickets.map Ticket.id).Nodup
      rw [map_id_step hagent]
      exact h.rows
    · show ((Orchestration.setPhase s.agents a.ticket.id p).map _).Nodup
      rw [map_id_setPhase]
      exact h.agents
  | settled =>
    obtain ⟨rest, hloop, -, rfl⟩ := step_settled config hstep
    have hrest := h.loop
    rw [hloop] at hrest
    exact h.nextBatch hrest
  | rejected ticketId =>
    simp only [Orchestration.step] at hstep
    split at hstep
    · split at hstep <;> cases hstep <;> exact ⟨h.rows, h.agents, trivial⟩
    · cases hstep
  | getTickets rows =>
    obtain ⟨-, hperm, rfl⟩ := step_getTickets config hstep
    exact ⟨h.rows, h.agents, (hperm.map Ticket.id).nodup_iff.mpr h.rows⟩
  | isActiveThrew message =>
    simp only [Orchestration.step] at hstep
    split at hstep <;> cases hstep
    exact ⟨h.rows, h.agents, trivial⟩
  | getTicketsThrew message =>
    simp only [Orchestration.step] at hstep
    split at hstep <;> cases hstep
    exact ⟨h.rows, h.agents, trivial⟩

theorem oneEach_initial (runId : JsString) {drafts : List DecomposedTicketDraft}
    (fresh : FreshIds drafts.length) : OneEach (.initial runId fresh) := by
  have hids : ((createTickets runId fresh.ids drafts).map Ticket.id).Nodup := by
    rw [map_id_createTickets runId fresh.ids drafts fresh.length_eq]
    exact fresh.nodup
  exact ⟨hids, List.nodup_nil, hids⟩

end

/-! ## a sub-agent at rest, and one that is not -/

section
variable {config : AgentConfig} {a : SubAgent} {l : Ledger}

theorem step_atRest (h : a.phase.AtRest) (reply : AgentReply) : a.step l reply = none := by
  obtain ⟨ticket, phase⟩ := a
  rcases h with h | h
  · cases h
    cases reply <;> rfl
  · cases phase with
    | threw | crashed message => cases reply <;> rfl
    | _ => cases h

/-- how far a sub-agent is from its next comment -/
def SubAgentPhase.distance : SubAgentPhase → Nat
  | .starting => 6
  | .assigning => 5
  | .reading => 4
  | .turning _ | .closing _ => 3
  | .failing _ => 2
  | .commenting _ | .noting _ => 1
  | .ended | .threw | .crashed _ => 0

/-- a sub-agent that is not at rest writes a comment, or comes nearer to one -/
theorem exists_toward (l : Ledger) {a : SubAgent} (h : ¬ a.phase.AtRest) :
    ∃ reply l' p, a.step l reply = some (l', p) ∧ (l.comments.length < l'.comments.length ∨
      (l'.comments = l.comments ∧ p.distance < a.phase.distance ∧ ¬ p.AtRest)) := by
  obtain ⟨ticket, phase⟩ := a
  have hawake {p : SubAgentPhase} (hended : p ≠ .ended) (hcalm : p.rejects = false) :
      ¬ p.AtRest := by
    rintro (h | h)
    · exact hended h
    · rw [hcalm] at h
      cases h
  cases phase with
  | starting => exact ⟨.done, _, _, rfl, Or.inr ⟨rfl, Nat.lt_succ_self 5, hawake (by decide) rfl⟩⟩
  | assigning => exact ⟨.done, _, _, rfl, Or.inr ⟨rfl, Nat.lt_succ_self 4, hawake (by decide) rfl⟩⟩
  | reading =>
    refine ⟨.rows l.tickets, _, _, if_pos (List.Perm.refl _), Or.inr ⟨rfl, ?_, ?_⟩⟩
    · exact Nat.lt_succ_self 3
    · exact hawake (fun h => by cases h) rfl
  | turning history =>
    exact ⟨.turn (.threw (lit "")), _, _, rfl,
      Or.inr ⟨rfl, Nat.lt_succ_self 2, hawake (fun h => by cases h) rfl⟩⟩
  | closing result =>
    exact ⟨.threw (lit ""), _, _, rfl,
      Or.inr ⟨rfl, Nat.lt_succ_self 2, hawake (fun h => by cases h) rfl⟩⟩
  | failing message =>
    exact ⟨.done, _, _, rfl,
      Or.inr ⟨rfl, Nat.lt_succ_self 1, hawake (fun h => by cases h) rfl⟩⟩
  | commenting result =>
    refine ⟨.done, _, _, rfl, Or.inl ?_⟩
    show l.comments.length < (l.comments ++ [_]).length
    rw [List.length_append]
    exact Nat.lt_succ_self _
  | noting message =>
    refine ⟨.done, _, _, rfl, Or.inl ?_⟩
    show l.comments.length < (l.comments ++ [_]).length
    rw [List.length_append]
    exact Nat.lt_succ_self _
  | ended => exact absurd (Or.inl rfl) h
  | threw => exact absurd (Or.inr rfl) h
  | crashed message => exact absurd (Or.inr rfl) h

end

section
variable {config : AgentConfig} {s t : KilledRun}

/-- **a sub-agent that is not at rest writes another comment**, whatever the run has come to -/
theorem awake_writes (config : AgentConfig) (n : Nat) :
    ∀ (s : KilledRun) (a : SubAgent), OneEach s.orchestration → a ∈ s.orchestration.agents →
      ¬ a.phase.AtRest → a.phase.distance ≤ n →
      ∃ later s', Runs.run (KilledRun.step config) s later = some s' ∧
        s.orchestration.ledger.comments.length < s'.orchestration.ledger.comments.length := by
  induction n with
  | zero =>
    intro s a _ _ hawake hdistance
    obtain ⟨ticket, phase⟩ := a
    cases phase with
    | ended => exact absurd (Or.inl rfl) hawake
    | threw => exact absurd (Or.inr rfl) hawake
    | crashed message => exact absurd (Or.inr rfl) hawake
    | _ => exact absurd hdistance (Nat.not_succ_le_zero _)
  | succ n ih =>
    intro s a hone ha hawake hdistance
    obtain ⟨reply, l', p, hagent, hnext⟩ := exists_toward s.orchestration.ledger hawake
    let o : Orchestration := { s.orchestration with
      ledger := l'
      agents := Orchestration.setPhase s.orchestration.agents a.ticket.id p }
    have hstatement : s.orchestration.step config (.statement a.ticket.id reply) = some o := by
      have hfind : (s.orchestration.agents.find? fun b => b.ticket.id = a.ticket.id) = some a :=
        Table.find?_key hone.agents ha
      simp only [Orchestration.step, hfind, hagent]
      rfl
    have hstep : KilledRun.step config s (.batches (.statement a.ticket.id reply))
        = some { s with orchestration := o } := by
      rw [KilledRun.step, hstatement]
      rfl
    rcases hnext with hwritten | ⟨hcomments, hnearer, hawake'⟩
    · exact ⟨[_], _, Runs.run_cons_some.mpr ⟨_, hstep, rfl⟩, hwritten⟩
    · have ha' : { a with phase := p } ∈ o.agents := by
        refine List.mem_map.mpr ⟨a, ha, ?_⟩
        rw [if_pos rfl]
      obtain ⟨later, s', hrun, hlength⟩ := ih { s with orchestration := o } { a with phase := p }
        (oneEach_step hone hstatement) ha' hawake' (Nat.le_of_lt_succ (hnearer.trans_le hdistance))
      refine ⟨_ :: later, s', Runs.run_cons_some.mpr ⟨_, hstep, hrun⟩, ?_⟩
      rw [← hcomments]
      exact hlength

/-! ## the run -/

/-- what holds of every state of a run: one that has returned came from a loop that was killed, and
its row says so -/
structure RunInv (s : KilledRun) : Prop where
  one : OneEach s.orchestration
  killed : s.phase = .returned → s.orchestration.loop = .returned true
  recorded : s.phase = .returned → s.status = .killed

/-- a loop that has returned stays so -/
theorem loop_returned {o o' : Orchestration} {killed : Bool} {action : Action}
    (h : o.loop = .returned killed) (hstep : o.step config action = some o') :
    o'.loop = .returned killed := by
  cases action with
  | statement ticketId reply =>
    obtain ⟨a, -, l', p, -, rfl⟩ := step_statement config hstep
    exact h
  | _ => simp only [Orchestration.step, h, reduceCtorEq] at hstep

theorem runInv_step {action : RunAction} (h : RunInv s)
    (hstep : KilledRun.step config s action = some t) : RunInv t := by
  cases action with
  | batches action =>
    obtain ⟨o, ho, rfl⟩ := Option.map_eq_some_iff.mp hstep
    exact ⟨oneEach_step h.one ho, fun hreturned => loop_returned (h.killed hreturned) ho, h.recorded⟩
  | execute ticketId call =>
    simp only [KilledRun.step] at hstep
    split at hstep
    · split at hstep <;> cases hstep
      exact ⟨h.one, h.killed, h.recorded⟩
    · cases hstep
  | completeRun fate =>
    obtain ⟨hlooping, hstep⟩ := Option.ite_none_right_eq_some.mp hstep
    cases hstep
    refine ⟨h.one, fun _ => hlooping.2, fun hreturned => ?_⟩
    have hfate : fate = .ok := by
      by_contra hfate
      change (if fate = .ok then ObjectivePhase.returned else .threw) = _ at hreturned
      rw [if_neg hfate] at hreturned
      cases hreturned
    rw [hfate]
    rfl

theorem runInv_run {runId : JsString} {drafts : List DecomposedTicketDraft}
    {fresh : FreshIds drafts.length} {actions : List RunAction}
    (hrun : Runs.run (KilledRun.step config) (.initial runId fresh) actions = some s) : RunInv s :=
  Runs.run_inv (P := RunInv) (fun _ _ _ h hstep => runInv_step h hstep) actions _ s
    ⟨oneEach_initial runId fresh, (fun h => by cases h), fun h => by cases h⟩ hrun

/-- nothing can happen any more in a killed run that has returned with its sub-agents at rest -/
theorem step_quiet (h : RunInv s) (hreturned : s.phase = .returned)
    (hrest : ∀ a ∈ s.orchestration.agents, a.phase.AtRest) (action : RunAction) :
    KilledRun.step config s action = none := by
  have hloop := h.killed hreturned
  cases action with
  | batches action =>
    rw [KilledRun.step, Option.map_eq_none_iff]
    cases action with
    | statement ticketId reply =>
      cases hstep : s.orchestration.step config (.statement ticketId reply) with
      | none => rfl
      | some o =>
        obtain ⟨a, ha, l', p, hagent, -⟩ := step_statement config hstep
        rw [step_atRest (hrest a ha)] at hagent
        cases hagent
    | _ => simp only [Orchestration.step, hloop]
  | execute ticketId call =>
    simp only [KilledRun.step]
    split
    next a hfind =>
      have hturn : a.phase.isTurn = false := by
        obtain ⟨ticket, phase⟩ := a
        rcases hrest _ (List.mem_of_find?_eq_some hfind) with h | h
        · cases h
          rfl
        · cases phase with
          | turning history => cases h
          | _ => rfl
      rw [if_neg (by rw [hturn]; exact Bool.false_ne_true)]
    next => rfl
  | completeRun fate =>
    refine if_neg fun hlooping => ?_
    rw [hreturned] at hlooping
    cases hlooping.1

/-- **When a killed run is final.**  Whatever a run has done until it was recorded as killed and
returned: exactly where every sub-agent of the batch had ended or thrown by then. -/
theorem killed_run_final_iff (config : AgentConfig) (runId : JsString)
    {drafts : List DecomposedTicketDraft} (fresh : FreshIds drafts.length)
    (actions : List RunAction) (s : KilledRun)
    (hrun : Runs.run (KilledRun.step config) (.initial runId fresh) actions = some s)
    (hreturned : s.phase = .returned) :
    (∀ later s', Runs.run (KilledRun.step config) s later = some s' → Untouched s s') ↔
      ∀ a ∈ s.orchestration.agents, a.phase.AtRest := by
  have hinv := runInv_run hrun
  constructor
  · intro hfinal a ha
    by_contra hawake
    obtain ⟨later, s', hlater, hlength⟩ := awake_writes config _ s a hinv.one ha hawake (Nat.le_refl _)
    rw [(hfinal later s' hlater).comments] at hlength
    exact Nat.lt_irrefl _ hlength
  · intro hrest later s' hlater
    cases later with
    | nil =>
      cases hlater
      exact ⟨rfl, rfl, rfl⟩
    | cons action later =>
      obtain ⟨t, ht, -⟩ := Runs.run_cons_some.mp hlater
      rw [step_quiet hinv hreturned hrest] at ht
      cases ht

end

/-! ## two sub-agents, of which one meets the kill switch -/

section
def pairConfig : AgentConfig := { sampleConfig with maxConcurrentSubAgents := 2, subAgents_pos := by decide }

def pairDrafts : List DecomposedTicketDraft :=
  [⟨lit "Leer correos", [lit "readEmails"], []⟩, ⟨lit "Resumir", [], []⟩]

/-- there are two drafts as well -/
def pairIds : FreshIds pairDrafts.length := sampleIds

def pairRows : List Ticket :=
  [⟨lit "t0", lit "run", lit "Leer correos", .inProgress, some (lit "t0"), [lit "readEmails"], [], none⟩,
    ⟨lit "t1", lit "run", lit "Resumir", .inProgress, some (lit "t1"), [], [], none⟩]

/-- both are in their turns when the second one meets the kill switch -/
def pairTurning : List RunAction :=
  [.batches (.isActive false), .batches (.statement (lit "t0") .done),
    .batches (.statement (lit "t1") .done), .batches (.statement (lit "t0") .done),
    .batches (.statement (lit "t1") .done), .batches (.statement (lit "t0") (.rows pairRows)),
    .batches (.statement (lit "t1") (.rows pairRows)),
    .batches (.statement (lit "t1") (.turn .killSwitchActive))]

def recordKilled : List RunAction := [.batches (.rejected (lit "t1")), .completeRun .ok]

/-- the rest of the turn of the first one, with a tool call -/
def firstEnds : List RunAction :=
  [.execute (lit "t0") ⟨lit "c1", lit "readEmails", lit "\x7b\x7d"⟩,
    .batches (.statement (lit "t0") (.turn (.returned sampleResult))),
    .batches (.statement (lit "t0") .done), .batches (.statement (lit "t0") .done)]

abbrev pairRun (actions : List RunAction) : Option KilledRun :=
  Runs.run (KilledRun.step pairConfig) (.initial (lit "run") pairIds) actions

def atRest (s : KilledRun) : Bool :=
  s.orchestration.agents.all fun a => decide (a.phase = .ended) || a.phase.rejects

/-- the first one ends before the run is recorded -/
theorem killed_run_final_pair : ∃ s, pairRun (pairTurning ++ (firstEnds ++ recordKilled)) = some s ∧
    ∀ later s', Runs.run (KilledRun.step pairConfig) s later = some s' → Untouched s s' := by
  have hrun : (pairRun (pairTurning ++ (firstEnds ++ recordKilled))).map (fun s => (s.phase, atRest s))
      = some (.returned, true) := by decide
  obtain ⟨s, hs, hpair⟩ := Option.map_eq_some_iff.mp hrun
  rw [Prod.mk.injEq] at hpair
  refine ⟨s, hs, (killed_run_final_iff pairConfig (lit "run") pairIds _ s hs hpair.1).2 ?_⟩
  intro a ha
  have hrest := List.all_eq_true.mp hpair.2 a ha
  rwa [Bool.or_eq_true, decide_eq_true_eq] at hrest

/-- the run is recorded as killed and has returned, and the first one goes on -/
theorem killed_run_goes_on : ∃ s s', pairRun (pairTurning ++ recordKilled) = some s ∧
    s.phase = .returned ∧ s.status = .killed ∧
    Runs.run (KilledRun.step pairConfig) s firstEnds = some s' ∧
    s'.executed.length = s.executed.length + 1 ∧ ¬ Untouched s s' := by
  have hkilled : (pairRun (pairTurning ++ recordKilled)).map (fun s => (s.phase, s.status, s.executed))
      = some (.returned, .killed, []) := by decide
  have hlater : (pairRun ((pairTurning ++ recordKilled) ++ firstEnds)).map (fun s => s.executed.length)
      = some 1 := by decide
  obtain ⟨s', hs', hexecuted'⟩ := Option.map_eq_some_iff.mp hlater
  obtain ⟨s, hs, hrest⟩ := Runs.run_append_some.mp hs'
  rw [pairRun, hs, Option.map_some, Option.some.injEq, Prod.mk.injEq, Prod.mk.injEq] at hkilled
  obtain ⟨hphase, hstatus, hexecuted⟩ := hkilled
  refine ⟨s, s', hs, hphase, hstatus, hrest, ?_, fun huntouched => ?_⟩
  · rw [hexecuted', hexecuted]
    rfl
  · rw [huntouched.executed, hexecuted] at hexecuted'
    cases hexecuted'

end

end Orchestrator
