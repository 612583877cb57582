import JinCore.Hitl.AtMostOnce
import JinCore.HitlPolicy.Service
import JinCore.Orchestrator.Objective

/-!
# The material conflicts of a reconciliation (`orchestrator.service.ts`, `applyReconciliation`)

A conflict is escalated by the first of its tickets, at the level the policy decides; the level is
cast, stored as text and parsed only by `recordApproval`.

* `PolicyState`                        what `decide` meets when a conflict is escalated;
* `parsePendingLevel`, `recordApproval`   the stored level, and what an approval makes of it;
* `Escalates`                          one approval for each material conflict, and it can be resolved;
* `approvals_of_apply`                 the approvals are those of the conflicts with a first ticket;
* `conflicts_escalate_iff`, `conflict_dropped`.
-/

namespace Orchestrator
open JsString Common Tools Hitl FeatureFlags Autonomy PendingApprovals

/-- the configuration and the rows at a call of `decide` -/
structure PolicyState where
  config : AutonomyConfig
  flags : FeatureFlagsConfig
  overrides : Overrides
  read : HitlPolicy.Sight
  counted : HitlPolicy.Sight
  requestId : JsString

def PolicyState.decide (s : PolicyState) (payload : ConflictPayload) :
    Except JinError HitlDecision :=
  HitlPolicy.decide s.config s.flags s.overrides s.read s.counted s.requestId resolveConflictToolName
    payload

/-- no override in force makes the tool one that nobody approves -/
def PolicyState.Keeps (s : PolicyState) : Prop :=
  ∀ row, s.overrides resolveConflictToolName = some row →
    s.flags.declared resolveConflictToolName = some row.level →
      row.level = .confirm ∨ row.level = .dualConfirm

/-- `PendingApprovalLevelSchema.parse`: `none` where it throws -/
def parsePendingLevel (level : JsString) : Option PendingApprovalLevel :=
  if level = lit "confirm" then some .confirm
  else if level = lit "dual-confirm" then some .dualConfirm
  else none

/-- what `recordApproval` makes of a row and of the text in its column `level` -/
def recordApproval (level : JsString) (row : PendingApprovalRow) (now : Int) : Option ApprovalStep :=
  (parsePendingLevel level).map fun parsed => approvalStep { row with level := parsed } now

/-- at once, or by a second approval after the delay -/
def Resolvable (level : JsString) : Prop :=
  ∀ (row : PendingApprovalRow) (now : Int), row.firstApprovedAt = none →
    recordApproval level row now = some .resolved ∨
      (recordApproval level row now = some .first ∧
        ∀ (approver : JsString) (later : Int), computeAvailableAt now ≤ later →
          recordApproval level (setFirst now approver row) later = some .resolved)

/-- the conflicts of a level, with their places -/
def materials (i : Nat) (conflicts : List ReconciliationConflict) :
    List (Nat × ReconciliationConflict) :=
  ((conflicts.zipIdx i).map Prod.swap).filter fun c => c.2.riskLevel = .material

/-- an approval that asks the owner about a conflict -/
def ApprovalFor (w : ObjectiveWorld) (c : Nat × ReconciliationConflict)
    (approval : ConflictApproval) : Prop :=
  ∃ ticketId decision, primaryTicketId c.2 = some ticketId ∧ w.decide c.1 = .returned decision ∧
    approval = conflictApproval w.runId c.2 ticketId decision

/-- every material conflict has its approval, no approval is of another one, each can be resolved -/
structure Escalates (w : ObjectiveWorld) (conflicts : List ReconciliationConflict)
    (approvals : List ConflictApproval) : Prop where
  each : List.Forall₂ (ApprovalFor w) (materials 0 conflicts) approvals
  resolvable : ∀ approval ∈ approvals, Resolvable approval.level.text

/-! ## levels -/

section
variable {s : PolicyState} {payload : ConflictPayload} {decision : HitlDecision}

theorem resolvable_iff (level : HitlLevel) :
    Resolvable level.text ↔ level = .confirm ∨ level = .dualConfirm := by
  cases level with
  | auto =>
    refine iff_of_false (fun h => ?_) (by decide)
    rcases h (newRow (sampleInput .confirm) 0) 0 rfl with h | ⟨h, -⟩ <;> cases h
  | notify =>
    refine iff_of_false (fun h => ?_) (by decide)
    rcases h (newRow (sampleInput .confirm) 0) 0 rfl with h | ⟨h, -⟩ <;> cases h
  | confirm => exact iff_of_true (fun row now _ => Or.inl rfl) (Or.inl rfl)
  | dualConfirm =>
    refine iff_of_true (fun row now hrow => Or.inr ⟨?_, fun approver later hlater => ?_⟩) (Or.inr rfl)
    · show (some (approvalStep { row with level := .dualConfirm } now)) = _
      simp only [approvalStep, hrow]
    · show (some (approvalStep { setFirst now approver row with level := .dualConfirm } later)) = _
      exact congrArg some (if_pos (decide_eq_true hlater))

def resolveConflictTool : ToolDefinition where
  name := resolveConflictToolName
  hitlLevel := .confirm
  timeoutBehavior := some .discard
  humanDecision := true

theorem getToolDefinition_resolveConflict :
    getToolDefinition resolveConflictToolName = some resolveConflictTool := by decide

/-- no mode relaxes a decision that is a human's -/
theorem relaxed_resolveConflict (config : AutonomyConfig) (read counted : HitlPolicy.Sight)
    (decision : HitlDecision) :
    HitlPolicy.relaxed config read counted decision (some resolveConflictTool) = decision := by
  have hrelax := relaxDecision_cases decision (getState read.row read.now).mode
    (some resolveConflictTool)
  rcases hrelax with h | ⟨-, -, hhuman, -⟩
  · simp only [HitlPolicy.relaxed, h]
  · exact absurd rfl hhuman

/-- the level is the static one, or that of an override in force -/
theorem level_decide (h : s.decide payload = .ok decision) :
    (decision.level = .confirm ∨ decision.level = .dualConfirm) ↔ s.Keeps := by
  rw [PolicyState.decide, HitlPolicy.decide, HitlPolicy.classifyToolCall,
    getToolDefinition_resolveConflict] at h
  simp only [relaxed_resolveConflict, ite_self, Except.ok.injEq] at h
  rw [← h, resolveEffectiveLevel, PolicyState.Keeps]
  cases hdeclared : s.flags.declared resolveConflictToolName with
  | none =>
    simp only [show resolveConflictTool.name = resolveConflictToolName from rfl, hdeclared]
    exact iff_of_true (Or.inl rfl) (by rintro row - ⟨⟩)
  | some declared =>
    simp only [show resolveConflictTool.name = resolveConflictToolName from rfl, hdeclared]
    cases hrow : s.overrides resolveConflictToolName with
    | none => exact iff_of_true (Or.inl rfl) (by rintro row ⟨⟩)
    | some row =>
      simp only
      by_cases hlevel : row.level = declared
      · rw [if_neg (not_not_intro hlevel)]
        refine ⟨fun hkeeps row' hrow' _ => ?_, fun hkeeps => hkeeps row rfl (by rw [hlevel])⟩
        cases hrow'
        exact hkeeps
      · rw [if_pos hlevel]
        refine iff_of_true (Or.inl rfl) fun row' hrow' hdeclared' => ?_
        cases hrow'
        exact absurd (Option.some.inj hdeclared').symm hlevel

end

/-! ## the approvals of a reconciliation -/

section
variable {w : ObjectiveWorld}

theorem materials_cons (i : Nat) (conflict : ReconciliationConflict)
    (conflicts : List ReconciliationConflict) :
    materials i (conflict :: conflicts) =
      if conflict.riskLevel = .material then (i, conflict) :: materials (i + 1) conflicts
      else materials (i + 1) conflicts := by
  rw [materials, List.zipIdx_cons, List.map_cons, List.filter_cons]
  simp only [Prod.swap_prod_mk, decide_eq_true_eq]
  rfl

/-- the first list has its partners in the second -/
theorem exists_of_forall₂ {α β : Type} {R : α → β → Prop} {as : List α} {bs : List β}
    (h : List.Forall₂ R as bs) : ∀ a ∈ as, ∃ b ∈ bs, R a b := by
  induction h with
  | nil => exact fun a ha => absurd ha List.not_mem_nil
  | cons hab hrest ih =>
    intro a ha
    rcases List.mem_cons.mp ha with rfl | ha
    · exact ⟨_, List.mem_cons_self, hab⟩
    · obtain ⟨b, hb, hR⟩ := ih a ha
      exact ⟨b, List.mem_cons_of_mem _ hb, hR⟩

/-- one conflict adds the approval of its first ticket, if it has one -/
theorem approvals_of_conflict {i : Nat} {l : Ledger} {approvals : List ConflictApproval}
    {conflict : ReconciliationConflict} {next : Ledger × List ConflictApproval}
    (h : applyConflict w i l approvals conflict = .ok next) :
    next.2 = approvals ∧ (conflict.riskLevel = .low ∨ primaryTicketId conflict = none) ∨
      conflict.riskLevel = .material ∧
        ∃ approval, next.2 = approvals ++ [approval] ∧ ApprovalFor w (i, conflict) approval := by
  rw [applyConflict] at h
  cases hrisk : conflict.riskLevel with
  | low =>
    simp only [hrisk, bind_eq_ok] at h
    obtain ⟨l', -, h⟩ := h
    cases h
    exact Or.inl ⟨rfl, Or.inl rfl⟩
  | material =>
    simp only [hrisk] at h
    cases hprimary : primaryTicketId conflict with
    | none =>
      simp only [hprimary] at h
      cases h
      exact Or.inl ⟨rfl, Or.inr rfl⟩
    | some ticketId =>
      simp only [hprimary, bind_eq_ok] at h
      obtain ⟨decision, hdecide, _, -, l', -, h⟩ := h
      cases h
      exact Or.inr ⟨rfl, _, rfl, ticketId, decision, hprimary, decideConflict_ok.mp hdecide, rfl⟩

/-- the approvals are those of the material conflicts that have a first ticket, in their order -/
theorem approvals_of_apply {i : Nat} {l : Ledger} {approvals : List ConflictApproval}
    {conflicts : List ReconciliationConflict} {next : Ledger × List ConflictApproval}
    (h : applyReconciliation w i l approvals conflicts = .ok next) :
    ∃ added, next.2 = approvals ++ added ∧ List.Forall₂ (ApprovalFor w)
      ((materials i conflicts).filter fun c => (primaryTicketId c.2).isSome) added := by
  induction conflicts generalizing i l approvals with
  | nil =>
    cases h
    exact ⟨[], (List.append_nil _).symm, .nil⟩
  | cons conflict conflicts ih =>
    rw [applyReconciliation, bind_eq_ok] at h
    obtain ⟨applied, hfirst, hrest⟩ := h
    obtain ⟨added, hnext, hall⟩ := ih hrest
    rw [materials_cons]
    rcases approvals_of_conflict hfirst with ⟨happrovals, hskip⟩ |
      ⟨hmaterial, approval, happrovals, hfor⟩
    · refine ⟨added, by rw [hnext, happrovals], ?_⟩
      split
      next hmaterial =>
        have hprimary : primaryTicketId conflict = none :=
          hskip.resolve_left (by rw [hmaterial]; rintro ⟨⟩)
        rw [List.filter_cons_of_neg (by simp [hprimary])]
        exact hall
      next => exact hall
    · refine ⟨approval :: added, by rw [hnext, happrovals, List.append_assoc]; rfl, ?_⟩
      obtain ⟨ticketId, decision, hprimary, hrest'⟩ := hfor
      rw [if_pos hmaterial, List.filter_cons_of_pos (by simp [hprimary])]
      exact .cons ⟨ticketId, decision, hprimary, hrest'⟩ hall

/-- **When every material conflict reaches the owner.**  In a reconciliation that nothing interrupts:
exactly where each of them has a first ticket, and no override in force at its decision makes the tool
one that nobody approves. -/
theorem conflicts_escalate_iff (w : ObjectiveWorld) (policy : Nat → PolicyState)
    (hpolicy : ∀ i decision, w.decide i = .returned decision →
      ∃ payload, (policy i).decide payload = .ok decision)
    (l : Ledger) (conflicts : List ReconciliationConflict) (next : Ledger × List ConflictApproval)
    (happly : applyReconciliation w 0 l [] conflicts = .ok next) :
    Escalates w conflicts next.2 ↔
      ∀ c ∈ materials 0 conflicts, primaryTicketId c.2 ≠ none ∧ (policy c.1).Keeps := by
  obtain ⟨added, hadded, hall⟩ := approvals_of_apply happly
  rw [List.nil_append] at hadded
  rw [hadded]
  constructor
  · intro h c hc
    obtain ⟨approval, hmem, ticketId, decision, hprimary, hdecide, rfl⟩ :=
      exists_of_forall₂ h.each c hc
    obtain ⟨payload, hpayload⟩ := hpolicy c.1 decision hdecide
    refine ⟨by rw [hprimary]; exact Option.some_ne_none _, (level_decide hpayload).mp ?_⟩
    exact (resolvable_iff decision.level).mp (h.resolvable _ hmem)
  · intro h
    have hfilter : (materials 0 conflicts).filter (fun c => (primaryTicketId c.2).isSome)
        = materials 0 conflicts :=
      List.filter_eq_self.mpr fun c hc => Option.isSome_iff_ne_none.mpr (h c hc).1
    rw [hfilter] at hall
    refine ⟨hall, fun approval hmem => ?_⟩
    obtain ⟨c, hc, ticketId, decision, -, hdecide, rfl⟩ := exists_of_forall₂ hall.flip approval hmem
    obtain ⟨payload, hpayload⟩ := hpolicy c.1 decision hdecide
    exact (resolvable_iff decision.level).mpr ((level_decide hpayload).mpr (h c hc).2)

end

/-! ## a conflict without tickets -/

def vagueConflict : ReconciliationConflict :=
  ⟨[], lit "dos resúmenes incompatibles", .material, lit "preguntar"⟩

def supervisedPolicy : PolicyState :=
  ⟨.default, .empty, fun _ => none, ⟨none, 0⟩, ⟨none, 0⟩, sampleRequest.text⟩

/-- the policy of `supervisedPolicy`; nothing fails, and a ticket is known -/
def supervisedWorld : ObjectiveWorld :=
  { proseWorld with
    decide := fun _ => .returned
      ⟨sampleRequest.text, resolveConflictToolName, .confirm, 1, false, none⟩
    otherTickets := [lit "t1"] }

theorem supervisedWorld_decides (i : Nat) (decision : HitlDecision)
    (h : supervisedWorld.decide i = .returned decision) :
    ∃ payload, supervisedPolicy.decide payload = .ok decision := by
  cases h
  exact ⟨⟨lit "", lit "", lit "", lit ""⟩, rfl⟩

def knownConflict : ReconciliationConflict := { vagueConflict with ticketIds := [lit "t1"] }

theorem conflicts_escalate_known :
    ∃ next, applyReconciliation supervisedWorld 0 ⟨[], []⟩ [] [knownConflict] = .ok next ∧
      Escalates supervisedWorld [knownConflict] next.2 := by
  obtain ⟨next, hnext⟩ : ∃ next, applyReconciliation supervisedWorld 0 ⟨[], []⟩ [] [knownConflict]
      = .ok next := ⟨_, rfl⟩
  refine ⟨next, hnext, (conflicts_escalate_iff supervisedWorld (fun _ => supervisedPolicy)
    supervisedWorld_decides _ _ next hnext).mpr fun c hc => ?_⟩
  have hmaterials : materials 0 [knownConflict] = [(0, knownConflict)] := rfl
  rw [hmaterials, List.mem_singleton] at hc
  rw [hc]
  exact ⟨by decide, by rintro row ⟨⟩⟩

/-- it is said to block the run, and nobody is asked -/
theorem conflict_dropped :
    ¬ ∀ (w : ObjectiveWorld) (policy : Nat → PolicyState),
      (∀ i decision, w.decide i = .returned decision →
        ∃ payload, (policy i).decide payload = .ok decision) →
      ∀ (l : Ledger) (conflicts : List ReconciliationConflict)
        (next : Ledger × List ConflictApproval),
        applyReconciliation w 0 l [] conflicts = .ok next → Escalates w conflicts next.2 := by
  intro h
  have hdropped := h supervisedWorld (fun _ => supervisedPolicy) supervisedWorld_decides ⟨[], []⟩
    [vagueConflict] _ rfl
  cases hdropped.each

end Orchestrator
