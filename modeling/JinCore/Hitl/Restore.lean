import JinCore.Hitl.AtMostOnce
import JinCore.Hitl.Sweep

/-!
# What a failed audit leaves of the row

A rejection and an expiry claim the row, append, and release the claim if the append fails.  The claim
clears `execution_error` as well as setting `executing_at`, and the release puts back only one of them.

* `AuditsAt`                 a call that awaits the append about a request it has claimed;
* `RestoreFact`, `restoreFact_run`   the row at each statement of a rejection on its own;
* `sweepFact_run`            the rows at each statement of a sweep on its own;
* `failed_audit_restores_iff`, `error_forgotten`.
-/

namespace Hitl
open JsString Common Tools Audit Runs PendingApprovals

/-- the statement awaited is the append about the request -/
def AuditsAt (r : JsString) : Pc → Prop
  | .reject q _ (.audit _) => q.uuid = r
  | .sweep _ (.audit row _ _) => row.requestId = r
  | _ => False

/-- the row of a request that nobody else writes while it is rejected -/
def RestoreFact (r : JsString) (x : PendingApprovalRow) (p : PendingApprovals) : RejectPc → Prop
  | .getPending | .claim _ _ => p.getPending r = some x
  | .audit _ => ∃ clock, p.getPending r = some (setExecuting clock x)
  | .stuckAudit _ | .stuckRemove _ => False
  | .auditRelease | .remove => True

section
variable {tools : JsString → Option ToolDefinition} {s t u : System} {id : CallId} {r : JsString}
  {p : PendingApprovals} {x : PendingApprovalRow} {q : RequestId} {approver : JsString}

theorem restoreFact_go (hx : x.executingAt = none) (hq : q.uuid = r) (reply : Reply)
    {pc pc' : RejectPc} (h : RestoreFact r x p pc)
    (hnext : (reject p id q approver reply pc).next = .goto pc') :
    RestoreFact r x (reject p id q approver reply pc).pending pc' := by
  subst hq
  cases pc with
  | getPending =>
    have hget : p.getPending q.uuid = some x := h
    rw [reject, hget] at hnext ⊢
    split at hnext
    next hfate =>
      cases hnext
      rw [if_pos hfate]
      exact hget
    next => cases hnext
  | claim pending now =>
    have hclaim := claimForExecution_of_free now h hx
    rw [reject] at hnext ⊢
    cases hfate : reply.fate with
    | lost =>
      rw [hfate, Move.claim] at hnext
      cases hnext
    | applied =>
      rw [hfate] at hnext
      simp only [Move.claim, hclaim] at hnext
      cases hnext
    | ok =>
      rw [hfate] at hnext
      simp only [Move.claim, hclaim] at hnext ⊢
      cases hnext
      exact ⟨now, getPending_updated (setExecuting now) _ h⟩
  | stuckAudit pending => exact h.elim
  | stuckRemove now => exact h.elim
  | audit row =>
    simp only [reject, Move.audit] at hnext
    split at hnext <;> cases hnext <;> trivial
  | auditRelease =>
    simp only [reject, Move.release, ite_self] at hnext
    cases hnext
  | remove =>
    simp only [reject, Move.remove] at hnext
    split at hnext <;> cases hnext

theorem stepWith_reject (tools : JsString → Option ToolDefinition) (reply : Reply) {pc : RejectPc}
    (hpc : s.pc id = .reject q approver pc) : stepWith tools s (.go id reply)
      = some (s.apply id (.reject q approver) (reject s.pending id q approver reply pc)) := by
  rw [stepWith.eq_def]
  simp only [hpc]
  rw [step, hpc]

/-- the row at every statement of a rejection on its own -/
theorem restoreFact_run (hx : x.executingAt = none) (hq : q.uuid = r) :
    ∀ (replies : List Reply) (s : System) (pc pc' : RejectPc), s.pc id = .reject q approver pc →
      RestoreFact r x s.pending pc → run (stepWith tools) s (replies.map (.go id)) = some u →
        u.pc id = .reject q approver pc' → RestoreFact r x u.pending pc' := by
  intro replies
  induction replies with
  | nil =>
    intro s pc pc' hpc hfact hrun hpc'
    cases hrun
    cases hpc.symm.trans hpc'
    exact hfact
  | cons reply replies ih =>
    intro s pc pc' hpc hfact hrun hpc'
    rw [List.map_cons, run_cons, stepWith_reject tools reply hpc, Option.bind_some] at hrun
    have hnow := apply_pc s id (.reject q approver) (reject s.pending id q approver reply pc)
    cases hnext : (reject s.pending id q approver reply pc).next with
    | goto pc'' =>
      rw [hnext] at hnow
      exact ih _ pc'' pc' hnow (restoreFact_go hx hq reply hfact hnext) hrun hpc'
    | finish outcome =>
      rw [hnext] at hnow
      cases run_done hnow hrun
      cases hrun
      cases hnow.symm.trans hpc'

/-- the rows at every statement of a sweep on its own -/
theorem sweepFact_run (now : Int) (rows : List PendingApprovalRow)
    (hkeys : (rows.map PendingApprovalRow.requestId).Nodup) :
    ∀ (replies : List Reply) (s : System) (pc pc' : SweepPc) (told : List Event),
      s.pc id = .sweep now pc → SweepFact tools rows now s.pending told pc →
        run (stepWith tools) s (replies.map (.go id)) = some u → u.pc id = .sweep now pc' →
          ∃ told', SweepFact tools rows now u.pending told' pc' := by
  intro replies
  induction replies with
  | nil =>
    intro s pc pc' told hpc hfact hrun hpc'
    cases hrun
    cases hpc.symm.trans hpc'
    exact ⟨told, hfact⟩
  | cons reply replies ih =>
    intro s pc pc' told hpc hfact hrun hpc'
    rw [List.map_cons, run_cons, stepWith_sweep tools reply hpc, Option.bind_some] at hrun
    have hgoes := sweepFact_go hkeys id reply hfact
    have hnow := apply_pc s id (.sweep now) (sweepWith tools s.pending id now reply pc)
    generalize (sweepWith tools s.pending id now reply pc).next = next at hgoes hnow
    cases hgoes with
    | on pc'' hfate hfact' hback => exact ih _ pc'' pc' _ hnow hfact' hrun hpc'
    | back pre y rest hy hfate hsplit =>
      exact ih _ _ pc' _ hnow (.auditRelease pre y rest hsplit) hrun hpc'
    | swept hfate hall =>
      cases run_done hnow hrun
      cases hrun
      cases hnow.symm.trans hpc'
    | unread hselect hfate hall =>
      cases run_done hnow hrun
      cases hrun
      cases hnow.symm.trans hpc'
    | stopped pre y rest hy hfate hsplit =>
      cases run_done hnow hrun
      cases hrun
      cases hnow.symm.trans hpc'

/-- the call that stands at a statement -/
def Pc.op : Pc → Option Op
  | .create input _ => some (.createPendingApproval input)
  | .approve q approver _ => some (.resolveAndExecute q approver)
  | .reject q approver _ => some (.resolveRejection q approver)
  | .sweep now _ => some (.sweep now)
  | .idle | .done _ => none

theorem op_toPc {π : Type} {op : Option Op} (f : π → Pc) (hf : ∀ pc, (f pc).op = op)
    (next : Next π) : (∃ outcome, next.toPc f = .done outcome) ∨ (next.toPc f).op = op := by
  cases next with
  | goto pc => exact Or.inr (hf pc)
  | finish outcome => exact Or.inl ⟨outcome, rfl⟩

/-- a call that goes on is the same call, or over -/
theorem op_go {reply : Reply} (h : stepWith tools s (.go id reply) = some t) :
    (∃ outcome, t.pc id = .done outcome) ∨ (t.pc id).op = (s.pc id).op := by
  rw [stepWith.eq_def] at h
  simp only at h
  split at h
  next now pc hpc =>
    cases h
    rw [apply_pc, hpc]
    exact op_toPc (.sweep now) (fun _ => rfl) _
  next =>
    cases step_moved h with
    | create _ _ input pc m hs hm ht =>
      rw [ht, apply_pc, hs]
      exact op_toPc (.create input) (fun _ => rfl) _
    | approve _ _ q approver pc hs ht =>
      rw [ht, apply_pc, hs]
      exact op_toPc (.approve q approver) (fun _ => rfl) _
    | reject _ _ q approver pc hs ht =>
      rw [ht, apply_pc, hs]
      exact op_toPc (.reject q approver) (fun _ => rfl) _
    | sweep _ _ now pc hs ht =>
      rw [ht, apply_pc, hs]
      exact op_toPc (.sweep now) (fun _ => rfl) _

theorem op_run {replies : List Reply} {op : Op} (hs : (s.pc id).op = some op)
    (hrun : run (stepWith tools) s (replies.map (.go id)) = some u) :
    (∃ outcome, u.pc id = .done outcome) ∨ (u.pc id).op = some op := by
  refine run_inv_guarded (P := fun t => (∃ outcome, t.pc id = .done outcome) ∨ (t.pc id).op = some op)
    (G := fun _ l => ∃ reply, l = .go id reply) ?_ _ s u (Or.inr hs) ?_ hrun
  · rintro t l v ht ⟨reply, rfl⟩ hstep
    rcases ht with ⟨outcome, hdone⟩ | hop
    · rw [stepWith.eq_def] at hstep
      simp only [hdone, step] at hstep
      cases hstep
    · rw [← hop]
      exact op_go hstep
  · refine guarded_of_forall _ s fun l hl => ?_
    obtain ⟨reply, _, rfl⟩ := List.mem_map.mp hl
    exact ⟨reply, rfl⟩

/-- at the append the row is the one before, claimed -/
theorem claimed_of_auditsAt {op : Op} {replies : List Reply} (hrow : s.pending.getPending r = some x)
    (hfree : x.executingAt = none)
    (hrun : run (stepWith tools) s (.begin id op :: replies.map (.go id)) = some u)
    (haudit : AuditsAt r (u.pc id)) :
    ∃ clock, u.pending.getPending r = some (setExecuting clock x) := by
  obtain ⟨v, hbegin, hrest⟩ := run_cons_some.mp hrun
  obtain ⟨hstart, hpending⟩ : v.pc id = Pc.start op ∧ v.pending = s.pending := by
    cases step_moved (l := .begin id op) hbegin with
    | begun id op hidle hv =>
      rw [hv]
      exact ⟨if_pos rfl, rfl⟩
  have hop : (u.pc id).op = some op := by
    have hstartOp : (v.pc id).op = some op := by
      rw [hstart]
      cases op <;> rfl
    rcases op_run hstartOp hrest with ⟨outcome, hdone⟩ | hop
    · rw [hdone] at haudit
      exact haudit.elim
    · exact hop
  cases hpc : u.pc id with
  | reject q approver pc =>
    rw [hpc] at haudit hop
    cases hop
    cases pc with
    | audit row =>
      exact restoreFact_run hfree haudit replies v .getPending (.audit row) hstart
        (show v.pending.getPending r = some x by rw [hpending, hrow]) hrest hpc
    | _ => exact haudit.elim
  | sweep now pc =>
    rw [hpc] at haudit hop
    cases hop
    cases pc with
    | audit row rest status =>
      obtain ⟨told, hfact⟩ := sweepFact_run now v.pending.table.rows v.pending.table.nodup replies v
        .select (.audit row rest status) [] hstart (.select rfl (accounts_untouched _)) hrest hpc
      cases hfact with
      | audit pre row rest clock hsplit hclaimed hdue =>
        have hmem : row ∈ v.pending.table.rows := by
          rw [hsplit.split]
          exact List.mem_append_right _ List.mem_cons_self
        have hget : v.pending.getPending r = some row := Table.get_eq_some_iff.mpr ⟨hmem, haudit⟩
        rw [hpending, hrow] at hget
        cases hget
        have haccount := account_row hclaimed
        rw [show x.requestId = r from haudit] at haccount
        exact ⟨clock, haccount⟩
    | _ => exact haudit.elim
  | _ =>
    rw [hpc] at haudit
    exact haudit.elim

/-- the release puts back the row exactly where there was no error to forget -/
theorem released_eq_iff {clock : Int} (hfree : x.executingAt = none) :
    setReleased none (setExecuting clock x) = x ↔ x.executionError = none := by
  constructor
  · intro h
    rw [← h]
    rfl
  · intro h
    obtain ⟨⟩ := x
    cases hfree
    cases h
    rfl

/-- a failed append is followed by the release, and that by the end -/
theorem release_after (haudit : AuditsAt r (u.pc id)) (failed release : Reply)
    (hfailed : failed.fate ≠ .ok) :
    ∃ t, run (stepWith tools) u [.go id failed, .go id release] = some t ∧
      t.pc id = .done .failed ∧
      t.pending = if release.fate.applies then u.pending.releaseClaim r none else u.pending := by
  cases hpc : u.pc id with
  | reject q approver pc =>
    rw [hpc] at haudit
    cases pc with
    | audit row =>
      have hfirst := stepWith_reject tools failed hpc
      have hnext : ((u.apply id (.reject q approver)
          (reject u.pending id q approver failed (.audit row))).pc id)
            = .reject q approver .auditRelease := by
        rw [apply_pc]
        simp only [reject, Move.audit, if_neg hfailed]
        rfl
      refine ⟨_, run_cons_some.mpr ⟨_, hfirst, run_cons_some.mpr
        ⟨_, stepWith_reject tools release hnext, rfl⟩⟩, ?_, ?_⟩
      · rw [apply_pc]
        simp only [reject, Move.release, ite_self]
        rfl
      · rw [← show q.uuid = r from haudit]
        rfl
    | _ => exact haudit.elim
  | sweep now pc =>
    rw [hpc] at haudit
    cases pc with
    | audit row rest status =>
      have hfirst := stepWith_sweep tools failed hpc
      have hnext : ((u.apply id (.sweep now)
          (sweepWith tools u.pending id now failed (.audit row rest status))).pc id)
            = .sweep now (.auditRelease row) := by
        rw [apply_pc]
        simp only [sweepWith, sweep, Move.audit, if_neg hfailed]
        rfl
      refine ⟨_, run_cons_some.mpr ⟨_, hfirst, run_cons_some.mpr
        ⟨_, stepWith_sweep tools release hnext, rfl⟩⟩, ?_, ?_⟩
      · rw [apply_pc]
        simp only [sweepWith, sweep, Move.release, ite_self]
        rfl
      · rw [← show row.requestId = r from haudit]
        rfl
    | _ => exact haudit.elim
  | _ =>
    rw [hpc] at haudit
    exact haudit.elim

/-- **When a failed audit restores the row.**  For a rejection or an expiry on its own: exactly where the
row bears no error of an earlier execution and the release takes effect. -/
theorem failed_audit_restores_iff (tools : JsString → Option ToolDefinition) {s u : System}
    {id : CallId} {r : JsString} {x : PendingApprovalRow} {op : Op} {replies : List Reply}
    (hrow : s.pending.getPending r = some x) (hfree : x.executingAt = none)
    (hrun : run (stepWith tools) s (.begin id op :: replies.map (.go id)) = some u)
    (haudit : AuditsAt r (u.pc id)) (failed release : Reply) (hfailed : failed.fate ≠ .ok) :
    ∃ t, run (stepWith tools) u [.go id failed, .go id release] = some t ∧
      t.pc id = .done .failed ∧
      (t.pending.getPending r = some x ↔ x.executionError = none ∧ release.fate.applies = true) := by
  obtain ⟨clock, hclaimed⟩ := claimed_of_auditsAt hrow hfree hrun haudit
  obtain ⟨t, ht, hdone, hpending⟩ := release_after haudit failed release hfailed
  refine ⟨t, ht, hdone, ?_⟩
  by_cases happlies : release.fate.applies = true
  · have hget : t.pending.getPending r = some (setReleased none (setExecuting clock x)) := by
      rw [hpending, if_pos happlies]
      exact getPending_updated (setReleased none) _ hclaimed
    rw [hget, Option.some.injEq, released_eq_iff hfree]
    exact (and_iff_left happlies).symm
  · have hget : t.pending.getPending r = some (setExecuting clock x) := by
      rw [hpending, if_neg happlies]
      exact hclaimed
    rw [hget, Option.some.injEq]
    refine iff_of_false (fun h => ?_) fun h => happlies h.2
    rw [← h] at hfree
    cases hfree

end

/-! ## an action that has failed once -/

/-- call 1 executes and its action fails; the error stays with the row -/
def failedAction : List Label :=
  creation .confirm ++ [approval 1, okAt 1 10, okAt 1 11, okAt 1 12, okAt 1 13, okAt 1 14,
    .go 1 ⟨15, .lost, lit "502"⟩, okAt 1 16, okAt 1 17]

/-- the replies of a rejection up to its append -/
def rejectionReplies : List Reply := [⟨20, .ok, lit ""⟩, ⟨21, .ok, lit ""⟩]

/-- the request of `creation` before anything has failed -/
theorem failed_audit_restores_fresh :
    ∃ s u t, run step System.init (creation .confirm) = some s ∧
      run (stepWith getToolDefinition) s
        (.begin 2 (.resolveRejection sampleRequest (lit "owner")) :: rejectionReplies.map (.go 2))
          = some u ∧
      run (stepWith getToolDefinition) u [lostAt 2 22, okAt 2 23] = some t ∧
      t.pending.getPending sampleRequest.uuid = s.pending.getPending sampleRequest.uuid := by
  obtain ⟨s, hs, hrow⟩ : ∃ s, run step System.init (creation .confirm) = some s ∧
      s.pending.getPending sampleRequest.uuid = some (newRow (sampleInput .confirm) 0) :=
    ⟨_, rfl, by decide⟩
  obtain ⟨u, hu, haudit⟩ : ∃ u, run (stepWith getToolDefinition) s
      (.begin 2 (.resolveRejection sampleRequest (lit "owner")) :: rejectionReplies.map (.go 2))
        = some u ∧ AuditsAt sampleRequest.uuid (u.pc 2) := by
    cases hs
    exact ⟨_, rfl, rfl⟩
  obtain ⟨t, ht, -, hiff⟩ := failed_audit_restores_iff getToolDefinition hrow rfl hu haudit
    ⟨22, .lost, lit ""⟩ ⟨23, .ok, lit ""⟩ (by decide)
  exact ⟨s, u, t, hs, hu, ht, (hiff.mpr ⟨rfl, rfl⟩).trans hrow.symm⟩

/-- the error of the failed action is gone after a rejection that could not be audited -/
theorem error_forgotten :
    ¬ ∀ (s u : System) (id : CallId) (r : JsString) (x : PendingApprovalRow) (op : Op)
      (replies : List Reply) (failed release : Reply),
      s.pending.getPending r = some x → x.executingAt = none →
        run step s (.begin id op :: replies.map (.go id)) = some u → AuditsAt r (u.pc id) →
          failed.fate ≠ .ok → release.fate = .ok →
            ∃ t, run step u [.go id failed, .go id release] = some t ∧
              t.pending.getPending r = some x := by
  intro h
  obtain ⟨s, hs, hrow⟩ : ∃ s, run step System.init failedAction = some s ∧
      s.pending.getPending sampleRequest.uuid
        = some (setReleased (some (lit "502")) (newRow (sampleInput .confirm) 0)) :=
    ⟨_, rfl, by decide⟩
  obtain ⟨u, hu, haudit, hgone⟩ : ∃ u, run step s
      (.begin 2 (.resolveRejection sampleRequest (lit "owner")) :: rejectionReplies.map (.go 2))
        = some u ∧ AuditsAt sampleRequest.uuid (u.pc 2) ∧
      (run step u [lostAt 2 22, okAt 2 23]).map (fun t => t.pending.getPending sampleRequest.uuid)
        = some (some (newRow (sampleInput .confirm) 0)) := by
    cases hs
    exact ⟨_, rfl, rfl, by decide⟩
  obtain ⟨t, ht, hkept⟩ := h s u 2 _ _ _ rejectionReplies ⟨22, .lost, lit ""⟩ ⟨23, .ok, lit ""⟩ hrow rfl
    hu haudit (by decide) rfl
  have hlost : some (t.pending.getPending sampleRequest.uuid)
      = some (some (newRow (sampleInput .confirm) 0)) := by
    rw [← hgone]
    exact (congrArg (Option.map fun t : System => t.pending.getPending sampleRequest.uuid) ht).symm
  rw [hkept] at hlost
  cases hlost

end Hitl
