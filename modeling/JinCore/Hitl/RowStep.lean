import JinCore.Hitl.Calls

/-!
# What a statement can do to the row of a request

* `RowStep`                 all that a label can do to the row of a request and to a call's claim
                            on it;
* `rowStep_claim`, `rowStep_release`, `rowStep_remove`, `rowStep_audit`   the statements the calls
                            share;
* `rowStep_create`, `rowStep_approve`, `rowStep_reject`, `rowStep_sweep`, `rowStep_die`   the four
                            calls, and the death of any.
-/

namespace Hitl
open JsString Common Audit Runs Lease PendingApprovals

theorem execs_append (r : JsString) (h h' : List Event) :
    execs r (h ++ h') = execs r h ++ execs r h' := List.filterMap_append

/-! ## what a statement can do to one row -/

/-- how a call stands to the claim when it goes on or ends -/
def Next.stage {π : Type} (f : π → Option Stage) : Next π → Option Stage
  | .goto pc => f pc
  | .finish _ => none

/-- a label of the call `id` and the row of `r`; `before` and `after` say how the call stands to the
claim on the row -/
inductive RowStep (id : CallId) (r : JsString) (p p' : PendingApprovals)
    (before after : Option Stage) (events : List Event) : Prop
  | quiet (hg : p'.getPending r = p.getPending r) (hu : r ∈ p'.used ↔ r ∈ p.used)
      (hs : after = before) (he : execs r events = [])
  | born (input : CreatePendingApprovalInput) (now : Int) (hr : input.requestId.uuid = r)
      (hu : r ∉ p.used) (hu' : r ∈ p'.used) (hg : p'.getPending r = some (newRow input now))
      (hb : before = none) (ha : after = none) (he : execs r events = [])
  | first (now : Int) (approver : JsString) (row : PendingApprovalRow)
      (hg : p.getPending r = some row) (hf : row.firstApprovedAt = none)
      (hg' : p'.getPending r = some (setFirst now approver row)) (hu : r ∈ p'.used ↔ r ∈ p.used)
      (hb : before = none) (ha : after = none) (he : execs r events = [])
      (hev : .firstApproved id r now ∈ events)
  | escalate (now : Int) (hg : p'.getPending r = (p.getPending r).map (setEscalated now))
      (hu : r ∈ p'.used ↔ r ∈ p.used) (hb : before = none) (ha : after = none)
      (he : execs r events = [])
  | claim (now : Int) (row : PendingApprovalRow) (hg : p.getPending r = some row)
      (hx : row.executingAt = none) (hg' : p'.getPending r = some (setExecuting now row))
      (hu : r ∈ p'.used ↔ r ∈ p.used) (hb : before = none)
      (ha : after = none ∨ after = some .held) (he : execs r events = [])
  | release (error : Option JsString)
      (hg : p'.getPending r = (p.getPending r).map (setReleased error))
      (hu : r ∈ p'.used ↔ r ∈ p.used) (hb : before = some .held) (ha : after = none)
      (he : execs r events = [])
  | retire (st : Stage) (hst : st ≠ .running) (hg : p'.getPending r = none)
      (hu : r ∈ p'.used ↔ r ∈ p.used) (hb : before = some st) (ha : after = none)
      (he : execs r events = [])
  | leave (st : Stage) (hst : st ≠ .running) (hg : p'.getPending r = p.getPending r)
      (hu : r ∈ p'.used ↔ r ∈ p.used) (hb : before = some st) (ha : after = none)
      (he : execs r events = [])
  | evict (now : Int) (row : PendingApprovalRow) (hg : p.getPending r = some row)
      (hx : ∀ at_, row.executingAt = some at_ → at_ + stuckClaimAfterMs < now)
      (hg' : p'.getPending r = none) (hu : r ∈ p'.used ↔ r ∈ p.used) (hb : before = none)
      (ha : after = none) (he : execs r events = []) (hev : .evicted id r now ∈ events)
  | start (hg : p'.getPending r = p.getPending r) (hu : r ∈ p'.used ↔ r ∈ p.used)
      (hb : before = some .held) (ha : after = some .running)
      (he : execs r events = [⟨id, .started⟩])
  | succeed (hg : p'.getPending r = p.getPending r) (hu : r ∈ p'.used ↔ r ∈ p.used)
      (hb : before = some .running) (ha : after = some .spent)
      (he : execs r events = [⟨id, .succeeded⟩])
  | fail (hg : p'.getPending r = p.getPending r) (hu : r ∈ p'.used ↔ r ∈ p.used)
      (hb : before = some .running) (ha : after = some .held)
      (he : execs r events = [⟨id, .failed⟩])
  | interrupt (hg : p'.getPending r = p.getPending r) (hu : r ∈ p'.used ↔ r ∈ p.used)
      (hb : before = some .running) (ha : after = none)
      (he : execs r events = [⟨id, .interrupted⟩])

section
variable {π : Type} {f : π → Option Stage} {id : CallId} {r k : JsString} {p : PendingApprovals}
  {fate : Fate}

/-- a statement that needs no claim -/
theorem RowStep.free {p' : PendingApprovals} {q : RequestId} {st after : Option Stage}
    {events : List Event} (hst : st = none) (h : RowStep id r p p' none after events) :
    RowStep id r p p' (if q.uuid = r then st else none) after events := by
  rw [hst, ite_self]
  exact h

/-- a move that leaves the table and the claim alone -/
theorem rowStep_still {next : Next π} {events : List Event} {before : Option Stage}
    (hs : next.stage f = before) (he : execs r events = []) :
    RowStep id r p p before (next.stage f) events :=
  .quiet rfl Iff.rfl hs he

theorem rowStep_claim {now : Int} {won : PendingApprovalRow → π} {lost : Move π}
    (hwon : ∀ row, f (won row) = if k = r then some .held else none)
    (hlost : RowStep id r p lost.pending none (lost.next.stage f) lost.events) :
    RowStep id r p (Move.claim p id k now fate won lost).pending none
      ((Move.claim p id k now fate won lost).next.stage f)
      (Move.claim p id k now fate won lost).events := by
  rcases claimForExecution_cases p k now with ⟨row, hg, hx, hc⟩ | hc
  · have hget := getPending_update p k r (setExecuting now) fun _ => rfl
    cases fate with
    | lost => exact rowStep_still rfl rfl
    | ok =>
      simp only [Move.claim, hc, Next.stage, hwon]
      split
      next he =>
        subst he
        rw [if_pos rfl, hg] at hget
        exact .claim now row hg hx hget Iff.rfl rfl (Or.inr rfl) rfl
      next hne =>
        rw [if_neg (Ne.symm hne)] at hget
        exact .quiet hget Iff.rfl rfl rfl
    | applied =>
      simp only [Move.claim, hc, Move.fail, Next.stage]
      by_cases he : k = r
      · subst he
        rw [if_pos rfl, hg] at hget
        exact .claim now row hg hx hget Iff.rfl rfl (Or.inl rfl) rfl
      · rw [if_neg (Ne.symm he)] at hget
        exact .quiet hget Iff.rfl rfl rfl
  · cases fate with
    | lost => exact rowStep_still rfl rfl
    | ok =>
      simp only [Move.claim, hc]
      exact hlost
    | applied =>
      simp only [Move.claim, hc]
      exact rowStep_still rfl rfl

theorem rowStep_release {error : Option JsString} {next : Next π} (hnext : next.stage f = none) :
    RowStep id r p (Move.release p k error fate next).pending (if k = r then some .held else none)
      ((Move.release p k error fate next).next.stage f) (Move.release p k error fate next).events := by
  have hget := getPending_update p k r (setReleased error) fun _ => rfl
  have hafter : (Move.release p k error fate next).next.stage f = none := by
    show (if fate = .ok then next else .finish .failed).stage f = none
    split
    · exact hnext
    · rfl
  rw [hafter]
  by_cases he : k = r
  · subst he
    rw [if_pos rfl]
    rw [if_pos rfl] at hget
    by_cases ha : fate.applies
    · simp only [Move.release, if_pos ha]
      exact .release error hget Iff.rfl rfl rfl rfl
    · simp only [Move.release, if_neg ha]
      exact .leave .held (by decide) rfl Iff.rfl rfl rfl rfl
  · rw [if_neg he]
    rw [if_neg (Ne.symm he)] at hget
    by_cases ha : fate.applies
    · simp only [Move.release, if_pos ha]
      exact .quiet hget Iff.rfl rfl rfl
    · simp only [Move.release, if_neg ha]
      exact .quiet rfl Iff.rfl rfl rfl

theorem rowStep_remove {next lost : Next π} {events : List Event} {st : Stage}
    (hst : st ≠ .running) (hnext : next.stage f = none) (hlost : lost.stage f = none)
    (he : execs r events = []) :
    RowStep id r p (Move.remove p k fate next lost events).pending (if k = r then some st else none)
      ((Move.remove p k fate next lost events).next.stage f)
      (Move.remove p k fate next lost events).events := by
  have hget := getPending_removePending p k r
  have hafter : (Move.remove p k fate next lost events).next.stage f = none := by
    show (if fate = .ok then next else lost).stage f = none
    split
    · exact hnext
    · exact hlost
  have hev : execs r (Move.remove p k fate next lost events).events = [] := by
    show execs r (if fate = .ok then events else []) = []
    split
    · exact he
    · rfl
  rw [hafter]
  by_cases hk : k = r
  · subst hk
    rw [if_pos rfl]
    rw [if_pos rfl] at hget
    by_cases ha : fate.applies
    · refine .retire st hst ?_ ?_ rfl rfl hev
      · simp only [Move.remove, if_pos ha]
        exact hget
      · simp only [Move.remove, if_pos ha]
        exact Iff.rfl
    · refine .leave st hst ?_ ?_ rfl rfl hev <;> simp only [Move.remove, if_neg ha]
  · rw [if_neg hk]
    rw [if_neg (Ne.symm hk)] at hget
    by_cases ha : fate.applies
    · refine .quiet ?_ ?_ rfl hev
      · simp only [Move.remove, if_pos ha]
        exact hget
      · simp only [Move.remove, if_pos ha]
        exact Iff.rfl
    · refine .quiet ?_ ?_ rfl hev <;> simp only [Move.remove, if_neg ha]

theorem execs_audit {call : AuditCall} {row : Option PendingApprovalRow} {b : Bool} :
    execs r (if b then [.audited id call row] else []) = [] := by
  cases b <;> rfl

theorem rowStep_audit {call : AuditCall} {next lost : Next π} {before : Option Stage}
    (hnext : next.stage f = before) (hlost : lost.stage f = before) :
    RowStep id r p (Move.audit p id k call fate next lost).pending before
      ((Move.audit p id k call fate next lost).next.stage f)
      (Move.audit p id k call fate next lost).events := by
  refine .quiet rfl Iff.rfl ?_ execs_audit
  show (if fate = .ok then next else lost).stage f = before
  split
  · exact hnext
  · exact hlost

theorem rowStep_create {input : CreatePendingApprovalInput} {reply : Reply} {pc : CreatePc}
    {m : Move CreatePc} (h : create p id input reply pc = some m) :
    RowStep id r p m.pending none (m.next.stage fun _ => none) m.events := by
  cases pc with
  | insert =>
    obtain ⟨p', hp, rfl⟩ := Option.map_eq_some_iff.mp h
    obtain ⟨hfresh, hused, hget⟩ := insert_cases hp
    -- whether the answer comes back or not, the row is there
    have hborn : ∀ next : Next CreatePc, next.stage (fun _ => none) = none →
        RowStep id r p p' none (next.stage fun _ => none) [] := by
      intro next hnext
      rw [hnext]
      by_cases hr : input.requestId.uuid = r
      · subst hr
        refine .born input reply.now rfl hfresh ?_ ?_ rfl rfl rfl
        · rw [hused]
          exact List.mem_cons_self
        · rw [hget, if_pos rfl]
      · refine .quiet ?_ ?_ rfl rfl
        · rw [hget, if_neg (Ne.symm hr)]
        · rw [hused, List.mem_cons]
          exact ⟨fun h => h.resolve_left (Ne.symm hr), Or.inr⟩
    cases reply.fate with
    | lost => exact rowStep_still rfl rfl
    | applied => exact hborn _ rfl
    | ok => exact hborn _ rfl
  | audit =>
    cases h
    refine .quiet rfl Iff.rfl ?_ ?_
    · show (if reply.fate = .ok then Next.finish _ else Next.finish _).stage _ = none
      split <;> rfl
    · rw [execs_append]
      show execs r (if reply.fate = .ok then _ else []) ++ execs r (if reply.fate.applies then _ else []) = _
      rw [execs_audit]
      split <;> rfl

/-- the first approval and its race -/
theorem rowStep_markFirst {q : RequestId} {approver : JsString} {reply : Reply} {now : Int} :
    RowStep id r p (approve p id q approver reply (.approvalUpdate now)).pending none
      ((approve p id q approver reply (.approvalUpdate now)).next.stage
        fun pc => if q.uuid = r then pc.stage else none)
      (approve p id q approver reply (.approvalUpdate now)).events := by
  rcases markFirst_cases p q.uuid now approver with ⟨row, hg, hf, hm⟩ | ⟨_, hm⟩
  · have hget := getPending_update p q.uuid r (setFirst now approver) fun _ => rfl
    have hfirst : RowStep id r p (p.update q.uuid (setFirst now approver) fun _ => rfl) none none
        [.firstApproved id q.uuid now] := by
      by_cases hr : q.uuid = r
      · subst hr
        rw [if_pos rfl, hg] at hget
        exact .first now approver row hg hf hget Iff.rfl rfl rfl rfl List.mem_cons_self
      · rw [if_neg (Ne.symm hr)] at hget
        exact .quiet hget Iff.rfl rfl rfl
    simp only [approve, hm]
    cases reply.fate with
    | lost => exact rowStep_still rfl rfl
    | ok => exact hfirst
    | applied => exact hfirst
  · simp only [approve, hm]
    cases reply.fate with
    | lost => exact rowStep_still rfl rfl
    | ok => exact rowStep_still (by simp [Next.stage, ApprovePc.stage]) rfl
    | applied => exact rowStep_still rfl rfl

theorem rowStep_approve (q : RequestId) (approver : JsString) (reply : Reply) (pc : ApprovePc) :
    RowStep id r p (approve p id q approver reply pc).pending (if q.uuid = r then pc.stage else none)
      ((approve p id q approver reply pc).next.stage fun pc => if q.uuid = r then pc.stage else none)
      (approve p id q approver reply pc).events := by
  -- of the stages that no claim is needed for
  have hnone : (if q.uuid = r then (none : Option Stage) else none) = none := ite_self none
  cases pc with
  | getPending =>
    refine .free rfl ?_
    simp only [approve]
    split
    · cases p.getPending q.uuid with
      | none => exact rowStep_still rfl rfl
      | some row => exact rowStep_still hnone rfl
    · exact rowStep_still rfl rfl
  | approvalRead now =>
    refine .free rfl ?_
    simp only [approve]
    split
    · cases p.getPending q.uuid with
      | none => exact rowStep_still rfl rfl
      | some row =>
        simp only
        cases approvalStep row now with
        | resolved => exact rowStep_still hnone rfl
        | first => exact rowStep_still hnone rfl
        | tooEarly availableAt => exact rowStep_still rfl rfl
    · exact rowStep_still rfl rfl
  | approvalUpdate now =>
    exact .free rfl rowStep_markFirst
  | claim now =>
    exact .free rfl (rowStep_claim (fun _ => rfl) (rowStep_still rfl rfl))
  | audit row => exact rowStep_audit rfl rfl
  | auditRelease error => exact rowStep_release rfl
  | execute row =>
    by_cases hf : reply.fate = .ok
    · simp only [approve, if_pos hf]
      by_cases hr : q.uuid = r
      · exact .start rfl Iff.rfl (if_pos hr) (if_pos hr) (by simp [execs, execOf, hr])
      · exact .quiet rfl Iff.rfl ((if_neg hr).trans (if_neg hr).symm) (by simp [execs, execOf, hr])
    · simp only [approve, if_neg hf]
      exact rowStep_still rfl rfl
  | executing row =>
    by_cases hf : reply.fate = .ok
    · simp only [approve, if_pos hf]
      by_cases hr : q.uuid = r
      · exact .succeed rfl Iff.rfl (if_pos hr) (if_pos hr) (by simp [execs, execOf, hr])
      · exact .quiet rfl Iff.rfl ((if_neg hr).trans (if_neg hr).symm) (by simp [execs, execOf, hr])
    · simp only [approve, if_neg hf]
      by_cases hr : q.uuid = r
      · exact .fail rfl Iff.rfl (if_pos hr) (if_pos hr) (by simp [execs, execOf, hr])
      · exact .quiet rfl Iff.rfl ((if_neg hr).trans (if_neg hr).symm) (by simp [execs, execOf, hr])
  | failureRelease row error => exact rowStep_release hnone
  | failureAudit row =>
    exact .free rfl (rowStep_audit rfl rfl)
  | remove row result => exact rowStep_remove (by decide) rfl rfl rfl

theorem rowStep_reject (q : RequestId) (approver : JsString) (reply : Reply) (pc : RejectPc) :
    RowStep id r p (reject p id q approver reply pc).pending (if q.uuid = r then pc.stage else none)
      ((reject p id q approver reply pc).next.stage fun pc => if q.uuid = r then pc.stage else none)
      (reject p id q approver reply pc).events := by
  have hnone : (if q.uuid = r then (none : Option Stage) else none) = none := ite_self none
  cases pc with
  | getPending =>
    refine .free rfl ?_
    simp only [reject]
    split
    · cases p.getPending q.uuid with
      | none => exact rowStep_still rfl rfl
      | some row => exact rowStep_still hnone rfl
    · exact rowStep_still rfl rfl
  | claim pending now =>
    refine .free rfl (rowStep_claim (fun _ => rfl) ?_)
    split
    · exact rowStep_still hnone rfl
    · exact rowStep_still rfl rfl
  | stuckAudit pending =>
    exact .free rfl (rowStep_audit hnone rfl)
  | stuckRemove now =>
    refine .free rfl ?_
    rcases removeIfNotExecuting_cases p q.uuid now with ⟨row, hg, hx, hm⟩ | hm
    · have hget := getPending_removePending p q.uuid r
      have hevict : ∀ events, execs r events = [] → .evicted id q.uuid now ∈ events →
          RowStep id r p (p.removePending q.uuid) none none events := by
        intro events he hev
        by_cases hr : q.uuid = r
        · subst hr
          rw [if_pos rfl] at hget
          exact .evict now row hg hx hget Iff.rfl rfl rfl he hev
        · rw [if_neg (Ne.symm hr)] at hget
          exact .quiet hget Iff.rfl rfl he
      simp only [reject, hm]
      cases reply.fate with
      | lost => exact rowStep_still rfl rfl
      | ok => exact hevict _ rfl (by simp)
      | applied => exact hevict _ rfl (by simp)
    · simp only [reject, hm]
      cases reply.fate with
      | lost => exact rowStep_still rfl rfl
      | ok => exact rowStep_still rfl rfl
      | applied => exact rowStep_still rfl rfl
  | audit row => exact rowStep_audit rfl rfl
  | auditRelease => exact rowStep_release rfl
  | remove => exact rowStep_remove (by decide) rfl rfl rfl

theorem stage_processPending (r : JsString) (now clock : Int) (rows : List PendingApprovalRow) :
    (processPending now clock rows).1.stage (SweepPc.stage r) = none ∧
      execs r (processPending now clock rows).2 = [] := by
  induction rows with
  | nil => exact ⟨rfl, rfl⟩
  | cons row rest ih =>
    rw [processPending]
    cases row.executingAt with
    | some at_ =>
      refine ⟨ih.1, ?_⟩
      show execs r ((processPending now clock rest).2 ++ _) = []
      rw [execs_append, ih.2]
      split <;> rfl
    | none =>
      simp only
      split
      · exact ih
      · exact ⟨rfl, rfl⟩
      · exact ⟨rfl, rfl⟩
      · exact ⟨rfl, rfl⟩

theorem rowStep_sweepOn {now clock : Int} {rest : List PendingApprovalRow} {told : List Event}
    (ht : execs r told = []) :
    RowStep id r p (sweepOn p now clock rest told).pending none
      ((sweepOn p now clock rest told).next.stage (SweepPc.stage r))
      (sweepOn p now clock rest told).events := by
  obtain ⟨hs, he⟩ := stage_processPending r now clock rest
  refine .quiet rfl Iff.rfl hs ?_
  show execs r ((processPending now clock rest).2 ++ told) = []
  rw [execs_append, he, ht]
  rfl

theorem rowStep_sweep (now : Int) (reply : Reply) (pc : SweepPc) :
    RowStep id r p (sweep p id now reply pc).pending (pc.stage r)
      ((sweep p id now reply pc).next.stage (SweepPc.stage r)) (sweep p id now reply pc).events := by
  cases pc with
  | select =>
    simp only [sweep]
    split
    · exact rowStep_sweepOn rfl
    · exact rowStep_still rfl rfl
  | claim row rest status claimNow => exact rowStep_claim (fun _ => rfl) (rowStep_sweepOn rfl)
  | audit row rest status => exact rowStep_audit rfl rfl
  | auditRelease row => exact rowStep_release rfl
  | remove row rest status =>
    obtain ⟨hs, he⟩ := stage_processPending r now reply.now rest
    refine rowStep_remove (by decide) hs rfl ?_
    show execs r ((processPending now reply.now rest).2 ++ abandonedEvents row status) = []
    rw [execs_append, he]
    cases status <;> rfl
  | escalate row rest =>
    have hget := getPending_update p row.requestId r (setEscalated now) fun _ => rfl
    have hesc : ∀ (next : Next SweepPc) (events : List Event),
        next.stage (SweepPc.stage r) = none → execs r events = [] →
        RowStep id r p (p.escalate row.requestId now) none (next.stage (SweepPc.stage r)) events := by
      intro next events hnext he
      rw [hnext]
      by_cases hr : row.requestId = r
      · subst hr
        rw [if_pos rfl] at hget
        exact .escalate now hget Iff.rfl rfl rfl he
      · rw [if_neg (Ne.symm hr)] at hget
        exact .quiet hget Iff.rfl rfl he
    obtain ⟨hs, he⟩ := stage_processPending r now reply.now rest
    simp only [sweep]
    cases reply.fate with
    | lost => exact rowStep_still rfl rfl
    | applied => exact hesc (.finish .failed) [] rfl rfl
    | ok =>
      refine hesc _ _ hs ?_
      show execs r ((processPending now reply.now rest).2 ++ _) = []
      rw [execs_append, he]
      rfl

end

/-- the death of a call -/
theorem rowStep_die (id : CallId) (r : JsString) (p : PendingApprovals) (pc : Pc) :
    RowStep id r p p (pc.stage r) none (pc.interrupted id) := by
  cases pc with
  | approve q approver pc =>
    by_cases hr : q.uuid = r
    · cases pc with
      | executing row =>
        refine .interrupt rfl Iff.rfl (if_pos hr) rfl ?_
        simp [execs, execOf, Pc.interrupted, hr]
      | audit row => exact .leave .held (by decide) rfl Iff.rfl (if_pos hr) rfl rfl
      | auditRelease error => exact .leave .held (by decide) rfl Iff.rfl (if_pos hr) rfl rfl
      | execute row => exact .leave .held (by decide) rfl Iff.rfl (if_pos hr) rfl rfl
      | failureRelease row error => exact .leave .held (by decide) rfl Iff.rfl (if_pos hr) rfl rfl
      | remove row result => exact .leave .spent (by decide) rfl Iff.rfl (if_pos hr) rfl rfl
      | _ => exact .quiet rfl Iff.rfl (if_pos hr).symm rfl
    · refine .quiet rfl Iff.rfl (if_neg hr).symm ?_
      cases pc with
      | executing row => simp [execs, execOf, Pc.interrupted, hr]
      | _ => rfl
  | reject q approver pc =>
    by_cases hr : q.uuid = r
    · cases pc with
      | audit row => exact .leave .held (by decide) rfl Iff.rfl (if_pos hr) rfl rfl
      | auditRelease => exact .leave .held (by decide) rfl Iff.rfl (if_pos hr) rfl rfl
      | remove => exact .leave .held (by decide) rfl Iff.rfl (if_pos hr) rfl rfl
      | _ => exact .quiet rfl Iff.rfl (if_pos hr).symm rfl
    · exact .quiet rfl Iff.rfl (if_neg hr).symm rfl
  | sweep now pc =>
    have hclaim : ∀ row : PendingApprovalRow,
        RowStep id r p p (if row.requestId = r then some .held else none) none [] := by
      intro row
      split
      · exact .leave .held (by decide) rfl Iff.rfl rfl rfl rfl
      · exact .quiet rfl Iff.rfl rfl rfl
    cases pc with
    | audit row rest status => exact hclaim row
    | auditRelease row => exact hclaim row
    | remove row rest status => exact hclaim row
    | _ => exact .quiet rfl Iff.rfl rfl rfl
  | _ => exact .quiet rfl Iff.rfl rfl rfl

end Hitl
