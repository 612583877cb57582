import JinCore.Hitl.Retry

/-!
# A rejection excludes execution

* `RejectFact`, `rejects_step`   what a rejection has done at each of its statements;
* `Holds`                  a call still stands to the claim on a row;
* `gone_run`               once a row is gone, only the call that still holds it may run;
* `rejection_excludes`     when a rejection returns and the row is gone, no run is under way and none
                           follows, but for the call whose stuck claim it has deleted;
* `slow_run_rejected`      that call may be running still, and succeed.
-/

namespace Hitl
open JsString Common Audit Runs Lease PendingApprovals

/-- the rejection of the request has been appended to the audit log -/
def RejectionAudited (id : CallId) (q : RequestId) (approver : JsString) (h : List Event) : Prop :=
  ∃ toolName inputsHash seen,
    .audited id (.recordRejection q.text approver toolName inputsHash) seen ∈ h

def RejectFact (id : CallId) (q : RequestId) (approver : JsString) (s : System) : RejectPc → Prop
  | .getPending => True
  | .stuckRemove _ | .remove => q.uuid ∈ s.pending.used ∧ RejectionAudited id q approver s.history
  | _ => q.uuid ∈ s.pending.used

def Rejects (s : System) : Prop :=
  ∀ id q approver pc, s.pc id = .reject q approver pc → RejectFact id q approver s pc

/-- the call stands to the claim on the row of the request -/
def Holds (s : System) (r : JsString) (i : CallId) : Prop := (s.pc i).stage r ≠ none

/-- whatever happens next, only the calls of `P` run the executor of the request, now or later -/
def OnlyRuns (P : CallId → Prop) (r : JsString) (t : System) : Prop :=
  (∀ i, running (execs r t.history) = some i → P i) ∧
    ∀ ls u, run step t ls = some u →
      ∃ new, execs r u.history = new ++ execs r t.history ∧ ∀ e ∈ new, P e.agent

section
variable {s t : System} {id : CallId} {q : RequestId} {r approver : JsString}
  {events h : List Event}

/-! ## where a rejection comes from -/

inductive RejectStep (s t : System) (l : Label) (id : CallId) (q : RequestId)
    (approver : JsString) (pc' : RejectPc) : Prop
  | other (hl : l.id ≠ id) (hs : s.pc id = .reject q approver pc')
  | begin (hs : s.pc id = .idle) (hpc : pc' = .getPending)
  | goto (reply : Reply) (pc : RejectPc) (hs : s.pc id = .reject q approver pc)
      (hn : (reject s.pending id q approver reply pc).next = .goto pc')
      (hh : t.history = (reject s.pending id q approver reply pc).events ++ s.history)

theorem reject_step {l : Label} (h : step s l = some t) {pc' : RejectPc}
    (ht : t.pc id = .reject q approver pc') : RejectStep s t l id q approver pc' := by
  by_cases hl : l.id = id
  · rw [← hl] at ht ⊢
    cases step_moved h with
    | begun i op hs htt =>
      subst htt
      have hop : Pc.start op = .reject q approver pc' := (if_pos rfl).symm.trans ht
      cases op with
      | resolveRejection q' approver' =>
        cases hop
        exact .begin hs rfl
      | _ => cases hop
    | stopped i htt =>
      subst htt
      rw [show (Label.die i).id = i from rfl, stop_pc] at ht
      cases ht
    | create i reply input pc m hs hm htt =>
      subst htt
      obtain ⟨_, _, h⟩ := goto_of_toPc ((apply_pc ..).symm.trans ht) fun _ => Pc.noConfusion
      cases h
    | approve i reply q' approver' pc hs htt =>
      subst htt
      obtain ⟨_, _, h⟩ := goto_of_toPc ((apply_pc ..).symm.trans ht) fun _ => Pc.noConfusion
      cases h
    | sweep i reply now pc hs htt =>
      subst htt
      obtain ⟨_, _, h⟩ := goto_of_toPc ((apply_pc ..).symm.trans ht) fun _ => Pc.noConfusion
      cases h
    | reject i reply q' approver' pc hs htt =>
      subst htt
      obtain ⟨_, hn, h⟩ := goto_of_toPc ((apply_pc ..).symm.trans ht) fun _ => Pc.noConfusion
      cases h
      exact .goto reply pc hs hn rfl
  · obtain ⟨events, hspec⟩ := step_spec h
    rw [hspec.others id (Ne.symm hl)] at ht
    exact .other hl ht

/-! ## what a rejection has done -/

theorem RejectionAudited.append (hr : RejectionAudited id q approver h) :
    RejectionAudited id q approver (events ++ h) := by
  obtain ⟨toolName, inputsHash, seen, hmem⟩ := hr
  exact ⟨toolName, inputsHash, seen, List.mem_append_right _ hmem⟩

theorem RejectFact.mono {pc : RejectPc} (hf : RejectFact id q approver s pc)
    (hu : q.uuid ∈ s.pending.used → q.uuid ∈ t.pending.used)
    (hh : t.history = events ++ s.history) : RejectFact id q approver t pc := by
  cases pc with
  | getPending => trivial
  | stuckRemove now => exact ⟨hu hf.1, hh ▸ hf.2.append⟩
  | remove => exact ⟨hu hf.1, hh ▸ hf.2.append⟩
  | _ => exact hu hf

theorem audit_mem {π : Type} {p : PendingApprovals} {call : AuditCall} {fate : Fate}
    {next lost : Next π} (hr : fate = .ok) :
    .audited id call (p.getPending r) ∈ (Move.audit p id r call fate next lost).events := by
  rw [hr]
  exact List.mem_singleton_self _

theorem rejectFact_goto {reply : Reply} {pc pc' : RejectPc} (hf : RejectFact id q approver s pc)
    (hu : q.uuid ∈ s.pending.used → q.uuid ∈ t.pending.used)
    (hn : (reject s.pending id q approver reply pc).next = .goto pc')
    (hh : t.history = (reject s.pending id q approver reply pc).events ++ s.history) :
    RejectFact id q approver t pc' := by
  cases pc with
  | getPending =>
    simp only [reject] at hn
    split at hn
    · split at hn
      next => cases hn
      next pending hp =>
        cases hn
        exact hu (mem_used hp)
    · cases hn
  | claim pending now =>
    have hused := hu hf
    simp only [reject, Move.claim] at hn
    split at hn
    · cases hn
    · cases hn
      exact hused
    · split at hn
      · cases hn
        exact hused
      · cases hn
    · cases hn
  | stuckAudit pending =>
    cases hr : reply.fate with
    | ok =>
      simp only [reject, Move.audit, hr, if_true] at hn
      cases hn
      exact ⟨hu hf, _, _, _, hh ▸ List.mem_append_left _ (audit_mem hr)⟩
    | lost => simp [reject, Move.audit, hr] at hn
    | applied => simp [reject, Move.audit, hr] at hn
  | stuckRemove now =>
    exfalso
    simp only [reject] at hn
    split at hn <;> cases hn
  | audit row =>
    cases hr : reply.fate with
    | ok =>
      simp only [reject, Move.audit, hr, if_true] at hn
      cases hn
      exact ⟨hu hf, _, _, _, hh ▸ List.mem_append_left _ (audit_mem hr)⟩
    | lost =>
      simp only [reject, Move.audit, hr] at hn
      cases hn
      exact hu hf
    | applied =>
      simp only [reject, Move.audit, hr] at hn
      cases hn
      exact hu hf
  | auditRelease =>
    exfalso
    simp only [reject, Move.release] at hn
    split at hn <;> cases hn
  | remove =>
    exfalso
    simp only [reject, Move.remove] at hn
    split at hn <;> cases hn

end

theorem rejects_init : Rejects System.init := fun _ _ _ _ h => (nomatch h)

theorem rejects_step (s : System) (l : Label) (t : System) (hs : Rejects s)
    (h : step s l = some t) : Rejects t := by
  intro id q approver pc' ht
  obtain ⟨events, hspec⟩ := step_spec h
  have hu : q.uuid ∈ s.pending.used → q.uuid ∈ t.pending.used := used_mono (hspec.row q.uuid)
  cases reject_step h ht with
  | other hl hpc => exact (hs id q approver pc' hpc).mono hu hspec.history
  | begin hidle hpc =>
    rw [hpc]
    trivial
  | goto reply pc hpc hn hh => exact rejectFact_goto (hs id q approver pc hpc) hu hn hh

/-! ## a row that is gone -/

/-- once a row is gone, only the call that still holds it may run -/
theorem gone_run {r : JsString} {t : System} {a : Lease.State CallId} {o : Option CallId}
    (ha : Lease.Inv a) (hr : Refines r t a) (hg : Gone o a) (ls : List Label) (u : System)
    (h : run step t ls = some u) :
    ∃ new, execs r u.history = new ++ execs r t.history ∧ ∀ e ∈ new, o = some e.agent := by
  let P (u : System) : Prop := ∃ b, Lease.Inv b ∧ Refines r u b ∧ Gone o b ∧
    ∃ new, b.history = new ++ execs r t.history ∧ ∀ e ∈ new, o = some e.agent
  have hP : ∀ (u : System) (l : Label) (u' : System), P u → step u l = some u' → P u' := by
    rintro u l u' ⟨b, hb, hru, hgb, new, hnew, hall⟩ hu
    obtain ⟨events, hspec⟩ := step_spec hu
    obtain ⟨c, hc, hru'⟩ := refines_step hru hb hspec
    rcases hc with rfl | hc
    · exact ⟨c, hb, hru', hgb, new, hnew, hall⟩
    · obtain ⟨hgc, hh⟩ := gone_step hgb hc
      rcases hh with hh | ⟨e, hh, he⟩
      · exact ⟨c, inv_step hb hc, hru', hgc, new, hh.trans hnew, hall⟩
      · refine ⟨c, inv_step hb hc, hru', hgc, e :: new, by rw [hh, hnew, List.cons_append], ?_⟩
        intro x hx
        rcases List.mem_cons.mp hx with rfl | hx
        · exact he
        · exact hall x hx
  obtain ⟨b, _, hru, _, new, hnew, hall⟩ :=
    run_inv hP ls t u ⟨a, ha, hr, hg, [], hr.history, fun _ hx => nomatch hx⟩ h
  exact ⟨new, hru.history.symm.trans hnew, hall⟩

theorem onlyRuns_of_gone {r : JsString} {t : System} {a : Lease.State CallId} {P : CallId → Prop}
    (ha : Lease.Inv a) (hr : Refines r t a) (hc : a.cell = .gone)
    (ho : ∀ i st, a.owner = some (i, st) → P i) : OnlyRuns P r t := by
  refine ⟨fun i hi => ?_, fun ls u h => ?_⟩
  · rw [← hr.history, ha.running] at hi
    cases hown : a.owner with
    | none =>
      rw [hown] at hi
      cases hi
    | some p =>
      obtain ⟨j, st⟩ := p
      rw [hown] at hi
      cases st with
      | running =>
        cases hi
        exact ho i _ hown
      | _ => cases hi
  · have hg : Gone (a.owner.map Prod.fst) a := by
      refine ⟨hc, fun i st hi => ?_⟩
      rw [hi]
      rfl
    obtain ⟨new, hnew, hall⟩ := gone_run ha hr hg ls u h
    refine ⟨new, hnew, fun e he => ?_⟩
    obtain ⟨⟨j, st⟩, hown, hj⟩ := Option.map_eq_some_iff.mp (hall e he)
    exact hj ▸ ho j st hown

/-! ## a rejection that returns -/

section
variable {p : PendingApprovals} {id : CallId} {q : RequestId} {approver : JsString} {reply : Reply}
  {pc : RejectPc}

/-- a rejection returns from one of its two deletes -/
theorem reject_returned
    (hn : (reject p id q approver reply pc).next = .finish (.returned .rejected)) :
    execs q.uuid (reject p id q approver reply pc).events = [] ∧
      (pc = .remove ∨ ∃ now, pc = .stuckRemove now ∧ ∀ row, p.getPending q.uuid = some row →
        (reject p id q approver reply pc).pending.getPending q.uuid = none →
          ∀ at_, row.executingAt = some at_ → at_ + stuckClaimAfterMs < now) := by
  cases pc with
  | getPending =>
    simp only [reject] at hn
    split at hn
    · split at hn <;> cases hn
    · cases hn
  | claim pending now =>
    simp only [reject, Move.claim] at hn
    split at hn
    · cases hn
    · cases hn
    · split at hn <;> cases hn
    · cases hn
  | stuckAudit pending =>
    simp only [reject, Move.audit] at hn
    split at hn <;> cases hn
  | stuckRemove now =>
    rcases removeIfNotExecuting_cases p q.uuid now with ⟨row, hp, hstuck, hc⟩ | hc
    · refine ⟨?_, Or.inr ⟨now, rfl, fun row' hp' _ => ?_⟩⟩
      · simp only [reject, hc]
        split <;> rfl
      · rw [hp] at hp'
        cases hp'
        exact hstuck
    · refine ⟨?_, Or.inr ⟨now, rfl, fun row' hp' hgone => ?_⟩⟩
      · simp only [reject, hc]
        split <;> rfl
      · -- the delete has found a claim that is not stuck, so the row is still there
        have hsame : (reject p id q approver reply (.stuckRemove now)).pending = p := by
          simp only [reject, hc]
          cases reply.fate <;> rfl
        rw [hsame, hp'] at hgone
        cases hgone
  | audit row =>
    simp only [reject, Move.audit] at hn
    split at hn <;> cases hn
  | auditRelease =>
    simp only [reject, Move.release] at hn
    split at hn <;> cases hn
  | remove =>
    refine ⟨?_, Or.inl rfl⟩
    simp only [reject, Move.remove]
    split <;> rfl

end

/-- **A rejection excludes execution.**  When a rejection returns and the row is gone, the rejection
is in the audit log.  If it held the claim itself, no run is under way, none has succeeded and none
follows.  Otherwise it has found no row, or a row unclaimed or claimed for more than 15 min, and
only the call that still holds the row may be running or run afterwards. -/
theorem rejection_excludes (ls : List Label) (s : System) (h : run step System.init ls = some s)
    (id : CallId) (q : RequestId) (approver : JsString) (pc : RejectPc) (reply : Reply) (t : System)
    (hpc : s.pc id = .reject q approver pc) (ht : step s (.go id reply) = some t)
    (hret : t.pc id = .done (.returned .rejected)) (hgone : t.pending.getPending q.uuid = none) :
    RejectionAudited id q approver t.history ∧
    (pc = .remove ∧ OnlyRuns (fun _ => False) q.uuid t ∧
        (∀ e ∈ execs q.uuid t.history, e.kind ≠ .succeeded) ∨
      ∃ now, pc = .stuckRemove now ∧ OnlyRuns (Holds s q.uuid) q.uuid t ∧
        ∀ row at_, s.pending.getPending q.uuid = some row → row.executingAt = some at_ →
          at_ + stuckClaimAfterMs < now) := by
  have hleased := refines_run h
  have hfact := run_inv rejects_step ls _ _ rejects_init h id q approver pc hpc
  obtain ⟨a, ha, hr⟩ := hleased q.uuid
  obtain ⟨b, hb, hr'⟩ := leased_step s _ t hleased ht q.uuid
  obtain ⟨events, hspec⟩ := step_spec ht
  have htt : t = s.apply id (.reject q approver) (reject s.pending id q approver reply pc) := by
    simp only [step, hpc] at ht
    exact (Option.some.inj ht).symm
  have hn : (reject s.pending id q approver reply pc).next = .finish (.returned .rejected) := by
    rw [htt, apply_pc] at hret
    cases hn : (reject s.pending id q approver reply pc).next with
    | goto pc' =>
      rw [hn] at hret
      cases hret
    | finish outcome =>
      rw [hn] at hret
      cases hret
      rfl
  obtain ⟨hexecs, hwhere⟩ := reject_returned hn
  -- the row has been there, so that it is gone for good
  have hused : q.uuid ∈ s.pending.used ∧ RejectionAudited id q approver s.history := by
    rcases hwhere with rfl | ⟨now, rfl, _⟩ <;> exact hfact
  have hcell : b.cell = .gone := by
    rw [hr'.cell]
    simp only [cellOf, hgone, if_pos (used_mono (hspec.row q.uuid) hused.1)]
  -- who owns the row after the return has owned it before
  have howner : ∀ i st, b.owner = some (i, st) → i ≠ id ∧ (s.pc i).stage q.uuid = some st := by
    intro i st hi
    have hst := (hr'.owner i st).mpr hi
    have hne : i ≠ id := by
      rintro rfl
      rw [hret] at hst
      cases hst
    rw [hspec.others i hne] at hst
    exact ⟨hne, hst⟩
  have haudited : RejectionAudited id q approver t.history := by
    rw [hspec.history]
    exact hused.2.append
  refine ⟨haudited, ?_⟩
  rcases hwhere with rfl | ⟨now, rfl, hstuck⟩
  · left
    have hheld : (s.pc id).stage q.uuid = some .held := by
      rw [hpc]
      exact if_pos rfl
    refine ⟨rfl, onlyRuns_of_gone hb hr' hcell fun i st hi => ?_, fun e he hk => ?_⟩
    · obtain ⟨hne, hst⟩ := howner i st hi
      exact hne (stage_unique hleased hst hheld)
    · have hset := (inv_held ha ((hr.owner id .held).mp hheld)).2
      rw [hr.history] at hset
      rw [htt] at he
      change e ∈ execs q.uuid (_ ++ s.history) at he
      rw [execs_append, hexecs, List.nil_append] at he
      exact hset ⟨e, he, Or.inl hk⟩
  · right
    refine ⟨now, rfl, onlyRuns_of_gone hb hr' hcell fun i st hi => ?_, fun row at_ hrow hat => ?_⟩
    · rw [Holds, (howner i st hi).2]
      simp
    · rw [htt] at hgone
      exact hstuck row hrow hgone at_ hat

/-! ## a rejection with a claim of its own, and one of a slow run -/

/-- call 2 rejects the request -/
def rejectedRun : List Label := creation .confirm ++ [rejection 2, okAt 2 10, okAt 2 11, okAt 2 12]

theorem rejection_excludes_approval :
    ∃ s t, run step System.init rejectedRun = some s ∧ step s (okAt 2 13) = some t ∧
      t.pc 2 = .done (.returned .rejected) ∧ execs sampleRequest.uuid t.history = [] ∧
      RejectionAudited 2 sampleRequest (lit "owner") t.history := by
  obtain ⟨s, hs, hpc⟩ := Option.map_eq_some_iff.mp (show (run step System.init rejectedRun).map
    (fun s => s.pc 2) = some (.reject sampleRequest (lit "owner") .remove) from rfl)
  obtain ⟨t, hrun, ht⟩ := Option.map_eq_some_iff.mp (show
    (run step System.init (rejectedRun ++ [okAt 2 13])).map (fun t => (t.pc 2,
      t.pending.getPending sampleRequest.uuid, execs sampleRequest.uuid t.history))
        = some (.done (.returned .rejected), none, []) from rfl)
  rw [run_append, hs, Option.bind_some, run_cons, Option.bind_eq_some_iff] at hrun
  obtain ⟨u, hu, hut⟩ := hrun
  rw [← Option.some.inj hut] at ht
  simp only [Prod.mk.injEq] at ht
  obtain ⟨hret, hgone, hexecs⟩ := ht
  exact ⟨s, u, hs, hu, hret, hexecs,
    (rejection_excludes rejectedRun s hs 2 sampleRequest _ _ _ u hpc hu hret hgone).1⟩

/-- the executor of call 1 runs for more than sixteen minutes, and call 2 rejects the request -/
def slowRun : List Label :=
  creation .confirm ++ [approval 1, okAt 1 10, okAt 1 11, okAt 1 12, okAt 1 13, okAt 1 14,
    rejection 2, okAt 2 1000000, okAt 2 1000001, okAt 2 1000002, okAt 2 1000003]

/-- a rejection returns while the executor runs, and the executor succeeds afterwards -/
theorem slow_run_rejected :
    ∃ s t, run step System.init slowRun = some s ∧ s.pc 2 = .done (.returned .rejected) ∧
      RejectionAudited 2 sampleRequest (lit "owner") s.history ∧
      execs sampleRequest.uuid s.history = [⟨1, .started⟩] ∧
      step s (okAt 1 1000004) = some t ∧
      execs sampleRequest.uuid t.history = [⟨1, .succeeded⟩, ⟨1, .started⟩] := by
  have h : (run step System.init slowRun).map (fun s =>
      (s.pc 2, s.history[2]?, execs sampleRequest.uuid s.history)) = some
        (.done (.returned .rejected), some (.audited 2 (.recordRejection sampleRequest.text
          (lit "owner") (lit "sendEmail") (lit "h1")) (some (claimedRow .confirm 11))),
          [⟨1, .started⟩]) := rfl
  obtain ⟨s, hs, hh⟩ := Option.map_eq_some_iff.mp h
  simp only [Prod.mk.injEq] at hh
  obtain ⟨hret, haudit, hexecs⟩ := hh
  obtain ⟨t, hrun, ht⟩ := Option.map_eq_some_iff.mp (show
    (run step System.init (slowRun ++ [okAt 1 1000004])).map (fun t =>
      execs sampleRequest.uuid t.history) = some [⟨1, .succeeded⟩, ⟨1, .started⟩] from rfl)
  rw [run_append, hs, Option.bind_some, run_cons, Option.bind_eq_some_iff] at hrun
  obtain ⟨u, hu, hut⟩ := hrun
  rw [← Option.some.inj hut] at ht
  exact ⟨s, u, hs, hret, ⟨_, _, _, List.mem_of_getElem? haudit⟩, hexecs, hu, ht⟩

end Hitl
