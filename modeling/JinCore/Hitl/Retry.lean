import JinCore.Hitl.DualConfirm

/-!
# A retry needs a new approval

* `Renewed`              a call has begun after every failed run of a request;
* `Blocked`              the row is claimed, and only by a call whose run has failed;
* `NoStaleApproval`      the claim of a failed run is released over no older approval;
* `Retries`, `retries_step`   the invariant of the runs that keep to it;
* `retry_renewed`        in such a run an executor starts only in a call that has begun after every
                         failure;
* `stale_approval_executes`   without the condition an older approval executes again.
-/

namespace Hitl
open JsString Common Audit Runs Lease PendingApprovals

/-- the call has read the row after every failed run of the request -/
def Renewed (id : CallId) (r : JsString) (h : List Event) : Prop :=
  ∀ later i earlier, h = later ++ .execFailed i r :: earlier → .began id r ∈ later

/-- between the read of the row and the claim -/
def ApprovePc.awaitsClaim : ApprovePc → Bool
  | .approvalRead _ | .approvalUpdate _ | .claim _ => true
  | _ => false

/-- the claim of a failed run is about to be released -/
def Pc.failing : Pc → Bool
  | .approve _ _ (.failureRelease _ _) => true
  | _ => false

def Pc.waiting : Pc → Bool
  | .approve _ _ pc => pc.awaitsClaim
  | _ => false

/-- when the claim of a failed run is released, the calls on the request that are between their
read and their claim have begun after the failure -/
def NoStaleApproval (s : System) : Label → Prop
  | .go x reply => ∀ q approver row error,
      s.pc x = .approve q approver (.failureRelease row error) → reply.fate.applies = true →
      ∀ y q' approver' pc, s.pc y = .approve q' approver' pc → q'.uuid = q.uuid →
        pc.awaitsClaim = true → Renewed y q.uuid s.history
  | _ => True

/-- the row is claimed or gone, and the call that holds the claim has failed -/
def Blocked (s : System) (r : JsString) : Prop :=
  (∀ row, s.pending.getPending r = some row → row.executingAt ≠ none) ∧
    ∀ x, (s.pc x).stage r ≠ none → (s.pc x).failing = true

def RetryFact (id : CallId) (r : JsString) (s : System) : ApprovePc → Prop
  | .approvalRead _ | .approvalUpdate _ | .claim _ =>
    r ∈ s.pending.used ∧ (Renewed id r s.history ∨ Blocked s r)
  | .audit _ | .execute _ => Renewed id r s.history
  | _ => True

def StartsRenewed (e : Event) (pre : List Event) : Prop :=
  ∀ id r row, e = .execStarted id r row → Renewed id r pre

structure Retries (s : System) : Prop where
  leased : Leased s
  calls : ∀ id q approver pc, s.pc id = .approve q approver pc → RetryFact id q.uuid s pc
  starts : Each StartsRenewed s.history

section
variable {s t : System} {id : CallId} {r : JsString} {events h : List Event}

/-! ## renewal -/

theorem Renewed.cons {e : Event} (hr : Renewed id r h) (he : ∀ i, e ≠ .execFailed i r) :
    Renewed id r (e :: h) := by
  intro later i earlier heq
  cases later with
  | nil =>
    cases heq
    exact absurd rfl (he i)
  | cons x later =>
    rw [List.cons_append, List.cons.injEq] at heq
    exact List.mem_cons_of_mem _ (hr later i earlier heq.2)

theorem Renewed.append (hr : Renewed id r h) (hev : ∀ i, .execFailed i r ∉ events) :
    Renewed id r (events ++ h) := by
  induction events with
  | nil => exact hr
  | cons e events ih =>
    refine (ih fun i hi => hev i (List.mem_cons_of_mem _ hi)).cons fun i he => ?_
    exact hev i (by rw [he]; exact List.mem_cons_self)

theorem renewed_began : Renewed id r (.began id r :: h) := by
  intro later i earlier heq
  cases later with
  | nil => cases heq
  | cons x later =>
    rw [List.cons_append, List.cons.injEq] at heq
    rw [← heq.1]
    exact List.mem_cons_self

/-! ## the claim of a failed run -/

/-- a call with a stage on a row has it alone -/
theorem stage_unique (hs : Leased s) {x y : CallId} {st st' : Stage}
    (hx : (s.pc x).stage r = some st) (hy : (s.pc y).stage r = some st') : x = y := by
  obtain ⟨a, _, href⟩ := hs r
  have hox := (href.owner x st).mp hx
  rw [(href.owner y st').mp hy, Option.some.injEq, Prod.mk.injEq] at hox
  exact hox.1.symm

/-- the row of a call with a stage is claimed or gone -/
theorem claimed_of_stage (hs : Leased s) {x : CallId} {st : Stage}
    (hx : (s.pc x).stage r = some st) {row : PendingApprovalRow}
    (hg : s.pending.getPending r = some row) : row.executingAt ≠ none := by
  obtain ⟨a, ha, href⟩ := hs r
  have hc := ha.cell_of_owner ((href.owner x st).mp hx)
  rw [href.cell, cellOf_some hg] at hc
  intro hn
  rw [if_pos hn] at hc
  rcases hc with h | h <;> cases h

theorem failing_iff {pc : Pc} :
    pc.failing = true ↔ ∃ q approver row error, pc = .approve q approver (.failureRelease row error) := by
  constructor
  · intro h
    unfold Pc.failing at h
    split at h
    next q approver row error => exact ⟨q, approver, row, error, rfl⟩
    next => cases h
  · rintro ⟨q, approver, row, error, rfl⟩
    rfl

/-- a failed run leaves the row to the call that has run it -/
theorem blocked_of_failed (hs : Leased t) (hspec : StepSpec s t id events)
    (he : .execFailed id r ∈ events) : Blocked t r := by
  obtain ⟨q, approver, row, error, _, hpc', _, rfl⟩ := failed_of_event hspec he
  have hstage : (t.pc id).stage q.uuid = some .held := by
    rw [hpc']
    exact if_pos rfl
  refine ⟨fun row hg => claimed_of_stage hs hstage hg, fun x hx => ?_⟩
  obtain ⟨st, hst⟩ := Option.ne_none_iff_exists'.mp hx
  rw [stage_unique hs hst hstage, hpc']
  rfl

/-- a call whose run has failed gives up the claim; its label changes the table only where it is
the release -/
theorem step_failing {l : Label} (h : step s l = some t) (hf : (s.pc l.id).failing = true) :
    (∀ r, (t.pc l.id).stage r = none) ∧
      (t.pending = s.pending ∨ ∃ reply, l = .go l.id reply ∧ reply.fate.applies = true) := by
  obtain ⟨q, approver, row, error, hpc⟩ := failing_iff.mp hf
  cases step_moved h with
  | begun id op hs => exact absurd (hs.symm.trans hpc) Pc.noConfusion
  | stopped id ht =>
    subst ht
    refine ⟨fun r => ?_, Or.inl rfl⟩
    rw [show (Label.die id).id = id from rfl, stop_pc]
    rfl
  | create id reply input pc m hs => exact absurd (hs.symm.trans hpc) Pc.noConfusion
  | reject id reply q' approver' pc hs => exact absurd (hs.symm.trans hpc) Pc.noConfusion
  | sweep id reply now pc hs => exact absurd (hs.symm.trans hpc) Pc.noConfusion
  | approve id reply q' approver' pc hs ht =>
    cases hs.symm.trans hpc
    subst ht
    constructor
    · intro r
      rw [show (Label.go id reply).id = id from rfl, apply_pc]
      show (Next.toPc (.approve q approver) (if reply.fate = .ok then
        .goto (.failureAudit row) else .finish .failed)).stage r = none
      split
      · simp [Next.toPc, Pc.stage, ApprovePc.stage]
      · rfl
    · cases ha : reply.fate.applies with
      | true => exact Or.inr ⟨reply, rfl, ha⟩
      | false =>
        left
        show (if reply.fate.applies then _ else s.pending) = s.pending
        rw [ha]
        rfl

/-- the row stays blocked until the claim of the failed run is released -/
theorem blocked_step {l : Label} (h : step s l = some t) (hspec : StepSpec s t l.id events)
    (hu : r ∈ s.pending.used) (hb : Blocked s r)
    (hrel : (s.pc l.id).stage r = some .held → t.pending = s.pending) : Blocked t r := by
  obtain ⟨hrow, hstage⟩ := hb
  have hfail : ∀ st, (s.pc l.id).stage r = some st → (t.pc l.id).stage r = none :=
    fun st hst => (step_failing h (hstage l.id (hst ▸ Option.some_ne_none st))).1 r
  -- the calls that do not move keep their stage
  have hothers : (t.pc l.id).stage r = none → ∀ x, (t.pc x).stage r ≠ none →
      (t.pc x).failing = true := by
    intro hnone x hx
    by_cases hxi : x = l.id
    · rw [hxi] at hx
      exact absurd hnone hx
    · rw [hspec.others x hxi] at hx ⊢
      exact hstage x hx
  have hsame : t.pending.getPending r = s.pending.getPending r →
      ∀ row, t.pending.getPending r = some row → row.executingAt ≠ none := by
    intro hg row hrow'
    exact hrow row (hg.symm.trans hrow')
  have hgone : t.pending.getPending r = none →
      ∀ row, t.pending.getPending r = some row → row.executingAt ≠ none := by
    intro hg row hrow'
    rw [hg] at hrow'
    cases hrow'
  cases hspec.row r with
  | quiet hg _ hst =>
    refine ⟨hsame hg, hothers ?_⟩
    cases hst' : (s.pc l.id).stage r with
    | none => exact hst.trans hst'
    | some st => exact hfail st hst'
  | born _ _ _ hu' => exact absurd hu hu'
  | first now approver row hg _ hg' _ _ ha =>
    refine ⟨fun row' hrow' => ?_, hothers ha⟩
    rw [hg'] at hrow'
    cases hrow'
    exact hrow row hg
  | escalate now hg _ _ ha =>
    refine ⟨fun row' hrow' => ?_, hothers ha⟩
    obtain ⟨row, hr, rfl⟩ := Option.map_eq_some_iff.mp (hg.symm.trans hrow')
    exact hrow row hr
  | claim now row hg hx => exact absurd hx (hrow row hg)
  | release error hg _ hb ha => exact ⟨hsame (by rw [hrel hb]), hothers ha⟩
  | retire _ _ hg _ _ ha => exact ⟨hgone hg, hothers ha⟩
  | leave _ _ hg _ _ ha => exact ⟨hsame hg, hothers ha⟩
  | evict _ _ _ _ hg _ _ ha => exact ⟨hgone hg, hothers ha⟩
  | start hg _ hb => exact ⟨hsame hg, hothers (hfail _ hb)⟩
  | succeed hg _ hb => exact ⟨hsame hg, hothers (hfail _ hb)⟩
  | fail hg _ hb => exact ⟨hsame hg, hothers (hfail _ hb)⟩
  | interrupt hg _ hb => exact ⟨hsame hg, hothers (hfail _ hb)⟩

/-! ## one step -/

/-- a call that waits for its claim has begun after the failures, or the row is blocked -/
theorem retryFact_waiting {l : Label} (hs : Retries s) (h : step s l = some t)
    (hl : NoStaleApproval s l) (hspec : StepSpec s t l.id events) {q : RequestId}
    {approver : JsString} {pc : ApprovePc} (hpc : s.pc id = .approve q approver pc)
    (hw : pc.awaitsClaim = true) (hu : q.uuid ∈ s.pending.used)
    (hf : Renewed id q.uuid s.history ∨ Blocked s q.uuid) :
    Renewed id q.uuid t.history ∨ Blocked t q.uuid := by
  by_cases he : ∃ i, Event.execFailed i q.uuid ∈ events
  · obtain ⟨i, he⟩ := he
    obtain ⟨_, _, _, _, _, _, rfl, _⟩ := failed_of_event hspec he
    exact Or.inr (blocked_of_failed (leased_step s l t hs.leased h) hspec he)
  · rw [not_exists] at he
    rcases hf with hf | hf
    · left
      rw [hspec.history]
      exact hf.append he
    · by_cases hrel : (s.pc l.id).stage q.uuid = some .held → t.pending = s.pending
      · exact Or.inr (blocked_step h hspec hu hf hrel)
      · -- the release of a failed run: the condition says that the call has begun after it
        left
        rw [Classical.not_imp] at hrel
        obtain ⟨hheld, hne⟩ := hrel
        have hfail := hf.2 l.id (hheld ▸ Option.some_ne_none _)
        obtain ⟨_, hp | ⟨reply, hgo, ha⟩⟩ := step_failing h hfail
        · exact absurd hp hne
        · obtain ⟨q', approver', row, error, hpc'⟩ := failing_iff.mp hfail
          have hq : q'.uuid = q.uuid := by
            rw [hpc'] at hheld
            simp only [Pc.stage] at hheld
            split at hheld
            next hq => exact hq
            next => cases hheld
          rw [hgo] at hl
          have := hl q' approver' row error hpc' ha id q approver pc hpc hq.symm hw
          rw [hspec.history]
          rw [hq] at this
          exact this.append he

theorem retries_calls {l : Label} (hs : Retries s) (h : step s l = some t)
    (hl : NoStaleApproval s l) {q : RequestId} {approver : JsString} {pc' : ApprovePc}
    (ht : t.pc id = .approve q approver pc') : RetryFact id q.uuid t pc' := by
  obtain ⟨events, hspec⟩ := step_spec h
  cases approve_step h ht with
  | begin hidle hpc hp hh =>
    subst hpc
    trivial
  | other hli hpc =>
    have hf := hs.calls id q approver pc' hpc
    -- nobody else runs what this call holds
    have hheld : (s.pc id).stage q.uuid = some .held → ∀ i, .execFailed i q.uuid ∉ events := by
      intro hst i he
      obtain ⟨q', approver', row, _, hpc', _, _, hq⟩ := failed_of_event hspec he
      have hst' : (s.pc l.id).stage q.uuid = some .running := by
        rw [hpc']
        exact if_pos hq.symm
      exact hli (stage_unique hs.leased hst' hst)
    have hwait : pc'.awaitsClaim = true → q.uuid ∈ s.pending.used ∧
        (Renewed id q.uuid s.history ∨ Blocked s q.uuid) → q.uuid ∈ t.pending.used ∧
        (Renewed id q.uuid t.history ∨ Blocked t q.uuid) := fun hw hf =>
      ⟨used_mono (hspec.row q.uuid) hf.1, retryFact_waiting hs h hl hspec hpc hw hf.1 hf.2⟩
    cases pc' with
    | approvalRead now => exact hwait rfl hf
    | approvalUpdate now => exact hwait rfl hf
    | claim now => exact hwait rfl hf
    | audit row =>
      show Renewed id q.uuid t.history
      rw [hspec.history]
      exact Renewed.append hf (hheld ((congrArg (Pc.stage q.uuid) hpc).trans (if_pos rfl)))
    | execute row =>
      show Renewed id q.uuid t.history
      rw [hspec.history]
      exact Renewed.append hf (hheld ((congrArg (Pc.stage q.uuid) hpc).trans (if_pos rfl)))
    | _ => trivial
  | goto hli pc hpc events' hh hm =>
    have hf := hs.calls id q approver pc hpc
    have hused := used_mono (hspec.row q.uuid)
    generalize hp' : t.pending = p' at hm
    cases hm with
    | began now row hp =>
      refine ⟨hused (mem_used hp), Or.inl ?_⟩
      rw [hh]
      exact renewed_began
    | resolved now clock row hp ha =>
      exact ⟨hused hf.1, retryFact_waiting hs h hl hspec hpc rfl hf.1 hf.2⟩
    | first now row hp ha =>
      exact ⟨hused hf.1, retryFact_waiting hs h hl hspec hpc rfl hf.1 hf.2⟩
    | lost now hp => exact ⟨hused hf.1, retryFact_waiting hs h hl hspec hpc rfl hf.1 hf.2⟩
    | claimed now row hp hx =>
      show Renewed id q.uuid t.history
      rw [hh]
      rcases hf.2 with hr | hb
      · exact hr.cons fun _ => nofun
      · exact absurd hx (hb.1 row hp)
    | audited row =>
      show Renewed id q.uuid t.history
      rw [hh]
      exact Renewed.cons hf fun _ => nofun
    | _ => trivial

theorem retries_starts (hs : Retries s) (hspec : StepSpec s t id events) :
    Each StartsRenewed t.history := by
  rw [hspec.history]
  by_cases hst : ∃ i r row, Event.execStarted i r row ∈ events
  · obtain ⟨i, r, row, he⟩ := hst
    obtain ⟨q, approver, hpc, rfl, rfl, hev⟩ := start_of_event hspec he
    rw [hev]
    refine ⟨fun i' r' row' heq => ?_, hs.starts⟩
    cases heq
    exact hs.calls _ q approver _ hpc
  · refine Each.append (fun e he pre i r row heq => ?_) hs.starts
    exact absurd ⟨i, r, row, heq ▸ he⟩ hst

end

theorem retries_init : Retries System.init :=
  ⟨leased_init, fun _ _ _ _ h => (nomatch h), trivial⟩

theorem retries_step (s : System) (l : Label) (t : System) (hs : Retries s)
    (hl : NoStaleApproval s l) (h : step s l = some t) : Retries t := by
  obtain ⟨events, hspec⟩ := step_spec h
  exact ⟨leased_step s l t hs.leased h, fun id q approver pc ht => retries_calls hs h hl ht,
    retries_starts hs hspec⟩

/-- **No retry on an old approval.**  In every run in which the claim of a failed execution is
never released while another call on the request, begun before the failure, stands between its read
and its claim, an executor starts only in a call that has begun after every failure before. -/
theorem retry_renewed (ls : List Label) (s : System)
    (hls : Guarded step NoStaleApproval System.init ls) (h : run step System.init ls = some s)
    (post pre : List Event) (id : CallId) (r : JsString) (row : PendingApprovalRow)
    (hh : s.history = post ++ .execStarted id r row :: pre) : Renewed id r pre := by
  have hs := run_inv_guarded retries_step ls _ _ retries_init hls h
  exact each_iff.mp hs.starts post _ pre hh id r row rfl

/-! ## a failed run and the approval after it -/

/-- a label that is not the release of a failed run -/
def notRelease (s : System) : Label → Bool
  | .go x _ => !(s.pc x).failing
  | _ => true

theorem noStale_of_notRelease (s : System) (l : Label) (h : notRelease s l = true) :
    NoStaleApproval s l := by
  cases l with
  | go x reply =>
    intro q approver row error hpc
    rw [notRelease, hpc] at h
    cases h
  | _ => trivial

/-- a call that no label names has not begun -/
theorem idle_of_run {ls : List Label} {s : System} {y : CallId}
    (h : run step System.init ls = some s) (hy : ∀ l ∈ ls, y ≠ l.id) : s.pc y = .idle := by
  have hstep : ∀ (s : System) (l : Label) (t : System), s.pc y = .idle → y ≠ l.id →
      step s l = some t → t.pc y = .idle := by
    intro s l t hs hl ht
    obtain ⟨events, hspec⟩ := step_spec ht
    rw [hspec.others y hl]
    exact hs
  exact run_inv_guarded hstep ls _ _ rfl (guarded_of_forall (G := fun l => y ≠ l.id) ls _ hy) h

/-- the run of call 1 fails -/
def failedRun : List Label :=
  creation .confirm ++ [approval 1, okAt 1 10, okAt 1 11, okAt 1 12, okAt 1 13, okAt 1 14,
    lostAt 1 15]

/-- call 2 approves after the failure -/
def renewal : List Label := [approval 2, okAt 2 20, okAt 2 21, okAt 2 22, okAt 2 23, okAt 2 24]

theorem renewal_guarded :
    Guarded step NoStaleApproval System.init (failedRun ++ okAt 1 16 :: renewal) := by
  rw [guarded_append]
  refine ⟨guarded_of_checkAll noStale_of_notRelease _ _ (by decide), fun s hs => ⟨?_, ?_⟩⟩
  · intro q approver row error _ _ y q' approver' pc hpc _ hw
    exfalso
    -- only the calls 0 and 1 have begun
    have hpcs : (run step System.init failedRun).map
        (fun s => ((s.pc 0).waiting, (s.pc 1).waiting)) = some (false, false) := by decide
    rw [hs, Option.map_some, Option.some.injEq, Prod.mk.injEq] at hpcs
    have hy : (s.pc y).waiting = true := by
      rw [hpc]
      exact hw
    by_cases h0 : y = 0
    · rw [h0, hpcs.1] at hy
      cases hy
    · by_cases h1 : y = 1
      · rw [h1, hpcs.2] at hy
        cases hy
      · rw [idle_of_run hs (by simp [failedRun, creation, approval, okAt, lostAt, Label.id, h0, h1])]
          at hy
        cases hy
  · intro t ht
    refine guarded_of_checkAll noStale_of_notRelease _ _ ?_
    have hrest : (run step System.init (failedRun ++ [okAt 1 16])).map
        (fun t => checkAll step notRelease t renewal) = some true := by decide
    rw [run_append, hs, Option.bind_some, run_cons, ht] at hrest
    exact Option.some.inj hrest

theorem retry_renewed_again :
    ∃ s post pre, run step System.init (failedRun ++ okAt 1 16 :: renewal) = some s ∧
      s.history = post ++ .execStarted 2 sampleRequest.uuid (claimedRow .confirm 21) :: pre ∧
      Renewed 2 sampleRequest.uuid pre := by
  have h : (run step System.init (failedRun ++ okAt 1 16 :: renewal)).map (fun s =>
      decide (.execStarted 2 sampleRequest.uuid (claimedRow .confirm 21) ∈ s.history))
        = some true := by
    decide
  obtain ⟨s, hs, hmem⟩ := Option.map_eq_some_iff.mp h
  obtain ⟨post, pre, hh⟩ := List.append_of_mem (of_decide_eq_true hmem)
  exact ⟨s, post, pre, hs, hh,
    retry_renewed _ s renewal_guarded hs post pre 2 sampleRequest.uuid _ hh⟩

/-- call 2 is past `recordApproval` when the run of call 1 starts, and claims after it has failed -/
def staleRun : List Label :=
  creation .confirm ++ [approval 1, approval 2, okAt 1 10, okAt 2 10, okAt 1 11, okAt 2 11,
    okAt 1 12, okAt 1 13, okAt 1 14, lostAt 1 15, okAt 1 16, okAt 2 17, okAt 2 18, okAt 2 19]

def staleHistory : List Event :=
  let r := sampleRequest.uuid
  let call : AuditCall := .recordApproval r (lit "owner") (lit "sendEmail") (lit "h1")
  [.audited 2 call (some (claimedRow .confirm 11)), .claimed 2 (claimedRow .confirm 11)]

/-- an approval given before a failed run executes the action again -/
theorem stale_approval_executes :
    ∃ s earlier, run step System.init staleRun = some s ∧
      s.history = .execStarted 2 sampleRequest.uuid (claimedRow .confirm 11) ::
        (staleHistory ++ .execFailed 1 sampleRequest.uuid :: earlier) ∧
      .began 2 sampleRequest.uuid ∈ earlier ∧
      ¬ Renewed 2 sampleRequest.uuid (staleHistory ++ .execFailed 1 sampleRequest.uuid :: earlier) := by
  have h : (run step System.init staleRun).map (fun s => (s.history.take 4,
      decide (.began 2 sampleRequest.uuid ∈ s.history.drop 4))) = some
        (.execStarted 2 sampleRequest.uuid (claimedRow .confirm 11) :: staleHistory
          ++ [.execFailed 1 sampleRequest.uuid], true) := by
    decide
  obtain ⟨s, hs, hh⟩ := Option.map_eq_some_iff.mp h
  rw [Prod.mk.injEq, decide_eq_true_iff] at hh
  have hsplit := (List.take_append_drop 4 s.history).symm
  rw [hh.1] at hsplit
  refine ⟨s, s.history.drop 4, hs, by simpa using hsplit, hh.2, fun hr => ?_⟩
  have hb := hr staleHistory 1 _ rfl
  simp [staleHistory] at hb

end Hitl
