import JinCore.Hitl.AtMostOnce

/-!
# Approvals fail closed

* `ClaimStands`     the row still bears a claim, or a rejection has evicted it as stuck;
* `Authorised`      an executor run comes after the audit of its own approval, after its own claim
                    and after `recordApproval` has returned `'resolved'` to the same call;
* `FailClosed`, `failClosed_step`  the invariant;
* `executor_authorised`   every executor run is authorised, and its call has never been a first
                    approval, a rejection or a timeout;
* `stuck_rejection_overtakes`   the row may be gone by the time of the audit.
-/

namespace Hitl
open JsString Common Audit Runs Lease PendingApprovals

/-- the row found at some moment bears the claim of `row`, or a rejection has deleted it because
the claim was stuck -/
def ClaimStands (h : List Event) (r : JsString) (row : PendingApprovalRow)
    (found : Option PendingApprovalRow) : Prop :=
  (∃ row', found = some row' ∧ row'.executingAt = row.executingAt) ∨
    (found = none ∧ ∃ i at_ now, row.executingAt = some at_ ∧ .evicted i r now ∈ h ∧
      at_ + stuckClaimAfterMs < now)

/-- the call has been told `'resolved'`, has claimed the row, and has then appended the approval to
the audit log, while its claim stood -/
def Authorised (id : CallId) (r : JsString) (row : PendingApprovalRow) (pre : List Event) : Prop :=
  ∃ later earlier text approver seen now,
    pre = later ++ .audited id (.recordApproval text approver row.toolName row.inputsHash) seen
      :: earlier ∧
    uuidColumn text = some r ∧ row.requestId = r ∧ .claimed id row ∈ earlier ∧
    .resolved id r now ∈ earlier ∧ ClaimStands earlier r row seen

/-- an event of a call that is a first approval, a rejection or a timeout -/
def Event.declines (id : CallId) : Event → Prop
  | .firstApproved i _ _ | .rejected i _ | .evicted i _ _ => i = id
  | .audited i (.recordRejection _ _ _ _) _ | .audited i (.recordTimeout _ _ _ _) _ => i = id
  | _ => False

/-- what the statement an approval awaits says of the past -/
def ApproveFact (id : CallId) (r : JsString) (p : PendingApprovals) (h : List Event) :
    ApprovePc → Prop
  | .claim _ => ∃ now, .resolved id r now ∈ h
  | .audit row => row.requestId = r ∧ .claimed id row ∈ h ∧ (∃ now, .resolved id r now ∈ h) ∧
      (∃ at_, row.executingAt = some at_) ∧ ClaimStands h r row (p.getPending r)
  | .execute row => Authorised id r row h
  | _ => True

/-- an executor run that starts is authorised -/
def StartsAuthorised (e : Event) (pre : List Event) : Prop :=
  ∀ id r row, e = .execStarted id r row → Authorised id r row pre ∧ ∀ x ∈ pre, ¬ x.declines id

structure FailClosed (s : System) : Prop where
  leased : Leased s
  /-- a call that has not begun has left no event -/
  fresh : ∀ id, s.pc id = .idle → ∀ e ∈ s.history, e.caller ≠ some id
  calls : ∀ id q approver pc, s.pc id = .approve q approver pc →
    ApproveFact id q.uuid s.pending s.history pc ∧ ∀ e ∈ s.history, ¬ e.declines id
  starts : Each StartsAuthorised s.history

section
variable {s t : System} {id : CallId} {r : JsString} {events h : List Event}
  {row : PendingApprovalRow}

theorem caller_of_declines {e : Event} (he : e.declines id) : e.caller = some id := by
  unfold Event.declines at he
  split at he
  · exact congrArg some he
  · exact congrArg some he
  · exact congrArg some he
  · exact congrArg some he
  · exact congrArg some he
  · exact he.elim

theorem not_declines_of {e : Event} {j : CallId} (he : e.Of j) (hj : j ≠ id) : ¬ e.declines id := by
  intro hd
  have hc := caller_of_declines hd
  rcases he with he | he <;> rw [he] at hc
  · exact hj (Option.some.inj hc)
  · cases hc

theorem ClaimStands.mono {found : Option PendingApprovalRow} (hc : ClaimStands h r row found)
    (events : List Event) : ClaimStands (events ++ h) r row found := by
  rcases hc with hc | ⟨hn, i, at_, now, hx, he, hlt⟩
  · exact Or.inl hc
  · exact Or.inr ⟨hn, i, at_, now, hx, List.mem_append_right _ he, hlt⟩

theorem Authorised.mono (ha : Authorised id r row h) (events : List Event) :
    Authorised id r row (events ++ h) := by
  obtain ⟨later, earlier, text, approver, seen, now, he, hrest⟩ := ha
  refine ⟨events ++ later, earlier, text, approver, seen, now, ?_, hrest⟩
  rw [he, List.append_assoc]

/-- while one call holds the claim, the labels of the others leave it or evict it -/
theorem claimStands_step (hs : Leased s) (hspec : StepSpec s t id events) {j : CallId}
    (hj : (s.pc j).stage r = some .held) (hne : id ≠ j) {at_ : Int}
    (hx : row.executingAt = some at_)
    (hc : ClaimStands s.history r row (s.pending.getPending r)) :
    ClaimStands t.history r row (t.pending.getPending r) := by
  obtain ⟨a, ha, href⟩ := hs r
  have hown := (href.owner j _).mp hj
  have hcell := ha.cell_of_owner hown
  -- the call that moves is not the owner
  have hb : ∀ st, (s.pc id).stage r ≠ some st := by
    intro st hst
    have := (href.owner id st).mp hst
    rw [hown, Option.some.injEq, Prod.mk.injEq] at this
    exact hne this.1.symm
  have hsame : t.pending.getPending r = s.pending.getPending r →
      ClaimStands t.history r row (t.pending.getPending r) := by
    intro hg
    rw [hg, hspec.history]
    exact hc.mono events
  cases hspec.row r with
  | quiet hg => exact hsame hg
  | born input now hr hu =>
    have hnone : s.pending.getPending r = none := by
      cases hp : s.pending.getPending r with
      | none => rfl
      | some row => exact absurd (mem_used hp) hu
    rw [href.cell] at hcell
    simp only [cellOf, hnone, if_neg hu] at hcell
    rcases hcell with h | h <;> cases h
  | first now approver row' hg hf hg' =>
    rw [hg'] at *
    rcases hc with ⟨row'', hrow, hx'⟩ | ⟨hn, _⟩
    · rw [hg] at hrow
      cases hrow
      exact Or.inl ⟨_, rfl, hx'⟩
    · rw [hg] at hn
      cases hn
  | escalate now hg =>
    rcases hc with ⟨row'', hrow, hx'⟩ | ⟨hn, hev⟩
    · rw [hrow, Option.map_some] at hg
      rw [hg]
      exact Or.inl ⟨_, rfl, hx'⟩
    · exact hsame (by rw [hg, hn, Option.map_none])
  | claim now row' hg hx' =>
    rcases hc with ⟨row'', hrow, hxx⟩ | ⟨hn, _⟩
    · rw [hg] at hrow
      cases hrow
      rw [hx', hx] at hxx
      cases hxx
    · rw [hg] at hn
      cases hn
  | evict now row' hg hx' hg' hu hb' ha' he hev =>
    rcases hc with ⟨row'', hrow, hxx⟩ | ⟨hn, _⟩
    · rw [hg] at hrow
      cases hrow
      refine Or.inr ⟨hg', id, at_, now, hx, ?_, hx' at_ (hxx.trans hx)⟩
      rw [hspec.history]
      exact List.mem_append_left _ hev
    · rw [hg] at hn
      cases hn
  | release _ _ _ hb' => exact absurd hb' (hb _)
  | retire _ _ _ _ hb' => exact absurd hb' (hb _)
  | leave _ _ _ _ hb' => exact absurd hb' (hb _)
  | start _ _ hb' => exact absurd hb' (hb _)
  | succeed _ _ hb' => exact absurd hb' (hb _)
  | fail _ _ hb' => exact absurd hb' (hb _)
  | interrupt _ _ hb' => exact absurd hb' (hb _)

/-! ## one step -/

/-- an approval that goes on knows what it needs to know -/
theorem approveFact_goto {p p' : PendingApprovals} {q : RequestId} {approver : JsString}
    {pc pc' : ApprovePc} (hf : ApproveFact id q.uuid p h pc)
    (hm : ApproveMove p id q approver pc (.goto pc') p' events) :
    ApproveFact id q.uuid p' (events ++ h) pc' := by
  cases hm with
  | resolved now clock row hp ha => exact ⟨now, List.mem_cons_self⟩
  | claimed now row hp hx =>
    obtain ⟨n, hn⟩ := hf
    have hget := getPending_update p q.uuid q.uuid (setExecuting now) fun _ => rfl
    rw [if_pos rfl, hp, Option.map_some] at hget
    refine ⟨?_, List.mem_cons_self, ⟨n, List.mem_cons_of_mem _ hn⟩, ⟨now, rfl⟩, ?_⟩
    · show row.requestId = q.uuid
      exact requestId_of_getPending hp
    · rw [hget]
      exact Or.inl ⟨_, rfl, rfl⟩
  | audited row =>
    obtain ⟨hr, hclaimed, ⟨n, hn⟩, _, hc⟩ := hf
    exact ⟨[], h, q.text, approver, _, n, rfl, q.cast, hr, hclaimed, hn, hc⟩
  | _ => trivial

/-- an approval that goes on is no first approval, no rejection and no timeout -/
theorem not_declines_goto {q : RequestId} {approver : JsString} {pc pc' : ApprovePc}
    {p' : PendingApprovals} (hm : ApproveMove s.pending id q approver pc (.goto pc') p' events) :
    ∀ e ∈ events, ¬ e.declines id := by
  intro e he hd
  cases hm with
  | unaudited row error events hall =>
    obtain ⟨seen, rfl⟩ := hall e he
    exact hd
  | first => cases he
  | refused => cases he
  | released => cases he
  | _ =>
    rw [List.mem_singleton.mp he] at hd
    exact hd

theorem failClosed_calls (hs : FailClosed s) {l : Label} (h : step s l = some t)
    {q : RequestId} {approver : JsString} {pc' : ApprovePc}
    (ht : t.pc id = .approve q approver pc') :
    ApproveFact id q.uuid t.pending t.history pc' ∧ ∀ e ∈ t.history, ¬ e.declines id := by
  obtain ⟨events, hspec⟩ := step_spec h
  cases approve_step h ht with
  | begin hidle hpc hp hh =>
    subst hpc
    refine ⟨trivial, fun e he hd => ?_⟩
    rw [hh] at he
    exact hs.fresh id hidle e he (caller_of_declines hd)
  | goto hl pc hpc events' hh hm =>
    obtain ⟨hf, hd⟩ := hs.calls id q approver pc hpc
    rw [hh]
    refine ⟨approveFact_goto hf hm, fun e he => ?_⟩
    rcases List.mem_append.mp he with he | he
    · exact not_declines_goto hm e he
    · exact hd e he
  | other hl hpc =>
    obtain ⟨hf, hd⟩ := hs.calls id q approver pc' hpc
    constructor
    · cases pc' with
      | claim clock =>
        obtain ⟨now, hn⟩ := hf
        rw [hspec.history]
        exact ⟨now, List.mem_append_right _ hn⟩
      | audit row =>
        obtain ⟨hr, hclaimed, ⟨n, hn⟩, ⟨at_, hx⟩, hc⟩ := hf
        have hstage : (s.pc id).stage q.uuid = some .held := by
          rw [hpc]
          exact if_pos rfl
        refine ⟨hr, ?_, ⟨n, ?_⟩, ⟨at_, hx⟩, claimStands_step hs.leased hspec hstage hl hx hc⟩ <;>
        rw [hspec.history]
        · exact List.mem_append_right _ hclaimed
        · exact List.mem_append_right _ hn
      | execute row =>
        rw [hspec.history]
        exact Authorised.mono hf events
      | _ => trivial
    · intro e he
      rw [hspec.history] at he
      rcases List.mem_append.mp he with he | he
      · exact not_declines_of (hspec.callers e he) hl
      · exact hd e he

theorem failClosed_starts (hs : FailClosed s) (hspec : StepSpec s t id events) :
    Each StartsAuthorised t.history := by
  rw [hspec.history]
  by_cases hst : ∃ i r row, Event.execStarted i r row ∈ events
  · obtain ⟨i, r, row, he⟩ := hst
    obtain ⟨q, approver, hpc, rfl, rfl, hev⟩ := start_of_event hspec he
    rw [hev]
    refine ⟨fun i' r' row' heq => ?_, hs.starts⟩
    cases heq
    exact hs.calls _ q approver _ hpc
  · refine Each.append (fun e he pre i r row heq => ?_) hs.starts
    exact absurd ⟨i, r, row, heq ▸ he⟩ hst

end

theorem failClosed_init : FailClosed System.init :=
  ⟨leased_init, fun _ _ _ he => (nomatch he), fun _ _ _ _ h => (nomatch h), trivial⟩

theorem failClosed_step (s : System) (l : Label) (t : System) (hs : FailClosed s)
    (h : step s l = some t) : FailClosed t := by
  obtain ⟨events, hspec⟩ := step_spec h
  refine ⟨leased_step s l t hs.leased h, fun id hidle e he hc => ?_,
    fun id q approver pc ht => failClosed_calls hs h ht, failClosed_starts hs hspec⟩
  by_cases hid : id = l.id
  · rw [hid] at hidle
    exact hspec.moved hidle
  · rw [hspec.others id hid] at hidle
    rw [hspec.history] at he
    rcases List.mem_append.mp he with he | he
    · rcases hspec.callers e he with ho | ho <;> rw [ho] at hc
      · exact hid (Option.some.inj hc).symm
      · cases hc
    · exact hs.fresh id hidle e he hc

/-- **Fail closed.**  In every run, an executor starts only in a call that `recordApproval` has
answered `'resolved'`, that has claimed the row and has then appended the approval of the same
request, tool and inputs to the audit log; at that moment the row bore the claim of this call, or a
rejection had deleted it as stuck.  A call that is a first approval, a rejection or a timeout
starts no executor. -/
theorem executor_authorised (ls : List Label) (s : System) (h : run step System.init ls = some s)
    (post pre : List Event) (id : CallId) (r : JsString) (row : PendingApprovalRow)
    (hh : s.history = post ++ .execStarted id r row :: pre) :
    Authorised id r row pre ∧ ∀ e ∈ pre, ¬ e.declines id := by
  have hs := run_inv failClosed_step ls _ _ failClosed_init h
  exact each_iff.mp hs.starts post _ pre hh id r row rfl

/-- the claimed row of the sample run -/
def claimedRow (level : PendingApprovalLevel) (now : Int) : PendingApprovalRow :=
  setExecuting now (newRow (sampleInput level) 0)

theorem executor_authorised_approved :
    ∃ s post pre, run step System.init approvedRun = some s ∧
      s.history = post ++ .execStarted 1 sampleRequest.uuid (claimedRow .confirm 11) :: pre ∧
      Authorised 1 sampleRequest.uuid (claimedRow .confirm 11) pre := by
  have h : (run step System.init approvedRun).map (fun s =>
      decide (.execStarted 1 sampleRequest.uuid (claimedRow .confirm 11) ∈ s.history)) = some true := by
    decide
  obtain ⟨s, hs, hmem⟩ := Option.map_eq_some_iff.mp h
  obtain ⟨post, pre, hh⟩ := List.append_of_mem (of_decide_eq_true hmem)
  exact ⟨s, post, pre, hs, hh,
    (executor_authorised approvedRun s hs post pre 1 sampleRequest.uuid _ hh).1⟩

/-- call 1 has claimed the row; sixteen minutes later call 2 rejects the request and deletes the
row as stuck, and call 1 goes on -/
def overtakenRun : List Label :=
  creation .confirm ++ [approval 1, okAt 1 10, okAt 1 11, okAt 1 12, rejection 2, okAt 2 1000000,
    okAt 2 1000001, okAt 2 1000002, okAt 2 1000003, okAt 1 1000004, okAt 1 1000005]

def overtakenHistory : List Event :=
  let r := sampleRequest.uuid
  [.audited 1 (.recordApproval r (lit "owner") (lit "sendEmail") (lit "h1")) none,
    .rejected 2 r, .evicted 2 r 1000002,
    .audited 2 (.recordRejection r (lit "owner") (lit "sendEmail") (lit "h1"))
      (some (claimedRow .confirm 11)),
    .claimed 1 (claimedRow .confirm 11), .resolved 1 r 10, .began 1 r,
    .notified (.created r (lit "sendEmail") .confirm),
    .audited 0 (.recordToolCall r (lit "agent") (lit "sendEmail") (lit "h1") none .pending none)
      (some (newRow (sampleInput .confirm) 0))]

/-- an executor may start although its approval was appended when the row was gone -/
theorem stuck_rejection_overtakes :
    ∃ s pre, run step System.init overtakenRun = some s ∧
      s.history = .execStarted 1 sampleRequest.uuid (claimedRow .confirm 11) :: pre ∧
      ∀ call seen, .audited 1 call seen ∈ pre → seen = none := by
  have h : (run step System.init overtakenRun).map System.history
      = some (.execStarted 1 sampleRequest.uuid (claimedRow .confirm 11) :: overtakenHistory) := by
    decide
  obtain ⟨s, hs, hh⟩ := Option.map_eq_some_iff.mp h
  refine ⟨s, overtakenHistory, hs, hh, fun call seen he => ?_⟩
  simp only [overtakenHistory, List.mem_cons, Event.audited.injEq, List.not_mem_nil, reduceCtorEq,
    false_or, or_false] at he
  rcases he with ⟨_, _, he⟩ | ⟨he, _⟩ | ⟨he, _⟩
  · exact he
  · cases he
  · cases he

end Hitl
