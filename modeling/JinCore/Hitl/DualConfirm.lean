import JinCore.Hitl.FailClosed

/-!
# The delay of a dual confirmation

* `SecondApproval`       a `'resolved'` at least 30 s after the first approval of another call;
* `row_origin`           the level of a row never changes, and a first approval is never taken back;
* `DualConfirmed`, `dualConfirmed_step`   the invariant;
* `dual_confirm_delay`   no executor of a `dual-confirm` starts without such a second approval, and a
                         call loses the race to be first once at most;
* `loser_counts`         a call that has lost the race may count as the second approval.
-/

namespace Hitl
open JsString Common Audit Runs Lease PendingApprovals

/-- `recordApproval` has answered `'resolved'` to the call, at least 30 s after the first approval
of another call, which came before -/
def SecondApproval (id : CallId) (r : JsString) (h : List Event) : Prop :=
  ∃ later earlier w first now, h = later ++ .resolved id r now :: earlier ∧ w ≠ id ∧
    .firstApproved w r first ∈ earlier ∧ first + dualConfirmDelayMs ≤ now

def Event.lost (id : CallId) : Event → Bool
  | .lostRace i _ _ => decide (i = id)
  | _ => false

/-- the first approval of a row is the one the history tells of -/
def RowApprovals (h : List Event) (r : JsString) (row : PendingApprovalRow) : Prop :=
  row.firstApprovedAt = none ∨ ∃ w first, row.firstApprovedAt = some first ∧
    row.availableAt = some (computeAvailableAt first) ∧ .firstApproved w r first ∈ h

/-- what the statement an approval awaits says of the row and of the past -/
def DelayFact (id : CallId) (r : JsString) (p : PendingApprovals) (h : List Event) :
    ApprovePc → Prop
  | .getPending => ∀ e ∈ h, e.lost id = false
  | .approvalRead _ => r ∈ p.used ∧ ((∀ e ∈ h, e.lost id = false) ∨
      ∀ row, p.getPending r = some row → row.firstApprovedAt ≠ none)
  | .approvalUpdate _ => r ∈ p.used ∧ ∀ e ∈ h, e.lost id = false
  | .claim _ => r ∈ p.used ∧
      ∀ row, p.getPending r = some row → row.level = .dualConfirm → SecondApproval id r h
  | .audit row | .execute row => row.level = .dualConfirm → SecondApproval id r h
  | _ => True

def StartsConfirmed (e : Event) (pre : List Event) : Prop :=
  ∀ id r row, e = .execStarted id r row → row.level = .dualConfirm → SecondApproval id r pre

structure DualConfirmed (s : System) : Prop where
  closed : FailClosed s
  rows : ∀ r row, s.pending.getPending r = some row → RowApprovals s.history r row
  calls : ∀ id q approver pc, s.pc id = .approve q approver pc →
    DelayFact id q.uuid s.pending s.history pc
  once : ∀ id, s.history.countP (Event.lost id) ≤ 1
  starts : Each StartsConfirmed s.history

section
variable {s t : System} {id : CallId} {r : JsString} {p p' : PendingApprovals}
  {events h : List Event} {before after : Option Stage}

theorem SecondApproval.mono (hs : SecondApproval id r h) (events : List Event) :
    SecondApproval id r (events ++ h) := by
  obtain ⟨later, earlier, w, first, now, he, hrest⟩ := hs
  refine ⟨events ++ later, earlier, w, first, now, ?_, hrest⟩
  rw [he, List.append_assoc]

theorem eq_lostRace {e : Event} (he : e.lost id = true) : ∃ r now, e = .lostRace id r now := by
  unfold Event.lost at he
  split at he
  next i r now =>
    rw [of_decide_eq_true he]
    exact ⟨r, now, rfl⟩
  next => cases he

theorem caller_of_lost {e : Event} (he : e.lost id = true) : e.caller = some id := by
  obtain ⟨r, now, rfl⟩ := eq_lostRace he
  rfl

theorem not_lost_of {e : Event} {j : CallId} (he : e.Of j) (hj : j ≠ id) : e.lost id = false := by
  rw [Bool.eq_false_iff]
  intro hl
  have hc := caller_of_lost hl
  rcases he with he | he <;> rw [he] at hc
  · exact hj (Option.some.inj hc)
  · cases hc

theorem used_mono (h : RowStep id r p p' before after events) (hr : r ∈ p.used) : r ∈ p'.used := by
  cases h with
  | quiet _ hu => exact hu.mpr hr
  | born _ _ _ hu => exact absurd hr hu
  | first _ _ _ _ _ _ hu => exact hu.mpr hr
  | escalate _ _ hu => exact hu.mpr hr
  | claim _ _ _ _ _ hu => exact hu.mpr hr
  | release _ _ hu => exact hu.mpr hr
  | retire _ _ _ hu => exact hu.mpr hr
  | leave _ _ _ hu => exact hu.mpr hr
  | evict _ _ _ _ _ hu => exact hu.mpr hr
  | start _ hu => exact hu.mpr hr
  | succeed _ hu => exact hu.mpr hr
  | fail _ hu => exact hu.mpr hr
  | interrupt _ hu => exact hu.mpr hr

/-- a row comes from the row before it, with its level and its first approval, unless it is new -/
theorem row_origin (h : RowStep id r p p' before after events) (hr : r ∈ p.used)
    {row' : PendingApprovalRow} (hg' : p'.getPending r = some row') :
    ∃ row, p.getPending r = some row ∧ row'.level = row.level ∧
      (row.firstApprovedAt ≠ none → row'.firstApprovedAt ≠ none) := by
  have hsame : p'.getPending r = p.getPending r → ∃ row, p.getPending r = some row ∧
      row'.level = row.level ∧ (row.firstApprovedAt ≠ none → row'.firstApprovedAt ≠ none) := by
    intro hg
    exact ⟨row', hg.symm.trans hg', rfl, fun h => h⟩
  -- an update that keeps the level and the first approval
  have hmap : ∀ f : PendingApprovalRow → PendingApprovalRow,
      (∀ row, (f row).level = row.level ∧ (f row).firstApprovedAt = row.firstApprovedAt) →
      p'.getPending r = (p.getPending r).map f → ∃ row, p.getPending r = some row ∧
      row'.level = row.level ∧ (row.firstApprovedAt ≠ none → row'.firstApprovedAt ≠ none) := by
    intro f hf hg
    obtain ⟨row, hrow, he⟩ := Option.map_eq_some_iff.mp (hg.symm.trans hg')
    refine ⟨row, hrow, ?_, fun hn => ?_⟩
    · rw [← he, (hf row).1]
    · rw [← he, (hf row).2]
      exact hn
  cases h with
  | quiet hg => exact hsame hg
  | born _ _ _ hu => exact absurd hr hu
  | first now approver row hg hf hg'' =>
    rw [hg''] at hg'
    cases hg'
    exact ⟨row, hg, rfl, fun _ => by simp [setFirst]⟩
  | escalate now hg => exact hmap (setEscalated now) (fun _ => ⟨rfl, rfl⟩) hg
  | claim now row hg _ hg'' =>
    exact hmap (setExecuting now) (fun _ => ⟨rfl, rfl⟩) (by rw [hg'', hg, Option.map_some])
  | release error hg => exact hmap (setReleased error) (fun _ => ⟨rfl, rfl⟩) hg
  | retire _ _ hg =>
    rw [hg] at hg'
    cases hg'
  | leave _ _ hg => exact hsame hg
  | evict _ _ _ _ hg'' =>
    rw [hg''] at hg'
    cases hg'
  | start hg => exact hsame hg
  | succeed hg => exact hsame hg
  | fail hg => exact hsame hg
  | interrupt hg => exact hsame hg

/-- the first approvals of the rows stay those of the history -/
theorem rowApprovals_step (h' : RowStep id r p p' before after events)
    (hs : ∀ row, p.getPending r = some row → RowApprovals h r row)
    {row' : PendingApprovalRow} (hg' : p'.getPending r = some row') :
    RowApprovals (events ++ h) r row' := by
  have hmono : ∀ row, RowApprovals h r row → RowApprovals (events ++ h) r row := by
    rintro row (hn | ⟨w, first, hf, ha, he⟩)
    · exact Or.inl hn
    · exact Or.inr ⟨w, first, hf, ha, List.mem_append_right _ he⟩
  have hsame : p'.getPending r = p.getPending r → RowApprovals (events ++ h) r row' :=
    fun hg => hmono row' (hs row' (hg.symm.trans hg'))
  have hmap : ∀ f : PendingApprovalRow → PendingApprovalRow,
      (∀ row, (f row).firstApprovedAt = row.firstApprovedAt ∧
        (f row).availableAt = row.availableAt) →
      p'.getPending r = (p.getPending r).map f → RowApprovals (events ++ h) r row' := by
    intro f hf hg
    obtain ⟨row, hrow, he⟩ := Option.map_eq_some_iff.mp (hg.symm.trans hg')
    have hold := hmono row (hs row hrow)
    rw [RowApprovals, ← (hf row).1, ← (hf row).2, he] at hold
    exact hold
  cases h' with
  | quiet hg => exact hsame hg
  | born input now _ _ _ hg =>
    rw [hg] at hg'
    cases hg'
    exact Or.inl rfl
  | first now approver row hg hf hg'' _ _ _ _ hev =>
    rw [hg''] at hg'
    cases hg'
    exact Or.inr ⟨id, now, rfl, rfl, List.mem_append_left _ hev⟩
  | escalate now hg => exact hmap (setEscalated now) (fun _ => ⟨rfl, rfl⟩) hg
  | claim now row hg _ hg'' =>
    exact hmap (setExecuting now) (fun _ => ⟨rfl, rfl⟩) (by rw [hg'', hg, Option.map_some])
  | release error hg => exact hmap (setReleased error) (fun _ => ⟨rfl, rfl⟩) hg
  | retire _ _ hg =>
    rw [hg] at hg'
    cases hg'
  | leave _ _ hg => exact hsame hg
  | evict _ _ _ _ hg'' =>
    rw [hg''] at hg'
    cases hg'
  | start hg => exact hsame hg
  | succeed hg => exact hsame hg
  | fail hg => exact hsame hg
  | interrupt hg => exact hsame hg

/-! ## one step -/

/-- what the others do leaves the facts of an approval true -/
theorem DelayFact.other {pc : ApprovePc} (hf : DelayFact id r p h pc) {j : CallId} (hj : j ≠ id)
    (hrow : RowStep j r p p' before after events) (hev : ∀ e ∈ events, e.Of j) :
    DelayFact id r p' (events ++ h) pc := by
  have hlost : (∀ e ∈ h, e.lost id = false) → ∀ e ∈ events ++ h, e.lost id = false := by
    intro hh e he
    rcases List.mem_append.mp he with he | he
    · exact not_lost_of (hev e he) hj
    · exact hh e he
  cases pc with
  | getPending => exact hlost hf
  | approvalRead now =>
    obtain ⟨hu, hf⟩ := hf
    refine ⟨used_mono hrow hu, hf.imp hlost fun hall row' hg' => ?_⟩
    obtain ⟨row, hg, _, hfirst⟩ := row_origin hrow hu hg'
    exact hfirst (hall row hg)
  | approvalUpdate now => exact ⟨used_mono hrow hf.1, hlost hf.2⟩
  | claim now =>
    obtain ⟨hu, hf⟩ := hf
    refine ⟨used_mono hrow hu, fun row' hg' hlevel => ?_⟩
    obtain ⟨row, hg, hl, _⟩ := row_origin hrow hu hg'
    exact (hf row hg (hl.symm.trans hlevel)).mono events
  | audit row => exact fun hlevel => (hf hlevel).mono events
  | execute row => exact fun hlevel => (hf hlevel).mono events
  | _ => trivial

/-- an approval that is resolved has been a second approval, if one was needed -/
theorem secondApproval_of_resolved {row : PendingApprovalRow} {now : Int}
    (hrow : RowApprovals h r row) (hd : ∀ e ∈ h, ¬ e.declines id)
    (ha : approvalStep row now = .resolved) (hlevel : row.level = .dualConfirm) :
    SecondApproval id r ([.resolved id r now] ++ h) := by
  rcases hrow with hn | ⟨w, first, hf, havail, he⟩
  · rw [approvalStep, hlevel, hn] at ha
    cases ha
  · simp only [approvalStep, hlevel, hf, havail, Option.getD_some, canAcceptSecondApproval] at ha
    split at ha
    next hle =>
      refine ⟨[], h, w, first, now, rfl, fun hw => ?_, he, of_decide_eq_true hle⟩
      rw [hw] at he
      exact hd _ he rfl
    next => cases ha

theorem delayFact_goto {q : RequestId} {approver : JsString} {pc pc' : ApprovePc}
    (hf : DelayFact id q.uuid p h pc)
    (hrows : ∀ row, p.getPending q.uuid = some row → RowApprovals h q.uuid row)
    (hd : ∀ e ∈ h, ¬ e.declines id)
    (hm : ApproveMove p id q approver pc (.goto pc') p' events) :
    DelayFact id q.uuid p' (events ++ h) pc' := by
  cases hm with
  | began now row hp =>
    refine ⟨mem_used hp, Or.inl fun e he => ?_⟩
    rcases List.mem_append.mp he with he | he
    · rw [List.mem_singleton.mp he]
      rfl
    · exact hf e he
  | resolved now clock row hp ha =>
    refine ⟨mem_used hp, fun row' hg hlevel => ?_⟩
    rw [hp] at hg
    cases hg
    exact secondApproval_of_resolved (hrows row hp) hd ha hlevel
  | first now row hp ha =>
    refine ⟨mem_used hp, ?_⟩
    -- a row that is to be approved first has not been approved, so the call has not lost
    rcases hf.2 with hl | hall
    · exact hl
    · exfalso
      have hne := hall row hp
      unfold approvalStep at ha
      split at ha
      · cases ha
      · split at ha
        next hn => exact hne hn
        next =>
          simp only at ha
          split at ha <;> cases ha
  | lost now hp => exact ⟨hf.1, Or.inr hp⟩
  | claimed now row hp hx =>
    intro hlevel
    exact (hf.2 row hp hlevel).mono _
  | audited => exact fun hlevel => (hf hlevel).mono _
  | _ => trivial

theorem dualConfirmed_calls (hs : DualConfirmed s) {l : Label} (h : step s l = some t)
    {q : RequestId} {approver : JsString} {pc' : ApprovePc}
    (ht : t.pc id = .approve q approver pc') : DelayFact id q.uuid t.pending t.history pc' := by
  obtain ⟨events, hspec⟩ := step_spec h
  cases approve_step h ht with
  | begin hidle hpc hp hh =>
    subst hpc
    intro e he
    rw [hh] at he
    rw [Bool.eq_false_iff]
    exact fun hl => hs.closed.fresh id hidle e he (caller_of_lost hl)
  | goto hl pc hpc events' hh hm =>
    rw [hh]
    exact delayFact_goto (hs.calls id q approver pc hpc) (hs.rows q.uuid)
      (hs.closed.calls id q approver pc hpc).2 hm
  | other hl hpc =>
    rw [hspec.history]
    exact (hs.calls id q approver pc' hpc).other hl (hspec.row q.uuid) hspec.callers

/-- a call that loses the race has not lost it before -/
theorem dualConfirmed_once (hs : DualConfirmed s) (hspec : StepSpec s t id events) (j : CallId) :
    t.history.countP (Event.lost j) ≤ 1 := by
  rw [hspec.history, List.countP_append]
  by_cases hl : ∃ e ∈ events, e.lost j = true
  · obtain ⟨e, he, hej⟩ := hl
    obtain ⟨r, now, rfl⟩ := eq_lostRace hej
    obtain ⟨q, approver, hpc, rfl, rfl, hev⟩ := lost_of_event hspec he
    have h0 : s.history.countP (Event.lost j) = 0 := by
      rw [List.countP_eq_zero]
      intro x hx
      rw [(hs.calls j q approver _ hpc).2 x hx]
      simp
    rw [hev, h0]
    simp [Event.lost]
  · have h0 : events.countP (Event.lost j) = 0 := by
      rw [List.countP_eq_zero]
      exact fun e he hej => hl ⟨e, he, hej⟩
    rw [h0, Nat.zero_add]
    exact hs.once j

theorem dualConfirmed_starts (hs : DualConfirmed s) (hspec : StepSpec s t id events) :
    Each StartsConfirmed t.history := by
  rw [hspec.history]
  by_cases hst : ∃ i r row, Event.execStarted i r row ∈ events
  · obtain ⟨i, r, row, he⟩ := hst
    obtain ⟨q, approver, hpc, rfl, rfl, hev⟩ := start_of_event hspec he
    rw [hev]
    refine ⟨fun i' r' row' heq => ?_, hs.starts⟩
    cases heq
    exact hs.calls _ q approver _ hpc
  · refine Each.append (fun e he pre i r row heq => ?_) hs.starts
    exact absurd ⟨i, r, row, heq ▸ he⟩ hst

end

theorem dualConfirmed_init : DualConfirmed System.init :=
  ⟨failClosed_init, fun r _ h => (nomatch (Table.get_empty r).symm.trans h),
    fun _ _ _ _ h => (nomatch h), fun _ => Nat.zero_le _, trivial⟩

theorem dualConfirmed_step (s : System) (l : Label) (t : System) (hs : DualConfirmed s)
    (h : step s l = some t) : DualConfirmed t := by
  obtain ⟨events, hspec⟩ := step_spec h
  refine ⟨failClosed_step s l t hs.closed h, fun r row hg => ?_,
    fun id q approver pc ht => dualConfirmed_calls hs h ht, dualConfirmed_once hs hspec,
    dualConfirmed_starts hs hspec⟩
  rw [hspec.history]
  exact rowApprovals_step (hspec.row r) (hs.rows r) hg

/-- **The delay.**  In every run, the executor of a `dual-confirm` starts only in a call whose
`recordApproval` was resolved at a `now` at least 30 s after that of the first approval, which was
another call's and came before; and no call loses the race to be first more than once, so that the
retry ends. -/
theorem dual_confirm_delay (ls : List Label) (s : System) (h : run step System.init ls = some s) :
    (∀ post id r row pre, s.history = post ++ .execStarted id r row :: pre →
      row.level = .dualConfirm → SecondApproval id r pre) ∧
    ∀ id, s.history.countP (Event.lost id) ≤ 1 := by
  have hs := run_inv dualConfirmed_step ls _ _ dualConfirmed_init h
  exact ⟨fun post id r row pre hh => each_iff.mp hs.starts post _ pre hh id r row rfl, hs.once⟩

/-- call 1 approves at time 10, call 2 confirms half a minute later -/
def confirmedRun : List Label :=
  creation .dualConfirm ++ [approval 1, okAt 1 10, okAt 1 11, okAt 1 12, approval 2, okAt 2 30010,
    okAt 2 30011, okAt 2 30012, okAt 2 30013, okAt 2 30014]

theorem dual_confirm_delay_confirmed :
    ∃ s post pre, run step System.init confirmedRun = some s ∧
      s.history = post ++ .execStarted 2 sampleRequest.uuid
        (setExecuting 30011 (setFirst 10 (lit "owner") (newRow (sampleInput .dualConfirm) 0))) :: pre ∧
      SecondApproval 2 sampleRequest.uuid pre := by
  have h : (run step System.init confirmedRun).map (fun s => decide (.execStarted 2
      sampleRequest.uuid (setExecuting 30011 (setFirst 10 (lit "owner")
        (newRow (sampleInput .dualConfirm) 0))) ∈ s.history)) = some true := by
    decide
  obtain ⟨s, hs, hmem⟩ := Option.map_eq_some_iff.mp h
  obtain ⟨post, pre, hh⟩ := List.append_of_mem (of_decide_eq_true hmem)
  exact ⟨s, post, pre, hs, hh,
    (dual_confirm_delay confirmedRun s hs).1 post 2 sampleRequest.uuid _ pre hh rfl⟩

/-- call 1 reads the unapproved row at time 10 and call 2 at time 30500; call 1 writes first -/
def lateLoserRun : List Label :=
  creation .dualConfirm ++ [approval 1, okAt 1 10, okAt 1 11, approval 2, okAt 2 30500, okAt 2 30501,
    okAt 1 30502, okAt 2 30503, okAt 2 30504, okAt 2 30505, okAt 2 30506, okAt 2 30507]

/-- a call that has lost the race to be first counts as the second approval -/
theorem loser_counts :
    ∃ s row, run step System.init lateLoserRun = some s ∧
      .lostRace 2 sampleRequest.uuid 30500 ∈ s.history ∧
      .execStarted 2 sampleRequest.uuid row ∈ s.history := by
  have h : (run step System.init lateLoserRun).map (fun s =>
      decide (.lostRace 2 sampleRequest.uuid 30500 ∈ s.history ∧ .execStarted 2 sampleRequest.uuid
        (setExecuting 30504 (setFirst 10 (lit "owner") (newRow (sampleInput .dualConfirm) 0)))
          ∈ s.history)) = some true := by
    decide
  obtain ⟨s, hs, hmem⟩ := Option.map_eq_some_iff.mp h
  obtain ⟨hl, hst⟩ := of_decide_eq_true hmem
  exact ⟨s, _, hs, hl, hst⟩

end Hitl
