import JinCore.Hitl.RowStep

/-!
# What a label can do

* `ApproveMove`, `approve_move`   how an approval goes on, from one statement to the next;
* `Tells`                   the events that only an approval brings about, by their statements;
* `Event.Passive`           the events of the other calls;
* `Moved`, `step_moved`     what a label does to its call;
* `StepSpec`, `step_spec`   a label moves one call, adds its events and steps every row;
* `approve_step`            where a call stands in an approval, it stood there or has gone on;
* `start_of_event`, `lost_of_event`, `succeeded_of_event`, `failed_of_event`   the statement an event
  comes from.
-/

namespace Hitl
open JsString Common Audit Runs Lease PendingApprovals

/-! ## calls and events -/

def Label.id : Label → CallId
  | .begin id _ | .go id _ | .die id => id

/-- the call an event is about -/
def Event.caller : Event → Option CallId
  | .began id _ | .firstApproved id _ _ | .lostRace id _ _ | .resolved id _ _ | .claimed id _
  | .audited id _ _ | .execStarted id _ _ | .execSucceeded id _ | .execFailed id _
  | .execInterrupted id _ | .evicted id _ _ | .rejected id _ => some id
  | .notified _ => none

/-- an event of a call, or a notification -/
def Event.Of (id : CallId) (e : Event) : Prop := e.caller = some id ∨ e.caller = none

/-- an event that only an approval brings about -/
def Event.approving : Event → Bool
  | .began _ _ | .firstApproved _ _ _ | .lostRace _ _ _ | .resolved _ _ _ | .execStarted _ _ _
  | .execSucceeded _ _ | .execFailed _ _ => true
  | _ => false

/-! ## approvals -/

/-- how an approval goes on when its statement ends, and how it ends -/
inductive ApproveMove (p : PendingApprovals) (id : CallId) (q : RequestId) (approver : JsString) :
    ApprovePc → Next ApprovePc → PendingApprovals → List Event → Prop
  | began (now : Int) (row : PendingApprovalRow) (hp : p.getPending q.uuid = some row) :
      ApproveMove p id q approver .getPending (.goto (.approvalRead now)) p [.began id q.uuid]
  | resolved (now clock : Int) (row : PendingApprovalRow) (hp : p.getPending q.uuid = some row)
      (ha : approvalStep row now = .resolved) :
      ApproveMove p id q approver (.approvalRead now) (.goto (.claim clock)) p
        [.resolved id q.uuid now]
  | first (now : Int) (row : PendingApprovalRow) (hp : p.getPending q.uuid = some row)
      (ha : approvalStep row now = .first) :
      ApproveMove p id q approver (.approvalRead now) (.goto (.approvalUpdate now)) p []
  | won (now : Int) (outcome : Outcome Result) (row : PendingApprovalRow)
      (hp : p.getPending q.uuid = some row) (hf : row.firstApprovedAt = none) :
      ApproveMove p id q approver (.approvalUpdate now) (.finish outcome)
        (p.update q.uuid (setFirst now approver) fun _ => rfl) [.firstApproved id q.uuid now]
  | lost (now : Int)
      (hp : ∀ row, p.getPending q.uuid = some row → row.firstApprovedAt ≠ none) :
      ApproveMove p id q approver (.approvalUpdate now) (.goto (.approvalRead now)) p
        [.lostRace id q.uuid now]
  | claimed (now : Int) (row : PendingApprovalRow) (hp : p.getPending q.uuid = some row)
      (hx : row.executingAt = none) :
      ApproveMove p id q approver (.claim now) (.goto (.audit (setExecuting now row)))
        (p.update q.uuid (setExecuting now) fun _ => rfl) [.claimed id (setExecuting now row)]
  | audited (row : PendingApprovalRow) :
      ApproveMove p id q approver (.audit row) (.goto (.execute row)) p
        [.audited id (.recordApproval q.text approver row.toolName row.inputsHash)
          (p.getPending q.uuid)]
  | unaudited (row : PendingApprovalRow) (error : JsString) (events : List Event)
      (he : ∀ e ∈ events, ∃ seen, e
        = .audited id (.recordApproval q.text approver row.toolName row.inputsHash) seen) :
      ApproveMove p id q approver (.audit row) (.goto (.auditRelease error)) p events
  | started (row : PendingApprovalRow) :
      ApproveMove p id q approver (.execute row) (.goto (.executing row)) p
        [.execStarted id q.uuid row]
  | refused (row : PendingApprovalRow) (error : JsString) :
      ApproveMove p id q approver (.execute row) (.goto (.failureRelease row error)) p []
  | succeeded (row : PendingApprovalRow) (result : JsString) :
      ApproveMove p id q approver (.executing row) (.goto (.remove row result)) p
        [.execSucceeded id q.uuid]
  | failed (row : PendingApprovalRow) (error : JsString) :
      ApproveMove p id q approver (.executing row) (.goto (.failureRelease row error)) p
        [.execFailed id q.uuid]
  | released (row : PendingApprovalRow) (error : JsString) :
      ApproveMove p id q approver (.failureRelease row error) (.goto (.failureAudit row))
        (p.releaseClaim q.uuid (some error)) []
  | ended (pc : ApprovePc) (outcome : Outcome Result) (p' : PendingApprovals)
      (events : List Event) (he : ∀ e ∈ events, ∃ row seen, pc = .failureAudit row ∧ e
        = .audited id (.recordExecutionFailure q.text row.toolName row.inputsHash) seen) :
      ApproveMove p id q approver pc (.finish outcome) p' events

theorem approve_move (p : PendingApprovals) (id : CallId) (q : RequestId) (approver : JsString)
    (reply : Reply) (pc : ApprovePc) :
    ApproveMove p id q approver pc (approve p id q approver reply pc).next
      (approve p id q approver reply pc).pending (approve p id q approver reply pc).events := by
  have hend : ∀ (pc : ApprovePc) (outcome : Outcome Result) (p' : PendingApprovals),
      ApproveMove p id q approver pc (.finish outcome) p' [] :=
    fun pc outcome p' => .ended pc outcome p' [] fun e he => nomatch he
  cases pc with
  | getPending =>
    simp only [approve]
    split
    · cases hp : p.getPending q.uuid with
      | none => exact hend _ _ _
      | some row => exact .began reply.now row hp
    · exact hend _ _ _
  | approvalRead now =>
    simp only [approve]
    split
    · cases hp : p.getPending q.uuid with
      | none => exact hend _ _ _
      | some row =>
        simp only
        cases ha : approvalStep row now with
        | resolved => exact .resolved now reply.now row hp ha
        | first => exact .first now row hp ha
        | tooEarly availableAt => exact hend _ _ _
    · exact hend _ _ _
  | approvalUpdate now =>
    rcases markFirst_cases p q.uuid now approver with ⟨row, hg, hf, hm⟩ | ⟨hf, hm⟩
    · simp only [approve, hm]
      cases reply.fate with
      | lost => exact hend _ _ _
      | ok => exact .won now _ row hg hf
      | applied => exact .won now _ row hg hf
    · simp only [approve, hm]
      cases reply.fate with
      | lost => exact hend _ _ _
      | ok => exact .lost now hf
      | applied => exact hend _ _ _
  | claim now =>
    rcases claimForExecution_cases p q.uuid now with ⟨row, hg, hx, hc⟩ | hc
    · simp only [approve, Move.claim, hc]
      cases reply.fate with
      | lost => exact hend _ _ _
      | ok => exact .claimed now row hg hx
      | applied => exact hend _ _ _
    · simp only [approve, Move.claim, hc]
      cases reply.fate with
      | lost => exact hend _ _ _
      | ok => exact hend _ _ _
      | applied => exact hend _ _ _
  | audit row =>
    simp only [approve, Move.audit]
    cases reply.fate with
    | ok => exact .audited row
    | lost => exact .unaudited row _ [] fun e he => nomatch he
    | applied =>
      refine .unaudited row _ _ fun e he => ?_
      exact ⟨_, List.mem_singleton.mp he⟩
  | auditRelease error =>
    simp only [approve, Move.release, ite_self]
    exact hend _ _ _
  | execute row =>
    simp only [approve]
    split
    · exact .started row
    · exact .refused row reply.text
  | executing row =>
    simp only [approve]
    split
    · exact .succeeded row reply.text
    · exact .failed row reply.text
  | failureRelease row error =>
    simp only [approve, Move.release]
    cases reply.fate with
    | ok => exact .released row error
    | lost => exact hend _ _ _
    | applied => exact hend _ _ _
  | failureAudit row =>
    simp only [approve, Move.audit, ite_self]
    refine .ended _ _ _ _ fun e he => ?_
    split at he
    · exact ⟨row, _, rfl, List.mem_singleton.mp he⟩
    · cases he
  | remove row result =>
    simp only [approve, Move.remove, ite_self]
    exact hend _ _ _

/-- the events of an approval, each with the statement it comes from and how the call goes on -/
inductive Tells (id : CallId) (q : RequestId) : ApprovePc → Next ApprovePc → Event → Prop
  | began (now : Int) :
      Tells id q .getPending (.goto (.approvalRead now)) (.began id q.uuid)
  | resolved (now clock : Int) :
      Tells id q (.approvalRead now) (.goto (.claim clock)) (.resolved id q.uuid now)
  | firstApproved (now : Int) (outcome : Outcome Result) :
      Tells id q (.approvalUpdate now) (.finish outcome) (.firstApproved id q.uuid now)
  | lostRace (now : Int) :
      Tells id q (.approvalUpdate now) (.goto (.approvalRead now)) (.lostRace id q.uuid now)
  | started (row : PendingApprovalRow) :
      Tells id q (.execute row) (.goto (.executing row)) (.execStarted id q.uuid row)
  | succeeded (row : PendingApprovalRow) (result : JsString) :
      Tells id q (.executing row) (.goto (.remove row result)) (.execSucceeded id q.uuid)
  | failed (row : PendingApprovalRow) (error : JsString) :
      Tells id q (.executing row) (.goto (.failureRelease row error)) (.execFailed id q.uuid)

section
variable {id : CallId} {q : RequestId} {approver : JsString} {p p' : PendingApprovals}
  {pc : ApprovePc} {next : Next ApprovePc} {events : List Event} {e : Event}

/-- an event of an approval is the only event of its move -/
theorem ApproveMove.tells (hm : ApproveMove p id q approver pc next p' events) (he : e ∈ events)
    (ha : e.approving = true) : events = [e] ∧ Tells id q pc next e := by
  cases hm with
  | unaudited row error events hall =>
    obtain ⟨seen, rfl⟩ := hall e he
    cases ha
  | ended pc outcome p' events hall =>
    obtain ⟨row, seen, _, rfl⟩ := hall e he
    cases ha
  | began now =>
    cases List.mem_singleton.mp he
    exact ⟨rfl, .began now⟩
  | resolved now clock =>
    cases List.mem_singleton.mp he
    exact ⟨rfl, .resolved now clock⟩
  | won now outcome =>
    cases List.mem_singleton.mp he
    exact ⟨rfl, .firstApproved now outcome⟩
  | lost now =>
    cases List.mem_singleton.mp he
    exact ⟨rfl, .lostRace now⟩
  | claimed =>
    cases List.mem_singleton.mp he
    cases ha
  | audited =>
    cases List.mem_singleton.mp he
    cases ha
  | started row =>
    cases List.mem_singleton.mp he
    exact ⟨rfl, .started row⟩
  | succeeded row result =>
    cases List.mem_singleton.mp he
    exact ⟨rfl, .succeeded row result⟩
  | failed row error =>
    cases List.mem_singleton.mp he
    exact ⟨rfl, .failed row error⟩
  | first => cases he
  | refused => cases he
  | released => cases he

/-- a move of an approval tells of its own call -/
theorem ApproveMove.callers (hm : ApproveMove p id q approver pc next p' events) :
    ∀ e ∈ events, e.Of id := by
  intro e he
  left
  cases hm with
  | unaudited row error events hall =>
    obtain ⟨seen, rfl⟩ := hall e he
    rfl
  | ended pc outcome p' events hall =>
    obtain ⟨row, seen, _, rfl⟩ := hall e he
    rfl
  | first => cases he
  | refused => cases he
  | released => cases he
  | _ =>
    cases List.mem_singleton.mp he
    rfl

end

/-! ## the other calls -/

/-- an event of a call or a notification, not of an approval -/
def Event.Passive (id : CallId) (e : Event) : Prop := e.Of id ∧ e.approving = false

section
variable {π : Type} {id : CallId} {k : JsString} {p : PendingApprovals} {fate : Fate}

theorem passive_nil : ∀ e ∈ ([] : List Event), e.Passive id :=
  fun _ he => absurd he List.not_mem_nil

theorem passive_one {e : Event} (he : e.Passive id) : ∀ x ∈ [e], x.Passive id := by
  intro x hx
  rw [List.mem_singleton.mp hx]
  exact he

theorem passive_notified (n : Notification) : ∀ e ∈ [Event.notified n], e.Passive id :=
  passive_one ⟨Or.inr rfl, rfl⟩

theorem passive_append {es es' : List Event} (h : ∀ e ∈ es, e.Passive id)
    (h' : ∀ e ∈ es', e.Passive id) : ∀ e ∈ es ++ es', e.Passive id :=
  List.forall_mem_append.mpr ⟨h, h'⟩

theorem passive_claim {now : Int} {won : PendingApprovalRow → π} {lost : Move π}
    (hl : ∀ e ∈ lost.events, e.Passive id) :
    ∀ e ∈ (Move.claim p id k now fate won lost).events, e.Passive id := by
  rcases claimForExecution_cases p k now with ⟨row, _, _, hc⟩ | hc
  · cases fate with
    | lost => exact passive_nil
    | ok =>
      simp only [Move.claim, hc]
      exact passive_one ⟨Or.inl rfl, rfl⟩
    | applied =>
      simp only [Move.claim, hc]
      exact passive_nil
  · cases fate with
    | lost => exact passive_nil
    | ok =>
      simp only [Move.claim, hc]
      exact hl
    | applied =>
      simp only [Move.claim, hc]
      exact passive_nil

theorem passive_audit {call : AuditCall} {next lost : Next π} :
    ∀ e ∈ (Move.audit p id k call fate next lost).events, e.Passive id := by
  cases fate with
  | lost => exact passive_nil
  | ok => exact passive_one ⟨Or.inl rfl, rfl⟩
  | applied => exact passive_one ⟨Or.inl rfl, rfl⟩

theorem passive_remove {next lost : Next π} {events : List Event}
    (he : ∀ e ∈ events, e.Passive id) :
    ∀ e ∈ (Move.remove p k fate next lost events).events, e.Passive id := by
  show ∀ e ∈ if fate = .ok then events else [], e.Passive id
  split
  · exact he
  · exact passive_nil

theorem passive_create {input : CreatePendingApprovalInput} {reply : Reply} {pc : CreatePc}
    {m : Move CreatePc} (h : create p id input reply pc = some m) :
    ∀ e ∈ m.events, e.Passive id := by
  cases pc with
  | insert =>
    obtain ⟨p', _, rfl⟩ := Option.map_eq_some_iff.mp h
    cases reply.fate <;> exact passive_nil
  | audit =>
    cases h
    refine passive_append ?_ passive_audit
    split
    · exact passive_notified _
    · exact passive_nil

theorem passive_reject (p : PendingApprovals) (id : CallId) (q : RequestId) (approver : JsString)
    (reply : Reply) (pc : RejectPc) :
    ∀ e ∈ (reject p id q approver reply pc).events, e.Passive id := by
  cases pc with
  | getPending =>
    simp only [reject]
    split
    · cases p.getPending q.uuid with
      | none => exact passive_nil
      | some row => exact passive_nil
    · exact passive_nil
  | claim pending now =>
    refine passive_claim ?_
    split <;> exact passive_nil
  | stuckAudit pending => exact passive_audit
  | stuckRemove now =>
    rcases removeIfNotExecuting_cases p q.uuid now with ⟨row, _, _, hm⟩ | hm
    · simp only [reject, hm]
      cases reply.fate with
      | lost => exact passive_nil
      | applied => exact passive_one ⟨Or.inl rfl, rfl⟩
      | ok =>
        exact passive_append (passive_one ⟨Or.inl rfl, rfl⟩) (passive_one ⟨Or.inl rfl, rfl⟩)
    · simp only [reject, hm]
      cases reply.fate with
      | lost => exact passive_nil
      | ok => exact passive_one ⟨Or.inl rfl, rfl⟩
      | applied => exact passive_nil
  | audit row => exact passive_audit
  | auditRelease => exact passive_nil
  | remove => exact passive_remove (passive_one ⟨Or.inl rfl, rfl⟩)

theorem passive_processPending (id : CallId) (now clock : Int) (rows : List PendingApprovalRow) :
    ∀ e ∈ (processPending now clock rows).2, e.Passive id := by
  induction rows with
  | nil => exact passive_nil
  | cons row rest ih =>
    rw [processPending]
    cases row.executingAt with
    | some at_ =>
      refine passive_append ih ?_
      split
      · exact passive_notified _
      · exact passive_nil
    | none =>
      simp only
      split
      · exact ih
      · exact passive_nil
      · exact passive_nil
      · exact passive_nil

theorem passive_sweepOn {now clock : Int} {rest : List PendingApprovalRow} {told : List Event}
    (ht : ∀ e ∈ told, e.Passive id) : ∀ e ∈ (sweepOn p now clock rest told).events, e.Passive id :=
  passive_append (passive_processPending id now clock rest) ht

theorem passive_sweep (p : PendingApprovals) (id : CallId) (now : Int) (reply : Reply)
    (pc : SweepPc) :
    ∀ e ∈ (sweep p id now reply pc).events, e.Passive id := by
  cases pc with
  | select =>
    simp only [sweep]
    split
    · exact passive_sweepOn passive_nil
    · exact passive_nil
  | claim row rest status claimNow => exact passive_claim (passive_sweepOn passive_nil)
  | audit row rest status => exact passive_audit
  | auditRelease row => exact passive_nil
  | remove row rest status =>
    refine passive_remove (passive_sweepOn ?_)
    cases status with
    | timeout => exact passive_nil
    | abandoned => exact passive_notified _
  | escalate row rest =>
    simp only [sweep]
    cases reply.fate with
    | lost => exact passive_nil
    | applied => exact passive_nil
    | ok => exact passive_sweepOn (passive_notified _)

/-- the last words of a call that dies -/
theorem passive_interrupted (id : CallId) (pc : Pc) : ∀ e ∈ pc.interrupted id, e.Passive id := by
  unfold Pc.interrupted
  split
  · exact passive_one ⟨Or.inl rfl, rfl⟩
  · exact passive_nil

end

/-! ## what a label does to its call -/

inductive Moved (s t : System) : Label → Prop
  | begun (id : CallId) (op : Op) (hs : s.pc id = .idle)
      (ht : t = { s with pc := fun i => if i = id then Pc.start op else s.pc i }) :
      Moved s t (.begin id op)
  | stopped (id : CallId) (ht : t = s.stop id) : Moved s t (.die id)
  | create (id : CallId) (reply : Reply) (input : CreatePendingApprovalInput) (pc : CreatePc)
      (m : Move CreatePc) (hs : s.pc id = .create input pc)
      (hm : create s.pending id input reply pc = some m) (ht : t = s.apply id (.create input) m) :
      Moved s t (.go id reply)
  | approve (id : CallId) (reply : Reply) (q : RequestId) (approver : JsString) (pc : ApprovePc)
      (hs : s.pc id = .approve q approver pc)
      (ht : t = s.apply id (.approve q approver) (approve s.pending id q approver reply pc)) :
      Moved s t (.go id reply)
  | reject (id : CallId) (reply : Reply) (q : RequestId) (approver : JsString) (pc : RejectPc)
      (hs : s.pc id = .reject q approver pc)
      (ht : t = s.apply id (.reject q approver) (reject s.pending id q approver reply pc)) :
      Moved s t (.go id reply)
  | sweep (id : CallId) (reply : Reply) (now : Int) (pc : SweepPc) (hs : s.pc id = .sweep now pc)
      (ht : t = s.apply id (.sweep now) (sweep s.pending id now reply pc)) :
      Moved s t (.go id reply)

theorem step_moved {s t : System} {l : Label} (h : step s l = some t) : Moved s t l := by
  cases l with
  | begin id op =>
    rw [step] at h
    split at h
    next hid => exact .begun id op hid (Option.some.inj h).symm
    next => cases h
  | die id =>
    rw [step] at h
    split at h
    next => cases h
    next => cases h
    next => exact .stopped id (Option.some.inj h).symm
  | go id reply =>
    rw [step] at h
    split at h
    next => cases h
    next => cases h
    next input pc hid =>
      obtain ⟨m, hm, ht⟩ := Option.map_eq_some_iff.mp h
      exact .create id reply input pc m hid hm ht.symm
    next q approver pc hid => exact .approve id reply q approver pc hid (Option.some.inj h).symm
    next q approver pc hid => exact .reject id reply q approver pc hid (Option.some.inj h).symm
    next now pc hid => exact .sweep id reply now pc hid (Option.some.inj h).symm

theorem apply_pc {π : Type} (s : System) (id : CallId) (f : π → Pc) (m : Move π) :
    (s.apply id f m).pc id = m.next.toPc f := if_pos rfl

theorem stop_pc (s : System) (id : CallId) : (s.stop id).pc id = .done .failed := if_pos rfl

theorem stage_toPc {π : Type} {f : π → Pc} {g : π → Option Stage} {r : JsString}
    (h : ∀ pc, (f pc).stage r = g pc) (next : Next π) :
    (next.toPc f).stage r = next.stage g := by
  cases next with
  | goto pc => exact h pc
  | finish outcome => rfl

/-- a call that has not ended has gone on -/
theorem goto_of_toPc {π : Type} {f : π → Pc} {next : Next π} {pc : Pc} (h : next.toPc f = pc)
    (hd : ∀ outcome, pc ≠ .done outcome) : ∃ x, next = .goto x ∧ f x = pc := by
  cases next with
  | goto x => exact ⟨x, rfl, h⟩
  | finish outcome => exact absurd h.symm (hd outcome)

/-! ## every label -/

/-- a label moves its call, adds events of it and steps every row; the events of an approval come
from an approval that goes on -/
structure StepSpec (s t : System) (id : CallId) (events : List Event) : Prop where
  others : ∀ i, i ≠ id → t.pc i = s.pc i
  moved : t.pc id ≠ .idle
  history : t.history = events ++ s.history
  callers : ∀ e ∈ events, e.Of id
  row : ∀ r, RowStep id r s.pending t.pending ((s.pc id).stage r) ((t.pc id).stage r) events
  approving : ∀ e ∈ events, e.approving = true → ∃ q approver pc next,
    s.pc id = .approve q approver pc ∧ t.pc id = next.toPc (.approve q approver) ∧
      events = [e] ∧ Tells id q pc next e
/-- a call that goes on meets the specification if its move does -/
theorem stepSpec_apply {π : Type} {s : System} {id : CallId} {f : π → Pc} {m : Move π}
    (hf : ∀ pc, f pc ≠ .idle) (hc : ∀ e ∈ m.events, e.Of id)
    (hr : ∀ r, RowStep id r s.pending m.pending ((s.pc id).stage r) ((m.next.toPc f).stage r)
      m.events)
    (ha : ∀ e ∈ m.events, e.approving = true → ∃ q approver pc next,
      s.pc id = .approve q approver pc ∧ m.next.toPc f = next.toPc (.approve q approver) ∧
        m.events = [e] ∧ Tells id q pc next e) :
    StepSpec s (s.apply id f m) id m.events := by
  have hpc : (s.apply id f m).pc id = m.next.toPc f := if_pos rfl
  refine ⟨fun i hi => if_neg hi, ?_, rfl, hc, fun r => ?_, fun e he hae => ?_⟩
  · rw [hpc]
    cases m.next with
    | goto pc => exact hf pc
    | finish outcome => exact nofun
  · rw [hpc]
    exact hr r
  · rw [hpc]
    exact ha e he hae

/-- what a label does -/
theorem step_spec {s t : System} {l : Label} (h : step s l = some t) :
    ∃ events, StepSpec s t l.id events := by
  -- only an approval tells the events of one
  have hpassive : ∀ {id : CallId} {events : List Event} {P : Event → Prop},
      (∀ e ∈ events, e.Passive id) → ∀ e ∈ events, e.approving = true → P e := by
    intro id events P hp e he ha
    rw [(hp e he).2] at ha
    cases ha
  cases step_moved h with
  | begun id op hid ht =>
    subst ht
    refine ⟨[], fun i hi => if_neg hi, ?_, rfl, fun e he => absurd he List.not_mem_nil,
      fun r => ?_, fun e he _ => absurd he List.not_mem_nil⟩
    · intro hidle
      have hop : Pc.start op = .idle := (if_pos rfl).symm.trans hidle
      cases op <;> cases hop
    · refine .quiet rfl Iff.rfl ?_ rfl
      show (if id = id then Pc.start op else s.pc id).stage r = (s.pc id).stage r
      rw [if_pos rfl, hid]
      cases op <;> simp [Pc.start, Pc.stage, ApprovePc.stage, RejectPc.stage, SweepPc.stage]
  | stopped id ht =>
    subst ht
    have hev := passive_interrupted id (s.pc id)
    refine ⟨_, fun i hi => if_neg hi, ?_, rfl, fun e he => (hev e he).1, fun r => ?_,
      hpassive hev⟩
    · show (s.stop id).pc id ≠ .idle
      rw [stop_pc]
      exact Pc.noConfusion
    · show RowStep id r _ _ _ (((s.stop id).pc id).stage r) _
      rw [stop_pc]
      exact rowStep_die id r s.pending (s.pc id)
  | create id reply input pc m hid hm ht =>
    subst ht
    have hev := passive_create hm
    refine ⟨_, stepSpec_apply (fun _ => Pc.noConfusion) (fun e he => (hev e he).1) (fun r => ?_)
      (hpassive hev)⟩
    rw [hid, stage_toPc (g := fun _ => none) fun _ => rfl]
    exact rowStep_create hm
  | approve id reply q approver pc hid ht =>
    subst ht
    have hmove := approve_move s.pending id q approver reply pc
    refine ⟨_, stepSpec_apply (fun _ => Pc.noConfusion) hmove.callers (fun r => ?_)
      fun e he ha => ⟨q, approver, pc, _, hid, rfl, hmove.tells he ha⟩⟩
    rw [hid, stage_toPc (g := fun pc => if q.uuid = r then pc.stage else none) fun _ => rfl]
    exact rowStep_approve q approver reply pc
  | reject id reply q approver pc hid ht =>
    subst ht
    have hev := passive_reject s.pending id q approver reply pc
    refine ⟨_, stepSpec_apply (fun _ => Pc.noConfusion) (fun e he => (hev e he).1) (fun r => ?_)
      (hpassive hev)⟩
    rw [hid, stage_toPc (g := fun pc => if q.uuid = r then pc.stage else none) fun _ => rfl]
    exact rowStep_reject q approver reply pc
  | sweep id reply now pc hid ht =>
    subst ht
    have hev := passive_sweep s.pending id now reply pc
    refine ⟨_, stepSpec_apply (fun _ => Pc.noConfusion) (fun e he => (hev e he).1) (fun r => ?_)
      (hpassive hev)⟩
    rw [hid, stage_toPc (g := SweepPc.stage r) fun _ => rfl]
    exact rowStep_sweep now reply pc

/-- where a call stands in an approval after a label, it stood there before, has begun, or has gone
on -/
inductive ApproveStep (s t : System) (l : Label) (id : CallId) (q : RequestId)
    (approver : JsString) (pc' : ApprovePc) : Prop
  | other (hl : l.id ≠ id) (hs : s.pc id = .approve q approver pc')
  | begin (hs : s.pc id = .idle) (hpc : pc' = .getPending) (hp : t.pending = s.pending)
      (hh : t.history = s.history)
  | goto (hl : l.id = id) (pc : ApprovePc) (hs : s.pc id = .approve q approver pc)
      (events : List Event) (hh : t.history = events ++ s.history)
      (hm : ApproveMove s.pending id q approver pc (.goto pc') t.pending events)

theorem approve_step {s t : System} {l : Label} (h : step s l = some t) {id : CallId}
    {q : RequestId} {approver : JsString} {pc' : ApprovePc}
    (ht : t.pc id = .approve q approver pc') : ApproveStep s t l id q approver pc' := by
  by_cases hl : l.id = id
  · rw [← hl] at ht ⊢
    cases step_moved h with
    | begun i op hs htt =>
      subst htt
      have hop : Pc.start op = .approve q approver pc' := (if_pos rfl).symm.trans ht
      cases op with
      | resolveAndExecute q' approver' =>
        cases hop
        exact .begin hs rfl rfl rfl
      | _ => cases hop
    | stopped i htt =>
      subst htt
      rw [show (Label.die i).id = i from rfl, stop_pc] at ht
      cases ht
    | create i reply input pc m hs hm htt =>
      subst htt
      obtain ⟨_, _, h⟩ := goto_of_toPc ((apply_pc ..).symm.trans ht) fun _ => Pc.noConfusion
      cases h
    | reject i reply q' approver' pc hs htt =>
      subst htt
      obtain ⟨_, _, h⟩ := goto_of_toPc ((apply_pc ..).symm.trans ht) fun _ => Pc.noConfusion
      cases h
    | sweep i reply now pc hs htt =>
      subst htt
      obtain ⟨_, _, h⟩ := goto_of_toPc ((apply_pc ..).symm.trans ht) fun _ => Pc.noConfusion
      cases h
    | approve i reply q' approver' pc hs htt =>
      subst htt
      obtain ⟨_, hn, h⟩ := goto_of_toPc ((apply_pc ..).symm.trans ht) fun _ => Pc.noConfusion
      cases h
      have hmove := approve_move s.pending i q approver reply pc
      rw [hn] at hmove
      exact .goto rfl pc hs _ rfl hmove
  · obtain ⟨events, hspec⟩ := step_spec h
    rw [hspec.others id (Ne.symm hl)] at ht
    exact .other hl ht

/-! ## where the events of an approval come from -/

section
variable {s t : System} {id i : CallId} {r : JsString} {row : PendingApprovalRow} {now : Int}
  {events : List Event}

theorem start_of_event (hs : StepSpec s t id events) (he : .execStarted i r row ∈ events) :
    ∃ q approver, s.pc id = .approve q approver (.execute row) ∧ i = id ∧ r = q.uuid ∧
      events = [.execStarted id q.uuid row] := by
  obtain ⟨q, approver, pc, next, hpc, _, hev, htells⟩ := hs.approving _ he rfl
  cases htells with
  | started => exact ⟨q, approver, hpc, rfl, rfl, hev⟩

theorem lost_of_event (hs : StepSpec s t id events) (he : .lostRace i r now ∈ events) :
    ∃ q approver, s.pc id = .approve q approver (.approvalUpdate now) ∧ i = id ∧ r = q.uuid ∧
      events = [.lostRace id q.uuid now] := by
  obtain ⟨q, approver, pc, next, hpc, _, hev, htells⟩ := hs.approving _ he rfl
  cases htells with
  | lostRace => exact ⟨q, approver, hpc, rfl, rfl, hev⟩

theorem succeeded_of_event (hs : StepSpec s t id events) (he : .execSucceeded i r ∈ events) :
    ∃ q approver row result, s.pc id = .approve q approver (.executing row) ∧
      t.pc id = .approve q approver (.remove row result) ∧ i = id ∧ r = q.uuid := by
  obtain ⟨q, approver, pc, next, hpc, hpc', _, htells⟩ := hs.approving _ he rfl
  cases htells with
  | succeeded row result => exact ⟨q, approver, row, result, hpc, hpc', rfl, rfl⟩

theorem failed_of_event (hs : StepSpec s t id events) (he : .execFailed i r ∈ events) :
    ∃ q approver row error, s.pc id = .approve q approver (.executing row) ∧
      t.pc id = .approve q approver (.failureRelease row error) ∧ i = id ∧ r = q.uuid := by
  obtain ⟨q, approver, pc, next, hpc, hpc', _, htells⟩ := hs.approving _ he rfl
  cases htells with
  | failed row error => exact ⟨q, approver, row, error, hpc, hpc', rfl, rfl⟩

end

end Hitl
