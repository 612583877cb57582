import JinCore.ExecutorClient.Rows

/-!
# What the calls on approvals keep of the rows

A row is inserted once, and of its columns those that say what it asks for are never written again.  A call holds
copies of the rows that it has read, and it audits, executes and tells what its copies say.

* `SameRequest`     the columns that no statement changes;
* `Pc.copies`       the rows that a call has read and still holds;
* `Event.Meets`     an event tells of a row that meets a predicate;
* `Meets`           every row and every copy of one meets it; `meets_step`.
-/

namespace Hitl
open JsString Common Tools Audit Runs PendingApprovals

/-- the columns that no statement changes are the same -/
structure SameRequest (row row' : PendingApprovalRow) : Prop where
  requestId : row'.requestId = row.requestId
  toolName : row'.toolName = row.toolName
  level : row'.level = row.level
  inputsHash : row'.inputsHash = row.inputsHash
  planSummary : row'.planSummary = row.planSummary
  actor : row'.actor = row.actor
  externalInputsSummary : row'.externalInputsSummary = row.externalInputsSummary
  payload : row'.payload = row.payload

theorem SameRequest.trans {row row' row'' : PendingApprovalRow} (h : SameRequest row row')
    (h' : SameRequest row' row'') : SameRequest row row'' where
  requestId := h'.requestId.trans h.requestId
  toolName := h'.toolName.trans h.toolName
  level := h'.level.trans h.level
  inputsHash := h'.inputsHash.trans h.inputsHash
  planSummary := h'.planSummary.trans h.planSummary
  actor := h'.actor.trans h.actor
  externalInputsSummary := h'.externalInputsSummary.trans h.externalInputsSummary
  payload := h'.payload.trans h.payload

def ApprovePc.copies : ApprovePc → List PendingApprovalRow
  | .audit row | .execute row | .executing row | .failureRelease row _ | .failureAudit row | .remove row _ => [row]
  | .getPending | .approvalRead _ | .approvalUpdate _ | .claim _ | .auditRelease _ => []

def RejectPc.copies : RejectPc → List PendingApprovalRow
  | .claim row _ | .stuckAudit row | .audit row => [row]
  | .getPending | .stuckRemove _ | .auditRelease | .remove => []

def SweepPc.copies : SweepPc → List PendingApprovalRow
  | .claim row rest _ _ | .audit row rest _ | .remove row rest _ | .escalate row rest => row :: rest
  | .auditRelease row => [row]
  | .select => []

/-- a creation that has inserted its row knows what it has inserted -/
def CreatePc.copies (input : CreatePendingApprovalInput) : CreatePc → List PendingApprovalRow
  | .insert => []
  | .audit => [newRow input 0]

def Pc.copies : Pc → List PendingApprovalRow
  | .create input pc => pc.copies input
  | .approve _ _ pc => pc.copies
  | .reject _ _ pc => pc.copies
  | .sweep _ pc => pc.copies
  | .idle | .done _ => []

/-- the row is that of the request of the call, where the call has one -/
def Pc.About (row : PendingApprovalRow) : Pc → Prop
  | .approve q _ _ | .reject q _ _ => row.requestId = q.uuid
  | _ => True

section
variable (Q : PendingApprovalRow → Prop)

/-- an audit row names a request, its tool and its inputs -/
def Says : AuditCall → Prop
  | .recordToolCall requestId actor toolName inputsHash planSummary _ externalInputsSummary =>
    ∃ row, Q row ∧ uuidColumn requestId = some row.requestId ∧ actor = row.actor.getD (lit "agent") ∧
      toolName = row.toolName ∧ inputsHash = row.inputsHash ∧ planSummary = row.planSummary ∧
      externalInputsSummary = row.externalInputsSummary
  | .recordApproval requestId _ toolName inputsHash
  | .recordRejection requestId _ toolName inputsHash
  | .recordExecutionFailure requestId toolName inputsHash =>
    ∃ row, Q row ∧ uuidColumn requestId = some row.requestId ∧ toolName = row.toolName ∧
      inputsHash = row.inputsHash
  | .recordTimeout requestId toolName inputsHash _ =>
    ∃ row, Q row ∧ requestId = row.requestId ∧ toolName = row.toolName ∧ inputsHash = row.inputsHash

def Notification.Meets : Notification → Prop
  | .created requestId toolName level =>
    ∃ row, Q row ∧ requestId = row.requestId ∧ toolName = row.toolName ∧ level = row.level
  | .escalated requestId toolName | .abandoned requestId toolName | .stuck requestId toolName =>
    ∃ row, Q row ∧ requestId = row.requestId ∧ toolName = row.toolName

/-- what is claimed, audited, executed and told is that of a row -/
def Event.Meets : Event → Prop
  | .claimed _ row => Q row
  | .audited _ call seen => Says Q call ∧ ∀ row, seen = some row → Q row
  | .execStarted _ requestId row => Q row ∧ row.requestId = requestId
  | .notified notification => notification.Meets Q
  | _ => True

/-- every row, and every copy of one that a call holds -/
structure Meets (s : System) : Prop where
  table : ∀ r row, s.pending.getPending r = some row → Q row
  copies : ∀ x, ∀ row ∈ (s.pc x).copies, Q row ∧ (s.pc x).About row

/-- what a statement leaves -/
structure MoveMeets {π : Type} (f : π → Pc) (m : Move π) : Prop where
  table : ∀ r row, m.pending.getPending r = some row → Q row
  next : ∀ row ∈ (m.next.toPc f).copies, Q row ∧ (m.next.toPc f).About row
  events : ∀ e ∈ m.events, e.Meets Q

end

section
variable {Q Q' : PendingApprovalRow → Prop} {p : PendingApprovals} {s t : System} {l : Label} {id : CallId}
  {π : Type} {f : π → Pc}

/-! ## predicates that grow -/

theorem Says.mono (h : ∀ row, Q row → Q' row) {call : AuditCall} (hcall : Says Q call) : Says Q' call := by
  cases call <;> exact hcall.imp fun row hrow => hrow.imp_left (h row)

theorem Notification.Meets.mono (h : ∀ row, Q row → Q' row) {notification : Notification}
    (hn : notification.Meets Q) : notification.Meets Q' := by
  cases notification <;> exact hn.imp fun row hrow => hrow.imp_left (h row)

theorem Event.Meets.mono (h : ∀ row, Q row → Q' row) {e : Event} (he : e.Meets Q) : e.Meets Q' := by
  cases e with
  | claimed x row => exact h row he
  | audited x call seen => exact ⟨he.1.mono h, fun row hrow => h row (he.2 row hrow)⟩
  | execStarted x r row => exact ⟨h row he.1, he.2⟩
  | notified notification => exact Notification.Meets.mono h he
  | _ => trivial

theorem Meets.mono (h : ∀ row, Q row → Q' row) (hs : Meets Q s) : Meets Q' s where
  table r row hrow := h row (hs.table r row hrow)
  copies x row hrow := (hs.copies x row hrow).imp_left (h row)

/-! ## the statements that the calls share -/

theorem meets_nil : ∀ e ∈ ([] : List Event), e.Meets Q := fun _ he => absurd he List.not_mem_nil

theorem meets_one {e : Event} (he : e.Meets Q) : ∀ e' ∈ [e], e'.Meets Q := by
  intro e' hmem
  rw [List.mem_singleton.mp hmem]
  exact he

theorem copies_nil {pc : π} (h : (f pc).copies = []) :
    ∀ row ∈ ((Next.goto pc).toPc f).copies, Q row ∧ ((Next.goto pc).toPc f).About row := by
  intro row hrow
  rw [show ((Next.goto pc).toPc f).copies = [] from h] at hrow
  exact absurd hrow List.not_mem_nil

theorem copies_one {pc : π} {row : PendingApprovalRow} (h : (f pc).copies = [row]) (hrow : Q row)
    (habout : (f pc).About row) :
    ∀ copy ∈ ((Next.goto pc).toPc f).copies, Q copy ∧ ((Next.goto pc).toPc f).About copy := by
  intro copy hcopy
  rw [show ((Next.goto pc).toPc f).copies = [row] from h, List.mem_singleton] at hcopy
  rw [hcopy]
  exact ⟨hrow, habout⟩

theorem copies_finish (outcome : Outcome Result) (row : PendingApprovalRow)
    (h : row ∈ ((Next.finish outcome : Next π).toPc f).copies) :
    Q row ∧ ((Next.finish outcome : Next π).toPc f).About row := absurd h List.not_mem_nil

section
variable (ht : ∀ r row, p.getPending r = some row → Q row)
include ht

theorem moveMeets_fail : MoveMeets Q f (.fail p) := ⟨ht, copies_finish _, meets_nil⟩

theorem moveMeets_throw (error : JinError) : MoveMeets Q f (.throw p error) :=
  ⟨ht, copies_finish _, meets_nil⟩

/-- a statement that leaves the table alone -/
theorem moveMeets_still {next : Next π} {events : List Event}
    (hnext : ∀ row ∈ (next.toPc f).copies, Q row ∧ (next.toPc f).About row) (hevents : ∀ e ∈ events, e.Meets Q) :
    MoveMeets Q f ⟨p, next, events⟩ := ⟨ht, hnext, hevents⟩

theorem table_removePending (r : JsString) :
    ∀ j row, (p.removePending r).getPending j = some row → Q row := by
  intro j row hrow
  rw [getPending_removePending] at hrow
  split at hrow
  next => cases hrow
  next => exact ht j row hrow

theorem moveMeets_remove {r : JsString} {fate : Fate} {next lost : Next π} {events : List Event}
    (hnext : ∀ row ∈ (next.toPc f).copies, Q row ∧ (next.toPc f).About row)
    (hlost : ∀ row ∈ (lost.toPc f).copies, Q row ∧ (lost.toPc f).About row)
    (hevents : ∀ e ∈ events, e.Meets Q) : MoveMeets Q f (.remove p r fate next lost events) := by
  unfold Move.remove
  refine ⟨?_, ?_, ?_⟩
  · show ∀ j row, (if fate.applies then p.removePending r else p).getPending j = some row → Q row
    split
    · exact table_removePending ht r
    · exact ht
  · show ∀ row ∈ ((if fate = .ok then next else lost).toPc f).copies, Q row ∧ _
    split
    · exact hnext
    · exact hlost
  · show ∀ e ∈ (if fate = .ok then events else []), e.Meets Q
    split
    · exact hevents
    · exact meets_nil

theorem moveMeets_audit {r : JsString} {call : AuditCall} {fate : Fate} {next lost : Next π}
    (hcall : Says Q call) (hnext : ∀ row ∈ (next.toPc f).copies, Q row ∧ (next.toPc f).About row)
    (hlost : ∀ row ∈ (lost.toPc f).copies, Q row ∧ (lost.toPc f).About row) :
    MoveMeets Q f (.audit p id r call fate next lost) := by
  unfold Move.audit
  refine ⟨ht, ?_, ?_⟩
  · show ∀ row ∈ ((if fate = .ok then next else lost).toPc f).copies, Q row ∧ _
    split
    · exact hnext
    · exact hlost
  · show ∀ e ∈ (if fate.applies then [Event.audited id call (p.getPending r)] else []), e.Meets Q
    split
    · exact meets_one ⟨hcall, fun row hrow => ht r row hrow⟩
    · exact meets_nil

end

section
variable (hQ : ∀ row row' : PendingApprovalRow, SameRequest row row' → Q row → Q row')
  (ht : ∀ r row, p.getPending r = some row → Q row)
include hQ ht

theorem table_update (r : JsString) {g : PendingApprovalRow → PendingApprovalRow}
    (hg : ∀ row, SameRequest row (g row)) :
    ∀ j row, (p.update r g fun row => (hg row).requestId).getPending j = some row → Q row := by
  intro j row hrow
  rw [getPending_update] at hrow
  split at hrow
  next =>
    obtain ⟨old, hold, rfl⟩ := Option.map_eq_some_iff.mp hrow
    exact hQ old _ (hg old) (ht r old hold)
  next => exact ht j row hrow

theorem moveMeets_claim {r : JsString} {now : Int} {fate : Fate} {won : PendingApprovalRow → π} {lost : Move π}
    (hwon : ∀ row, Q row → row.requestId = r →
      ∀ copy ∈ (f (won row)).copies, Q copy ∧ (f (won row)).About copy)
    (hlost : MoveMeets Q f lost) : MoveMeets Q f (.claim p id r now fate won lost) := by
  obtain ⟨row, hrow, -, hclaim⟩ | hclaim := claimForExecution_cases p r now
  · have htable := table_update hQ ht r fun x => (⟨rfl, rfl, rfl, rfl, rfl, rfl, rfl, rfl⟩ :
      SameRequest x (setExecuting now x))
    have hclaimed : Q (setExecuting now row) := hQ row _ ⟨rfl, rfl, rfl, rfl, rfl, rfl, rfl, rfl⟩ (ht r row hrow)
    unfold Move.claim
    rw [hclaim]
    cases fate with
    | lost => exact moveMeets_fail ht
    | applied => exact moveMeets_fail htable
    | ok =>
      have hid : row.requestId = r := requestId_of_getPending hrow
      exact ⟨htable, hwon _ hclaimed hid, meets_one hclaimed⟩
  · unfold Move.claim
    rw [hclaim]
    cases fate with
    | lost => exact moveMeets_fail ht
    | applied => exact moveMeets_fail ht
    | ok => exact hlost

theorem moveMeets_release {r : JsString} {error : Option JsString} {fate : Fate} {next : Next π}
    (hnext : ∀ row ∈ (next.toPc f).copies, Q row ∧ (next.toPc f).About row) :
    MoveMeets Q f (.release p r error fate next) := by
  unfold Move.release
  refine ⟨?_, ?_, meets_nil⟩
  · show ∀ j row, (if fate.applies then p.releaseClaim r error else p).getPending j = some row → Q row
    split
    · exact table_update hQ ht r (g := setReleased error) fun x => ⟨rfl, rfl, rfl, rfl, rfl, rfl, rfl, rfl⟩
    · exact ht
  · show ∀ row ∈ ((if fate = .ok then next else .finish .failed).toPc f).copies, Q row ∧ _
    split
    · exact hnext
    · exact copies_finish _

/-! ## the calls -/

theorem moveMeets_create {input : CreatePendingApprovalInput} {pc : CreatePc} {reply : Reply} {m : Move CreatePc}
    (hpc : ∀ row ∈ pc.copies input, Q row)
    (hinsert : pc = .insert → p.insert input reply.now = some m.pending → Q (newRow input 0))
    (hm : create p id input reply pc = some m) : MoveMeets Q (.create input) m := by
  cases pc with
  | insert =>
    obtain ⟨p', hp', rfl⟩ := Option.map_eq_some_iff.mp hm
    have htable (hrow : Q (newRow input 0)) : ∀ r row, p'.getPending r = some row → Q row := by
      intro r row hfound
      rw [(insert_cases hp').2.2] at hfound
      split at hfound
      next =>
        cases hfound
        exact hQ (newRow input 0) _ ⟨rfl, rfl, rfl, rfl, rfl, rfl, rfl, rfl⟩ hrow
      next => exact ht r row hfound
    cases hfate : reply.fate with
    | lost => exact moveMeets_fail ht
    | applied =>
      rw [hfate] at hinsert
      exact moveMeets_fail (htable (hinsert rfl hp'))
    | ok =>
      rw [hfate] at hinsert
      have hrow := hinsert rfl hp'
      refine ⟨htable hrow, fun row hmem => ⟨?_, trivial⟩, meets_nil⟩
      rw [show row = newRow input 0 from List.mem_singleton.mp hmem]
      exact hrow
  | audit =>
    cases hm
    have hrow : Q (newRow input 0) := hpc _ List.mem_cons_self
    have haudit : MoveMeets Q (.create input) (Move.audit p id input.requestId.uuid input.auditCall reply.fate
        (.finish (.returned .created)) (.finish .failed)) := by
      refine moveMeets_audit ht ?_ (copies_finish _) (copies_finish _)
      exact ⟨newRow input 0, hrow, input.requestId.cast, rfl, rfl, rfl, rfl, rfl⟩
    refine ⟨haudit.table, haudit.next, fun e he => ?_⟩
    obtain he | he := List.mem_append.mp he
    · split at he
      · rw [List.mem_singleton] at he
        rw [he]
        exact ⟨newRow input 0, hrow, rfl, rfl, rfl⟩
      · cases he
    · exact haudit.events e he

theorem moveMeets_approve {q : RequestId} {approver : JsString} {reply : Reply} {pc : ApprovePc}
    (hpc : ∀ row ∈ pc.copies, Q row ∧ row.requestId = q.uuid) :
    MoveMeets Q (.approve q approver) (approve p id q approver reply pc) := by
  have hkeep : ∀ (row : PendingApprovalRow) (next : ApprovePc), row ∈ pc.copies → next.copies = [row] →
      ∀ copy ∈ ((Next.goto next).toPc (Pc.approve q approver)).copies,
        Q copy ∧ ((Next.goto next).toPc (Pc.approve q approver)).About copy :=
    fun row next hmem hnext => copies_one hnext (hpc row hmem).1 (hpc row hmem).2
  cases pc with
  | getPending =>
    simp only [approve]
    split
    · split
      · exact moveMeets_throw ht _
      · exact moveMeets_still ht (copies_nil rfl) (meets_one trivial)
    · exact moveMeets_fail ht
  | approvalRead now =>
    simp only [approve]
    split
    · split
      · exact moveMeets_throw ht _
      · split
        · exact moveMeets_still ht (copies_nil rfl) (meets_one trivial)
        · exact moveMeets_still ht (copies_nil rfl) meets_nil
        · exact moveMeets_throw ht _
    · exact moveMeets_fail ht
  | approvalUpdate now =>
    obtain ⟨row, hrow, -, hmark⟩ | ⟨-, hmark⟩ := markFirst_cases p q.uuid now approver
    · have htable := table_update hQ ht q.uuid fun x => (⟨rfl, rfl, rfl, rfl, rfl, rfl, rfl, rfl⟩ :
        SameRequest x (setFirst now approver x))
      simp only [approve, hmark]
      cases reply.fate with
      | lost => exact moveMeets_fail ht
      | ok => exact ⟨htable, copies_finish _, meets_one trivial⟩
      | applied => exact ⟨htable, copies_finish _, meets_one trivial⟩
    · simp only [approve, hmark]
      cases reply.fate with
      | lost => exact moveMeets_fail ht
      | ok => exact moveMeets_still ht (copies_nil rfl) (meets_one trivial)
      | applied => exact moveMeets_fail ht
  | claim now =>
    refine moveMeets_claim hQ ht (fun row hrow hid copy hcopy => ?_) (moveMeets_throw ht _)
    rw [List.mem_singleton.mp hcopy]
    exact ⟨hrow, hid⟩
  | audit row =>
    obtain ⟨hrow, hid⟩ := hpc row List.mem_cons_self
    refine moveMeets_audit ht ⟨row, hrow, ?_, rfl, rfl⟩ (hkeep row _ List.mem_cons_self rfl) (copies_nil rfl)
    rw [hid]
    exact q.cast
  | auditRelease error => exact moveMeets_release hQ ht (copies_finish _)
  | execute row =>
    simp only [approve]
    split
    · exact moveMeets_still ht (hkeep row _ List.mem_cons_self rfl) (meets_one (hpc row List.mem_cons_self))
    · exact moveMeets_still ht (hkeep row _ List.mem_cons_self rfl) meets_nil
  | executing row =>
    simp only [approve]
    split
    · exact moveMeets_still ht (hkeep row _ List.mem_cons_self rfl) (meets_one trivial)
    · exact moveMeets_still ht (hkeep row _ List.mem_cons_self rfl) (meets_one trivial)
  | failureRelease row error => exact moveMeets_release hQ ht (hkeep row _ List.mem_cons_self rfl)
  | failureAudit row =>
    obtain ⟨hrow, hid⟩ := hpc row List.mem_cons_self
    refine moveMeets_audit ht ⟨row, hrow, ?_, rfl, rfl⟩ (copies_finish _) (copies_finish _)
    rw [hid]
    exact q.cast
  | remove row result => exact moveMeets_remove ht (copies_finish _) (copies_finish _) meets_nil

theorem moveMeets_reject {q : RequestId} {approver : JsString} {reply : Reply} {pc : RejectPc}
    (hpc : ∀ row ∈ pc.copies, Q row ∧ row.requestId = q.uuid) :
    MoveMeets Q (.reject q approver) (reject p id q approver reply pc) := by
  cases pc with
  | getPending =>
    simp only [reject]
    split
    · split
      · exact moveMeets_throw ht _
      · next row hrow =>
        exact moveMeets_still ht (copies_one rfl (ht _ row hrow) (requestId_of_getPending hrow)) meets_nil
    · exact moveMeets_fail ht
  | claim row now =>
    obtain ⟨hrow, hid⟩ := hpc row List.mem_cons_self
    refine moveMeets_claim hQ ht (fun copy hcopy hid => copies_one rfl hcopy hid) ?_
    split
    · exact moveMeets_still ht (copies_one rfl hrow hid) meets_nil
    · exact moveMeets_throw ht _
  | stuckAudit row =>
    obtain ⟨hrow, hid⟩ := hpc row List.mem_cons_self
    refine moveMeets_audit ht ⟨row, hrow, ?_, rfl, rfl⟩ (copies_nil rfl) (copies_finish _)
    rw [hid]
    exact q.cast
  | stuckRemove now =>
    have hevents : ∀ e ∈ [Event.rejected id q.uuid, .evicted id q.uuid now], e.Meets Q := by
      intro e he
      obtain he | he := List.mem_cons.mp he
      · rw [he]
        trivial
      · rw [List.mem_singleton.mp he]
        trivial
    obtain ⟨row, -, -, hremove⟩ | hremove := removeIfNotExecuting_cases p q.uuid now
    · simp only [reject, hremove]
      cases reply.fate with
      | lost => exact moveMeets_fail ht
      | ok => exact ⟨table_removePending ht q.uuid, copies_finish _, hevents⟩
      | applied =>
        refine ⟨table_removePending ht q.uuid, copies_finish _, fun e he => ?_⟩
        exact hevents e (List.mem_cons_of_mem _ he)
    · simp only [reject, hremove]
      cases reply.fate with
      | lost => exact moveMeets_fail ht
      | ok => exact moveMeets_still ht (copies_finish _) fun e he =>
        hevents e (List.mem_cons.mpr (Or.inl (List.mem_singleton.mp he)))
      | applied => exact moveMeets_fail ht
  | audit row =>
    obtain ⟨hrow, hid⟩ := hpc row List.mem_cons_self
    refine moveMeets_audit ht ⟨row, hrow, ?_, rfl, rfl⟩ (copies_nil rfl) (copies_nil rfl)
    rw [hid]
    exact q.cast
  | auditRelease => exact moveMeets_release hQ ht (copies_finish _)
  | remove =>
    exact moveMeets_remove ht (copies_finish _) (copies_finish _) (meets_one trivial)

omit hQ ht in
/-- the rows that a sweep goes on with are those that it has left, and so are those that it tells of -/
theorem processPending_meets (now clock : Int) {rows : List PendingApprovalRow} (hrows : ∀ row ∈ rows, Q row) :
    (∀ row ∈ ((processPending now clock rows).1.toPc (Pc.sweep now)).copies, Q row) ∧
      ∀ e ∈ (processPending now clock rows).2, e.Meets Q := by
  induction rows with
  | nil => exact ⟨fun _ h => absurd h List.not_mem_nil, fun _ h => absurd h List.not_mem_nil⟩
  | cons row rest ih =>
    have hrest := ih fun x hx => hrows x (List.mem_cons_of_mem _ hx)
    unfold processPending
    split
    · refine ⟨hrest.1, fun e he => ?_⟩
      obtain he | he := List.mem_append.mp he
      · exact hrest.2 e he
      · split at he
        · rw [List.mem_singleton.mp he]
          exact ⟨row, hrows row List.mem_cons_self, rfl, rfl⟩
        · cases he
    · dsimp only
      split
      · exact hrest
      · exact ⟨hrows, meets_nil⟩
      · exact ⟨hrows, meets_nil⟩
      · exact ⟨hrows, meets_nil⟩

theorem moveMeets_sweep {now : Int} {reply : Reply} {pc : SweepPc} (hpc : ∀ row ∈ pc.copies, Q row) :
    MoveMeets Q (.sweep now) (sweep p id now reply pc) := by
  have hon : ∀ {p : PendingApprovals} {rows : List PendingApprovalRow} {told : List Event},
      (∀ r row, p.getPending r = some row → Q row) → (∀ row ∈ rows, Q row) → (∀ e ∈ told, e.Meets Q) →
      MoveMeets Q (.sweep now) (sweepOn p now reply.now rows told) := by
    intro p rows told ht hrows htold
    obtain ⟨hnext, hevents⟩ := processPending_meets now reply.now hrows
    refine ⟨ht, fun row hrow => ⟨hnext row hrow, ?_⟩, fun e he => ?_⟩
    · show ((processPending now reply.now rows).1.toPc (Pc.sweep now)).About row
      generalize (processPending now reply.now rows).1 = next
      cases next <;> trivial
    · obtain he | he := List.mem_append.mp he
      · exact hevents e he
      · exact htold e he
  cases pc with
  | select =>
    simp only [sweep]
    split
    · refine hon ht (fun row hrow => ?_) meets_nil
      exact ht row.requestId row (Table.get_eq_some_iff.mpr ⟨hrow, rfl⟩)
    · exact moveMeets_fail ht
  | claim row rest status claimNow =>
    have hrest : ∀ x ∈ rest, Q x := fun x hx => hpc x (List.mem_cons_of_mem _ hx)
    exact moveMeets_claim hQ ht (fun _ _ _ copy hcopy => ⟨hpc copy hcopy, trivial⟩) (hon ht hrest meets_nil)
  | audit row rest status =>
    refine moveMeets_audit ht ⟨row, hpc row List.mem_cons_self, rfl, rfl, rfl⟩ ?_ ?_
    · exact fun copy hcopy => ⟨hpc copy hcopy, trivial⟩
    · intro copy hcopy
      rw [show copy = row from List.mem_singleton.mp hcopy]
      exact ⟨hpc row List.mem_cons_self, trivial⟩
  | auditRelease row => exact moveMeets_release hQ ht (copies_finish _)
  | remove row rest status =>
    have hrest : ∀ x ∈ rest, Q x := fun x hx => hpc x (List.mem_cons_of_mem _ hx)
    have hrow := hpc row List.mem_cons_self
    have htold : ∀ e ∈ abandonedEvents row status, e.Meets Q := by
      cases status with
      | timeout => exact meets_nil
      | abandoned => exact meets_one ⟨row, hrow, rfl, rfl⟩
    have hmove := hon ht hrest htold
    exact moveMeets_remove ht hmove.next (copies_finish _) hmove.events
  | escalate row rest =>
    have hrest : ∀ x ∈ rest, Q x := fun x hx => hpc x (List.mem_cons_of_mem _ hx)
    have htable := table_update hQ ht row.requestId (g := setEscalated now) fun x =>
      ⟨rfl, rfl, rfl, rfl, rfl, rfl, rfl, rfl⟩
    simp only [sweep]
    cases reply.fate with
    | lost => exact moveMeets_fail ht
    | applied => exact moveMeets_fail htable
    | ok =>
      exact hon htable hrest (meets_one ⟨row, hpc row List.mem_cons_self, rfl, rfl⟩)

end

/-! ## the system -/

theorem meets_apply {m : Move π} (hs : Meets Q s) (hm : MoveMeets Q f m) : Meets Q (s.apply id f m) where
  table := hm.table
  copies x row hrow := by
    by_cases hx : x = id
    · rw [show (s.apply id f m).pc x = m.next.toPc f from if_pos hx] at hrow ⊢
      exact hm.next row hrow
    · rw [show (s.apply id f m).pc x = s.pc x from if_neg hx] at hrow ⊢
      exact hs.copies x row hrow

variable (hQ : ∀ row row' : PendingApprovalRow, SameRequest row row' → Q row → Q row')
include hQ

/-- what one label preserves, where the row that it inserts meets the predicate -/
theorem meets_step (hs : Meets Q s) (hstep : step s l = some t)
    (hinsert : ∀ x reply input, l = .go x reply → s.pc x = .create input .insert →
      s.pending.insert input reply.now = some t.pending → Q (newRow input 0)) :
    Meets Q t ∧ ∃ events, t.history = events ++ s.history ∧ ∀ e ∈ events, e.Meets Q := by
  cases step_moved hstep with
  | begun x op hidle ht =>
    subst ht
    refine ⟨⟨hs.table, fun k row hrow => ?_⟩, [], rfl, fun _ he => absurd he List.not_mem_nil⟩
    dsimp only at hrow ⊢
    split at hrow
    · cases op <;> exact absurd hrow List.not_mem_nil
    next hk =>
      rw [if_neg hk]
      exact hs.copies k row hrow
  | stopped x ht =>
    subst ht
    refine ⟨⟨hs.table, fun k row hrow => ?_⟩, (s.pc x).interrupted x, rfl, fun e he => ?_⟩
    · show Q row ∧ (if k = x then Pc.done .failed else s.pc k).About row
      by_cases hk : k = x
      · rw [show (s.stop x).pc k = .done .failed from if_pos hk] at hrow
        exact absurd hrow List.not_mem_nil
      · rw [show (s.stop x).pc k = s.pc k from if_neg hk] at hrow
        rw [if_neg hk]
        exact hs.copies k row hrow
    · unfold Pc.interrupted at he
      split at he
      · rw [List.mem_singleton.mp he]
        trivial
      · cases he
  | create x reply input pc m hpc hm ht =>
    subst ht
    have hcopies := hs.copies x
    rw [hpc] at hcopies
    have hmove : MoveMeets Q (.create input) m := by
      refine moveMeets_create hQ hs.table (fun row hrow => (hcopies row hrow).1) (fun hbefore hp => ?_) hm
      exact hinsert x reply input rfl (by rw [hpc, hbefore]) hp
    exact ⟨meets_apply hs hmove, m.events, rfl, hmove.events⟩
  | approve x reply q approver pc hpc ht =>
    subst ht
    have hcopies := hs.copies x
    rw [hpc] at hcopies
    have hmove : MoveMeets Q (.approve q approver) (approve s.pending x q approver reply pc) :=
      moveMeets_approve hQ hs.table hcopies
    exact ⟨meets_apply hs hmove, _, rfl, hmove.events⟩
  | reject x reply q approver pc hpc ht =>
    subst ht
    have hcopies := hs.copies x
    rw [hpc] at hcopies
    have hmove : MoveMeets Q (.reject q approver) (reject s.pending x q approver reply pc) :=
      moveMeets_reject hQ hs.table hcopies
    exact ⟨meets_apply hs hmove, _, rfl, hmove.events⟩
  | sweep x reply now pc hpc ht =>
    subst ht
    have hcopies := hs.copies x
    rw [hpc] at hcopies
    have hmove : MoveMeets Q (.sweep now) (sweep s.pending x now reply pc) :=
      moveMeets_sweep hQ hs.table fun row hrow => (hcopies row hrow).1
    exact ⟨meets_apply hs hmove, _, rfl, hmove.events⟩

end

end Hitl
