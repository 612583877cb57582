import JinCore.Telegram.Approvals
import JinCore.Hitl.AtMostOnce

/-!
# What the owner is told of an approval

* `Truthful`        what the messages of a call say is so;
* `ApprovalCovered`, `RejectionCovered`   the conditions on the rows, the statements and the replies;
* `Fair`, `FairRejection`   the same of the messages about an ending;
* `Tells`, `TellsRejection`   a run from a statement on ends, and its messages are fair exactly under a
                    condition; `tells_goto`, `tells_failed`, `tells_threw` for one statement;
* `tells_resolveAndExecute`, `tellsRejection_resolveRejection`   a whole call;
* `told_truthfully_iff`, `told_wrongly`.
-/

namespace Telegram
open JsString Common Hitl Hitl.PendingApprovals

/-! ## the property -/

def Executed (id : CallId) (events : List Event) : Prop := ∃ r, Event.execSucceeded id r ∈ events

/-- the row of the id is there, and no one has claimed it -/
def StillPending (p : PendingApprovals) (requestId : JsString) : Prop :=
  ∃ uuid row, Audit.uuidColumn requestId = some uuid ∧ p.getPending uuid = some row
    ∧ row.executingAt = none

def Recorded (id : CallId) (events : List Event) : Prop :=
  ∃ requestId approver toolName inputsHash row,
    Event.audited id (.recordRejection requestId approver toolName inputsHash) row ∈ events

structure Truthful (id : CallId) (requestId : JsString) (told : Told) : Prop where
  notCompleted : ∀ message, .notCompleted message ∈ told.sent →
    ¬ Executed id told.events ∧ StillPending told.pending requestId
  executed : ∀ named result, .executed named result ∈ told.sent → Executed id told.events
  rejectionFailed : ∀ message, .rejectionFailed message ∈ told.sent → ¬ Recorded id told.events

/-! ## the conditions -/

def RowOf (p : PendingApprovals) (requestId : JsString) (row : PendingApprovalRow) : Prop :=
  ∃ uuid, Audit.uuidColumn requestId = some uuid ∧ p.getPending uuid = some row

/-- the row of an id is gone or claimed, and nothing fails until the call is refused -/
def Unfailing (p : PendingApprovals) (requestId : JsString) (replies : ApprovalReplies)
    (sends : Sends) : Prop :=
  (Audit.uuidColumn requestId).isSome = true ∧ replies.getPending.fate = .ok ∧
    ∀ row, RowOf p requestId row → replies.approvalRead.fate = .ok ∧
      match approvalStep row replies.getPending.now with
      | .first => replies.approvalUpdate.fate = .ok ∧ sends.first = true
      | .resolved => replies.claim.fate = .ok
      | .tooEarly _ => True

def Ran (replies : ApprovalReplies) : Prop := replies.execute.fate = .ok ∧ replies.executing.fate = .ok

/-- the claim is answered, what is released is released, and what is done is told -/
def ClaimReported (replies : ApprovalReplies) (sends : Sends) : Prop :=
  replies.claim.fate ≠ .applied ∧ (replies.claim.fate = .ok →
    if replies.audit.fate = .ok then
      (Ran replies → sends.first = true) ∧ (¬ Ran replies → replies.failureRelease.fate ≠ .lost)
    else replies.auditRelease.fate ≠ .lost)

/-- the call comes to its claim -/
def ComesToClaim (replies : ApprovalReplies) (row : PendingApprovalRow) : Prop :=
  replies.getPending.fate = .ok ∧ replies.approvalRead.fate = .ok
    ∧ approvalStep row replies.getPending.now = .resolved

def ApprovalCovered (p : PendingApprovals) (requestId : JsString) (replies : ApprovalReplies)
    (sends : Sends) : Prop :=
  sends.last = true →
    (¬ StillPending p requestId → Unfailing p requestId replies sends) ∧
    ∀ row, RowOf p requestId row → row.executingAt = none → ComesToClaim replies row →
      ClaimReported replies sends

/-- the rejection is not appended, or all that comes after it succeeds -/
def RecordReported (append delete : Hitl.Reply) (sends : Sends) : Prop :=
  append.fate = .lost ∨ (append.fate = .ok ∧ delete.fate = .ok ∧ sends.first = true)

def RejectionCovered (p : PendingApprovals) (requestId : JsString) (replies : RejectionReplies)
    (sends : Sends) : Prop :=
  sends.last = true → ∀ row, RowOf p requestId row → replies.getPending.fate = .ok →
    replies.claim.fate = .ok →
    if row.executingAt = none then RecordReported replies.audit replies.remove sends
    else isStuck row.executingAt replies.claim.now = true →
      RecordReported replies.stuckAudit replies.stuckRemove sends

/-! ## one statement -/

section
variable {π : Type} {move : PendingApprovals → π → Move π} {p p' : PendingApprovals} {pc pc' : π}
  {events : List Event} {statements : Nat}

theorem runAlone_finish {outcome : Outcome Result} (h : move p pc = ⟨p', .finish outcome, events⟩) :
    runAlone move (statements + 1) p pc = some ⟨p', outcome, events⟩ := by
  rw [runAlone, h]

theorem runAlone_goto {e : Ending} (h : move p pc = ⟨p', .goto pc', events⟩)
    (he : runAlone move statements p' pc' = some e) :
    runAlone move (statements + 1) p pc = some { e with events := e.events ++ events } := by
  rw [runAlone, h]
  dsimp only
  rw [he]
  rfl

end

/-! ## the messages of an ending -/

section
variable (requestId : JsString) (sends : Sends)

theorem notFound_refused (r : JsString) : (pendingApprovalNotFoundError r).code ∈ refusalCodes :=
  List.mem_cons_self

theorem alreadyResolved_refused (r : JsString) : (approvalAlreadyResolvedError r).code ∈ refusalCodes :=
  List.mem_cons_of_mem _ (List.mem_singleton_self _)

/-- what the messages of an approval say of its executor and of its row -/
def Fair (outcome : Outcome Result) (executed pending : Prop) : Prop :=
  (∀ message, .notCompleted message ∈ approvalMessages requestId sends outcome → ¬ executed ∧ pending) ∧
    ∀ named result, .executed named result ∈ approvalMessages requestId sends outcome → executed

variable {requestId sends} {executed pending : Prop}

theorem mem_sentIf {through : Bool} {m message : Message} :
    m ∈ sentIf through message ↔ through = true ∧ m = message := by
  cases through with
  | true => simp [sentIf]
  | false => simp [sentIf]

theorem fair_failed :
    Fair requestId sends .failed executed pending ↔ (sends.last = true → ¬ executed ∧ pending) := by
  unfold Fair approvalMessages approvalCaught
  constructor
  · intro h hlast
    exact h.1 sends.error (mem_sentIf.mpr ⟨hlast, rfl⟩)
  · intro h
    refine ⟨fun message hm => h (mem_sentIf.mp hm).1, fun named result hm => ?_⟩
    cases (mem_sentIf.mp hm).2

theorem fair_replied {message : Message} (hmessage : ∀ m, message ≠ .notCompleted m) :
    (∀ m, .notCompleted m ∈ approvalReplied sends message → ¬ executed ∧ pending) ↔
      (sends.last = true → sends.first = true ∨ (¬ executed ∧ pending)) := by
  unfold approvalReplied
  constructor
  · intro h hlast
    cases hfirst : sends.first with
    | true => exact Or.inl rfl
    | false =>
      rw [hfirst, if_neg Bool.false_ne_true] at h
      exact Or.inr (h sends.error (mem_sentIf.mpr ⟨hlast, rfl⟩))
  · intro h m hm
    cases hfirst : sends.first with
    | true =>
      rw [hfirst, if_pos rfl] at hm
      exact absurd (List.mem_singleton.mp hm).symm (hmessage m)
    | false =>
      rw [hfirst, if_neg Bool.false_ne_true] at hm
      have hlast := (mem_sentIf.mp hm).1
      rw [hfirst] at h
      exact (h hlast).resolve_left Bool.false_ne_true

theorem fair_awaitingSecond : Fair requestId sends (.returned .awaitingSecond) executed pending ↔
    (sends.last = true → sends.first = true ∨ (¬ executed ∧ pending)) := by
  refine ⟨fun h => (fair_replied fun _ => Message.noConfusion).mp h.1,
    fun h => ⟨(fair_replied fun _ => Message.noConfusion).mpr h, ?_⟩⟩
  intro named result hm
  have hm : Message.executed named result ∈ approvalReplied sends (.firstApproval requestId) := hm
  unfold approvalReplied at hm
  split at hm
  · cases List.mem_singleton.mp hm
  · cases (mem_sentIf.mp hm).2

/-- the action was done -/
theorem fair_resolved (toolName result : JsString) (hexecuted : executed) :
    Fair requestId sends (.returned (.resolved toolName result)) executed pending ↔
      (sends.last = true → sends.first = true) := by
  constructor
  · intro h hlast
    have hfirst := (fair_replied fun _ => Message.noConfusion).mp h.1 hlast
    exact hfirst.resolve_right fun hnot => hnot.1 hexecuted
  · intro h
    exact ⟨(fair_replied fun _ => Message.noConfusion).mpr fun hlast => Or.inl (h hlast),
      fun _ _ _ => hexecuted⟩

theorem fair_threw {error : JinError}
    (hcode : error.code = secondApprovalTooEarlyCode ∨ error.code ∈ refusalCodes) :
    Fair requestId sends (.threw error) executed pending := by
  have hnone : ∀ m : Message, (∀ text, m ≠ .tooEarly text ∧ m ≠ .refused text) →
      m ∉ approvalMessages requestId sends (.threw error) := by
    intro m hm hmem
    have hmem : m ∈ approvalCaught sends (some error) := hmem
    unfold approvalCaught at hmem
    dsimp only at hmem
    split at hmem
    next => exact (hm _).1 (mem_sentIf.mp hmem).2
    next hne =>
      rw [if_pos (hcode.resolve_left hne)] at hmem
      exact (hm _).2 (mem_sentIf.mp hmem).2
  refine ⟨fun message hm => ?_, fun named result hm => ?_⟩
  · exact absurd hm (hnone _ fun _ => ⟨Message.noConfusion, Message.noConfusion⟩)
  · exact absurd hm (hnone _ fun _ => ⟨Message.noConfusion, Message.noConfusion⟩)

end

/-! ## the statements of an approval -/

section
variable {id : CallId} {q : RequestId} {p p' : PendingApprovals} {row : PendingApprovalRow} {n : Nat}

theorem stillPending_iff : StillPending p q.text ↔
    ∃ row, p.getPending q.uuid = some row ∧ row.executingAt = none := by
  constructor
  · rintro ⟨uuid, row, hcast, hrow, hfree⟩
    rw [q.cast, Option.some.injEq] at hcast
    rw [← hcast] at hrow
    exact ⟨row, hrow, hfree⟩
  · rintro ⟨row, hrow, hfree⟩
    exact ⟨q.uuid, row, q.cast, hrow, hfree⟩

theorem stillPending_of_row (h : p.getPending q.uuid = some row) :
    StillPending p q.text ↔ row.executingAt = none := by
  rw [stillPending_iff, h]
  exact ⟨fun ⟨row', hrow, hfree⟩ => by cases hrow; exact hfree, fun hfree => ⟨row, rfl, hfree⟩⟩

theorem rowOf_iff : RowOf p q.text row ↔ p.getPending q.uuid = some row := by
  constructor
  · rintro ⟨uuid, hcast, hrow⟩
    rw [q.cast, Option.some.injEq] at hcast
    rw [hcast]
    exact hrow
  · exact fun hrow => ⟨q.uuid, q.cast, hrow⟩

theorem getPending_updated (h : p.getPending q.uuid = some row)
    (f : PendingApprovalRow → PendingApprovalRow) (hf : ∀ row, (f row).requestId = row.requestId) :
    (p.update q.uuid f hf).getPending q.uuid = some (f row) := by
  rw [getPending_update, if_pos rfl, h, Option.map_some]

theorem stillPending_released (h : p.getPending q.uuid = some row) (error : Option JsString) :
    StillPending (p.releaseClaim q.uuid error) q.text :=
  (stillPending_of_row (getPending_updated h _ _)).mpr rfl

theorem not_executed_nil : ¬ Executed id [] := fun ⟨_, h⟩ => List.not_mem_nil h

theorem executed_append {events events' : List Event} (h : ¬ Executed id events') :
    Executed id (events ++ events') ↔ Executed id events := by
  constructor
  · rintro ⟨r, hr⟩
    exact ⟨r, (List.mem_append.mp hr).resolve_right fun hr => h ⟨r, hr⟩⟩
  · rintro ⟨r, hr⟩
    exact ⟨r, List.mem_append_left _ hr⟩

theorem not_executed_singleton {event : Event} (h : ∀ r, event ≠ .execSucceeded id r) :
    ¬ Executed id [event] := fun ⟨r, hr⟩ => h r (List.mem_singleton.mp hr).symm

/-- a run ends, and what the owner is told is so where the condition holds -/
def Tells (id : CallId) (q : RequestId) (sends : Sends) (run : Option Ending) (condition : Prop) : Prop :=
  ∃ e, run = some e ∧
    (Fair q.text sends e.outcome (Executed id e.events) (StillPending e.pending q.text) ↔
      (sends.last = true → condition))

variable {sends : Sends} {replies : ApprovalReplies} {condition : Prop}

theorem tells_goto {pc pc' : ApprovePc} {events : List Event}
    (h : approving id q replies p pc = ⟨p', .goto pc', events⟩) (hevents : ¬ Executed id events)
    (ht : Tells id q sends (runAlone (approving id q replies) n p' pc') condition) :
    Tells id q sends (runAlone (approving id q replies) (n + 1) p pc) condition := by
  obtain ⟨e, he, hfair⟩ := ht
  refine ⟨_, runAlone_goto h he, ?_⟩
  rw [← hfair]
  show Fair q.text sends e.outcome (Executed id (e.events ++ events)) _ ↔ _
  rw [executed_append hevents]

/-- the call ends with an error of a statement -/
theorem tells_failed {pc : ApprovePc} {events : List Event}
    (h : approving id q replies p pc = ⟨p', .finish .failed, events⟩) (hevents : ¬ Executed id events) :
    Tells id q sends (runAlone (approving id q replies) (n + 1) p pc) (StillPending p' q.text) := by
  refine ⟨_, runAlone_finish h, ?_⟩
  rw [fair_failed]
  exact forall_congr' fun _ => ⟨fun h => h.2, fun h => ⟨hevents, h⟩⟩

theorem tells_threw {pc : ApprovePc} {error : JinError}
    (h : approving id q replies p pc = .throw p error)
    (hcode : error.code = secondApprovalTooEarlyCode ∨ error.code ∈ refusalCodes) :
    Tells id q sends (runAlone (approving id q replies) (n + 1) p pc) True :=
  ⟨_, runAlone_finish h, ⟨fun _ _ => trivial, fun _ => fair_threw hcode⟩⟩

theorem Tells.congr {run : Option Ending} {condition' : Prop} (h : Tells id q sends run condition)
    (hiff : sends.last = true → (condition ↔ condition')) : Tells id q sends run condition' := by
  obtain ⟨e, he, hfair⟩ := h
  exact ⟨e, he, hfair.trans (forall_congr' hiff)⟩

theorem tells_failureAudit (row : PendingApprovalRow) :
    Tells id q sends (runAlone (approving id q replies) (n + 1) p (.failureAudit row))
      (StillPending p q.text) := by
  have hmove : approving id q replies p (.failureAudit row) = .audit p id q.uuid
    (.recordExecutionFailure q.text row.toolName row.inputsHash) replies.failureAudit.fate
    (.finish .failed) (.finish .failed) := rfl
  unfold Move.audit at hmove
  rw [ite_self] at hmove
  refine tells_failed hmove ?_
  split
  · exact not_executed_singleton fun _ => nofun
  · exact not_executed_nil

theorem tells_auditRelease (error : JsString) :
    Tells id q sends (runAlone (approving id q replies) (n + 1) p (.auditRelease error))
      (StillPending (if replies.auditRelease.fate.applies then p.releaseClaim q.uuid (some error) else p)
        q.text) := by
  have hmove : approving id q replies p (.auditRelease error) =
    .release p q.uuid (some error) replies.auditRelease.fate (.finish .failed) := rfl
  unfold Move.release at hmove
  rw [ite_self] at hmove
  exact tells_failed hmove not_executed_nil

theorem tells_failureRelease (row' : PendingApprovalRow) (error : JsString) :
    Tells id q sends (runAlone (approving id q replies) (n + 2) p (.failureRelease row' error))
      (StillPending (if replies.failureRelease.fate.applies then p.releaseClaim q.uuid (some error) else p)
        q.text) := by
  have hmove : approving id q replies p (.failureRelease row' error) =
      .release p q.uuid (some error) replies.failureRelease.fate (.goto (.failureAudit row')) := rfl
  unfold Move.release at hmove
  by_cases hfate : replies.failureRelease.fate = .ok
  · rw [if_pos hfate] at hmove
    exact tells_goto hmove not_executed_nil (tells_failureAudit row')
  · rw [if_neg hfate] at hmove
    exact tells_failed hmove not_executed_nil

/-- the executor has returned: the delete cannot change what is told -/
theorem tells_executed (row' : PendingApprovalRow) (hok : replies.executing.fate = .ok) :
    Tells id q sends (runAlone (approving id q replies) (n + 2) p (.executing row'))
      (sends.first = true) := by
  have hgo : approving id q replies p (.executing row') =
      ⟨p, .goto (.remove row' replies.executing.text), [.execSucceeded id q.uuid]⟩ := if_pos hok
  have hremove : approving id q replies p (.remove row' replies.executing.text) =
      ⟨if replies.remove.fate.applies then p.removePending q.uuid else p,
        .finish (.returned (.resolved row'.toolName replies.executing.text)), []⟩ := by
    show Move.remove p q.uuid replies.remove.fate _ _ [] = _
    unfold Move.remove
    rw [ite_self, ite_self]
  refine ⟨_, runAlone_goto hgo (runAlone_finish hremove), ?_⟩
  exact fair_resolved _ _ ⟨q.uuid, List.mem_singleton_self _⟩

/-! from here the call has claimed the row -/

variable (hrow : p.getPending q.uuid = some row) (hclaimed : row.executingAt ≠ none)
  (row' : PendingApprovalRow)

include hrow hclaimed

theorem stillPending_release (error : Option JsString) (fate : Fate) :
    StillPending (if fate.applies then p.releaseClaim q.uuid error else p) q.text ↔ fate ≠ .lost := by
  cases fate with
  | lost =>
    show StillPending p q.text ↔ _
    rw [stillPending_of_row hrow]
    exact ⟨fun h => absurd h hclaimed, fun h => absurd rfl h⟩
  | ok => exact ⟨fun _ => nofun, fun _ => stillPending_released hrow error⟩
  | applied => exact ⟨fun _ => nofun, fun _ => stillPending_released hrow error⟩

theorem tells_execute :
    Tells id q sends (runAlone (approving id q replies) (n + 4) p (.execute row'))
      ((Ran replies → sends.first = true) ∧ (¬ Ran replies → replies.failureRelease.fate ≠ .lost)) := by
  have hreleased : ∀ {k error}, Tells id q sends
      (runAlone (approving id q replies) (k + 2) p (.failureRelease row' error))
      (replies.failureRelease.fate ≠ .lost) := fun {_ _} =>
    (tells_failureRelease row' _).congr fun _ => stillPending_release hrow hclaimed _ _
  by_cases hexecute : replies.execute.fate = .ok
  · have hgo : approving id q replies p (.execute row') =
        ⟨p, .goto (.executing row'), [.execStarted id q.uuid row']⟩ := if_pos hexecute
    refine tells_goto hgo (not_executed_singleton fun _ => Event.noConfusion) ?_
    by_cases hexecuting : replies.executing.fate = .ok
    · have hran : Ran replies := ⟨hexecute, hexecuting⟩
      refine (tells_executed row' hexecuting).congr fun _ => ?_
      exact ⟨fun h => ⟨fun _ => h, fun hnot => absurd hran hnot⟩, fun h => h.1 hran⟩
    · have hran : ¬ Ran replies := fun h => hexecuting h.2
      have hfail : approving id q replies p (.executing row') =
          ⟨p, .goto (.failureRelease row' replies.executing.text), [.execFailed id q.uuid]⟩ :=
        if_neg hexecuting
      refine (tells_goto hfail (not_executed_singleton fun _ => Event.noConfusion) hreleased).congr fun _ => ?_
      exact ⟨fun h => ⟨fun h' => absurd h' hran, fun _ => h⟩, fun h => h.2 hran⟩
  · have hran : ¬ Ran replies := fun h => hexecute h.1
    have hfail : approving id q replies p (.execute row') =
        ⟨p, .goto (.failureRelease row' replies.execute.text), []⟩ := if_neg hexecute
    refine (tells_goto hfail not_executed_nil hreleased).congr fun _ => ?_
    exact ⟨fun h => ⟨fun h' => absurd h' hran, fun _ => h⟩, fun h => h.2 hran⟩

theorem tells_audit :
    Tells id q sends (runAlone (approving id q replies) (n + 5) p (.audit row'))
      (if replies.audit.fate = .ok then
        (Ran replies → sends.first = true) ∧ (¬ Ran replies → replies.failureRelease.fate ≠ .lost)
      else replies.auditRelease.fate ≠ .lost) := by
  have hmove : approving id q replies p (.audit row') = .audit p id q.uuid
    (.recordApproval q.text owner row'.toolName row'.inputsHash) replies.audit.fate (.goto (.execute row'))
    (.goto (.auditRelease (lit "audit falló antes de ejecutar: " ++ replies.audit.text))) := rfl
  unfold Move.audit at hmove
  have hevents : ∀ {c : Bool} {call audited}, ¬ Executed id (if c then [.audited id call audited] else []) := by
    intro c call audited
    cases c with
    | true => exact not_executed_singleton fun _ => Event.noConfusion
    | false => exact not_executed_nil
  by_cases haudit : replies.audit.fate = .ok
  · rw [if_pos haudit] at hmove ⊢
    exact tells_goto hmove hevents (tells_execute hrow hclaimed row')
  · rw [if_neg haudit] at hmove ⊢
    refine tells_goto hmove hevents ?_
    exact (tells_auditRelease _).congr fun _ => stillPending_release hrow hclaimed _ _

/-- another call holds the row -/
theorem tells_claim_refused (now : Int) :
    Tells id q sends (runAlone (approving id q replies) (n + 1) p (.claim now)) (replies.claim.fate = .ok) := by
  have hmove : approving id q replies p (.claim now) = .claim p id q.uuid now replies.claim.fate .audit
    (.throw p (approvalAlreadyResolvedError q.text)) := rfl
  unfold Move.claim at hmove
  rw [claimForExecution_of_claimed now hrow hclaimed] at hmove
  have hpending : ¬ StillPending p q.text := fun h => hclaimed ((stillPending_of_row hrow).mp h)
  cases hfate : replies.claim.fate with
  | ok =>
    rw [hfate] at hmove
    exact (tells_threw hmove (Or.inr (alreadyResolved_refused _))).congr fun _ =>
      iff_of_true trivial rfl
  | lost =>
    rw [hfate] at hmove
    exact (tells_failed hmove not_executed_nil).congr fun _ => iff_of_false hpending nofun
  | applied =>
    rw [hfate] at hmove
    exact (tells_failed hmove not_executed_nil).congr fun _ => iff_of_false hpending nofun

end

/-! ## the reads of an approval and its claim -/

section
variable {id : CallId} {q : RequestId} {p : PendingApprovals} {row : PendingApprovalRow} {n : Nat}
  {sends : Sends} {replies : ApprovalReplies}

theorem tells_claim (hrow : p.getPending q.uuid = some row) (hfree : row.executingAt = none) (now : Int) :
    Tells id q sends (runAlone (approving id q replies) (n + 6) p (.claim now))
      (ClaimReported replies sends) := by
  have hmove : approving id q replies p (.claim now) = .claim p id q.uuid now replies.claim.fate .audit
    (.throw p (approvalAlreadyResolvedError q.text)) := rfl
  unfold Move.claim at hmove
  rw [claimForExecution_of_free now hrow hfree] at hmove
  have hrow' := getPending_updated hrow (setExecuting now) fun _ => rfl
  have hpending : ¬ StillPending (p.update q.uuid (setExecuting now) fun _ => rfl) q.text := fun h =>
    Option.some_ne_none now ((stillPending_of_row hrow').mp h)
  unfold ClaimReported
  cases hfate : replies.claim.fate with
  | ok =>
    rw [hfate] at hmove
    refine (tells_goto hmove (not_executed_singleton fun _ => Event.noConfusion)
      (tells_audit hrow' (Option.some_ne_none now) _)).congr fun _ => ?_
    exact ⟨fun h => ⟨nofun, fun _ => h⟩, fun h => h.2 rfl⟩
  | lost =>
    rw [hfate] at hmove
    refine (tells_failed hmove not_executed_nil).congr fun _ => ?_
    exact iff_of_true ((stillPending_of_row hrow).mpr hfree) ⟨nofun, nofun⟩
  | applied =>
    rw [hfate] at hmove
    exact (tells_failed hmove not_executed_nil).congr fun _ => iff_of_false hpending fun h => h.1 rfl

theorem approving_approvalUpdate (id : CallId) (q : RequestId) (replies : ApprovalReplies) (p : PendingApprovals)
    (now : Int) : approving id q replies p (.approvalUpdate now) =
    match replies.approvalUpdate.fate, p.markFirst q.uuid now owner with
    | .lost, _ => .fail p
    | .ok, (true, p') => ⟨p', .finish (.returned .awaitingSecond), [.firstApproved id q.uuid now]⟩
    | .ok, (false, _) => ⟨p, .goto (.approvalRead now), [.lostRace id q.uuid now]⟩
    | .applied, (true, p') => ⟨p', .finish .failed, [.firstApproved id q.uuid now]⟩
    | .applied, (false, _) => .fail p := rfl

/-- the update of the first approval, on its own, finds the row as it was read -/
theorem tells_approvalUpdate (hrow : p.getPending q.uuid = some row) (hfirst : row.firstApprovedAt = none)
    (now : Int) :
    Tells id q sends (runAlone (approving id q replies) (n + 1) p (.approvalUpdate now))
      (row.executingAt = none ∨ (replies.approvalUpdate.fate = .ok ∧ sends.first = true)) := by
  have hmark : p.markFirst q.uuid now owner = (true, p.update q.uuid (setFirst now owner) fun _ => rfl) := by
    obtain ⟨_, _, _, h⟩ | ⟨hnone, _⟩ := markFirst_cases p q.uuid now owner
    · exact h
    · exact absurd hfirst (hnone row hrow)
  have hmove := approving_approvalUpdate id q replies p now
  rw [hmark] at hmove
  have hevents : ¬ Executed id [.firstApproved id q.uuid now] :=
    not_executed_singleton fun _ => Event.noConfusion
  have hpending : StillPending (p.update q.uuid (setFirst now owner) fun _ => rfl) q.text ↔
      row.executingAt = none := by
    have hrow' := getPending_updated hrow (setFirst now owner) fun _ => rfl
    show _ ↔ (setFirst now owner row).executingAt = none
    exact stillPending_of_row hrow'
  cases hfate : replies.approvalUpdate.fate with
  | ok =>
    rw [hfate] at hmove
    refine ⟨_, runAlone_finish hmove, ?_⟩
    rw [fair_awaitingSecond]
    refine forall_congr' fun _ => ⟨fun h => ?_, fun h => ?_⟩
    · exact h.elim (fun h => Or.inr ⟨rfl, h⟩) fun h => Or.inl (hpending.mp h.2)
    · exact h.elim (fun h => Or.inr ⟨hevents, hpending.mpr h⟩) fun h => Or.inl h.2
  | lost =>
    rw [hfate] at hmove
    refine (tells_failed hmove not_executed_nil).congr fun _ => ?_
    rw [stillPending_of_row hrow]
    exact ⟨Or.inl, fun h => h.resolve_right fun h => by cases h.1⟩
  | applied =>
    rw [hfate] at hmove
    refine (tells_failed hmove hevents).congr fun _ => ?_
    rw [hpending]
    exact ⟨Or.inl, fun h => h.resolve_right fun h => by cases h.1⟩

theorem first_of_step {now : Int} (h : approvalStep row now = .first) :
    row.firstApprovedAt = none := by
  unfold approvalStep at h
  cases hlevel : row.level with
  | confirm =>
    rw [hlevel] at h
    cases h
  | dualConfirm =>
    rw [hlevel] at h
    cases hfirst : row.firstApprovedAt with
    | none => rfl
    | some firstApprovedAt =>
      rw [hfirst] at h
      dsimp only at h
      split at h
      · cases h
      · cases h

theorem approving_approvalRead (id : CallId) (q : RequestId) (replies : ApprovalReplies) (p : PendingApprovals)
    (now : Int) : approving id q replies p (.approvalRead now) =
      if replies.approvalRead.fate = .ok then
        match p.getPending q.uuid with
        | none => .throw p (pendingApprovalNotFoundError q.text)
        | some pending =>
          match approvalStep pending now with
          | .resolved => ⟨p, .goto (.claim replies.approvalRead.now), [.resolved id q.uuid now]⟩
          | .first => ⟨p, .goto (.approvalUpdate now), []⟩
          | .tooEarly availableAt => .throw p (secondApprovalTooEarlyError q.text availableAt)
      else .fail p := rfl

theorem approvalRead_eq (id : CallId) (hok : replies.approvalRead.fate = .ok) (hrow : p.getPending q.uuid = some row)
    (now : Int) : approving id q replies p (.approvalRead now) =
      match approvalStep row now with
      | .resolved => ⟨p, .goto (.claim replies.approvalRead.now), [.resolved id q.uuid now]⟩
      | .first => ⟨p, .goto (.approvalUpdate now), []⟩
      | .tooEarly availableAt => .throw p (secondApprovalTooEarlyError q.text availableAt) := by
  rw [approving_approvalRead, if_pos hok, hrow]

theorem approvalRead_failed (hok : replies.approvalRead.fate ≠ .ok) (now : Int) :
    approving id q replies p (.approvalRead now) = .fail p := if_neg hok

theorem tells_approvalRead_free (hrow : p.getPending q.uuid = some row) (hfree : row.executingAt = none)
    (now : Int) :
    Tells id q sends (runAlone (approving id q replies) (n + 7) p (.approvalRead now))
      (replies.approvalRead.fate = .ok ∧ approvalStep row now = .resolved → ClaimReported replies sends) := by
  by_cases hok : replies.approvalRead.fate = .ok
  · have hmove := approvalRead_eq id hok hrow now
    cases hstep : approvalStep row now with
    | resolved =>
      rw [hstep] at hmove
      refine (tells_goto hmove (not_executed_singleton fun _ => Event.noConfusion)
        (tells_claim hrow hfree _)).congr fun _ => ?_
      exact ⟨fun h _ => h, fun h => h ⟨hok, rfl⟩⟩
    | first =>
      rw [hstep] at hmove
      refine (tells_goto hmove not_executed_nil (tells_approvalUpdate hrow (first_of_step hstep) _)).congr
        fun _ => ?_
      exact iff_of_true (Or.inl hfree) fun h => nomatch h.2
    | tooEarly availableAt =>
      rw [hstep] at hmove
      exact (tells_threw hmove (Or.inl rfl)).congr fun _ => iff_of_true trivial fun h => nomatch h.2
  · refine (tells_failed (approvalRead_failed hok now) not_executed_nil).congr fun _ => ?_
    exact iff_of_true ((stillPending_of_row hrow).mpr hfree) fun h => absurd h.1 hok

theorem tells_approvalRead_claimed (hrow : p.getPending q.uuid = some row)
    (hclaimed : row.executingAt ≠ none) (now : Int) :
    Tells id q sends (runAlone (approving id q replies) (n + 7) p (.approvalRead now))
      (replies.approvalRead.fate = .ok ∧ match approvalStep row now with
        | .first => replies.approvalUpdate.fate = .ok ∧ sends.first = true
        | .resolved => replies.claim.fate = .ok
        | .tooEarly _ => True) := by
  by_cases hok : replies.approvalRead.fate = .ok
  · have hmove := approvalRead_eq id hok hrow now
    cases hstep : approvalStep row now with
    | resolved =>
      rw [hstep] at hmove
      refine (tells_goto hmove (not_executed_singleton fun _ => Event.noConfusion)
        (tells_claim_refused hrow hclaimed _)).congr fun _ => ?_
      exact ⟨fun h => ⟨hok, h⟩, fun h => h.2⟩
    | first =>
      rw [hstep] at hmove
      refine (tells_goto hmove not_executed_nil (tells_approvalUpdate hrow (first_of_step hstep) _)).congr
        fun _ => ?_
      exact ⟨fun h => ⟨hok, h.resolve_left hclaimed⟩, fun h => Or.inr h.2⟩
    | tooEarly availableAt =>
      rw [hstep] at hmove
      exact (tells_threw hmove (Or.inl rfl)).congr fun _ => iff_of_true trivial ⟨hok, trivial⟩
  · refine (tells_failed (approvalRead_failed hok now) not_executed_nil).congr fun _ => ?_
    exact iff_of_false (fun h => hclaimed ((stillPending_of_row hrow).mp h)) fun h => hok h.1

theorem approving_getPending (id : CallId) (q : RequestId) (replies : ApprovalReplies) (p : PendingApprovals) :
    approving id q replies p .getPending =
      if replies.getPending.fate = .ok then
        match p.getPending q.uuid with
        | none => .throw p (pendingApprovalNotFoundError q.text)
        | some _ => ⟨p, .goto (.approvalRead replies.getPending.now), [.began id q.uuid]⟩
      else .fail p := rfl

/-- a whole call -/
theorem tells_resolveAndExecute (id : CallId) (q : RequestId) (p : PendingApprovals) (n : Nat)
    (sends : Sends) (replies : ApprovalReplies) :
    Tells id q sends (runAlone (approving id q replies) (n + 8) p .getPending)
      ((¬ StillPending p q.text → Unfailing p q.text replies sends) ∧
        ∀ row, RowOf p q.text row → row.executingAt = none → ComesToClaim replies row →
          ClaimReported replies sends) := by
  have hcast : (Audit.uuidColumn q.text).isSome = true := by rw [q.cast]; rfl
  have hread := approving_getPending id q replies p
  have hbegan : ¬ Executed id [.began id q.uuid] := not_executed_singleton fun _ => Event.noConfusion
  cases hrow : p.getPending q.uuid with
  | none =>
    have hpending : ¬ StillPending p q.text := fun h => by
      obtain ⟨row, hsome, -⟩ := stillPending_iff.mp h
      rw [hrow] at hsome
      cases hsome
    have hnone : ∀ row, ¬ RowOf p q.text row := fun row h => by
      rw [rowOf_iff, hrow] at h
      cases h
    by_cases hok : replies.getPending.fate = .ok
    · rw [if_pos hok, hrow] at hread
      refine (tells_threw hread (Or.inr (notFound_refused _))).congr fun _ => iff_of_true trivial ?_
      exact ⟨fun _ => ⟨hcast, hok, fun row h => absurd h (hnone row)⟩, fun row h => absurd h (hnone row)⟩
    · rw [if_neg hok] at hread
      refine (tells_failed hread not_executed_nil).congr fun _ => iff_of_false hpending ?_
      exact fun h => hok (h.1 hpending).2.1
  | some row =>
    have honly : ∀ row', RowOf p q.text row' ↔ row' = row := fun row' => by
      rw [rowOf_iff, hrow, Option.some.injEq, eq_comm]
    by_cases hok : replies.getPending.fate = .ok
    · rw [if_pos hok, hrow] at hread
      by_cases hfree : row.executingAt = none
      · refine (tells_goto hread hbegan (tells_approvalRead_free hrow hfree _)).congr fun _ => ?_
        constructor
        · refine fun h => ⟨fun hnot => absurd ((stillPending_of_row hrow).mpr hfree) hnot, ?_⟩
          intro row' hrow' _ hcomes
          rw [(honly row').mp hrow'] at hcomes
          exact h ⟨hcomes.2.1, hcomes.2.2⟩
        · exact fun h hcomes => h.2 row ((honly row).mpr rfl) hfree ⟨hok, hcomes.1, hcomes.2⟩
      · have hpending : ¬ StillPending p q.text := fun h => hfree ((stillPending_of_row hrow).mp h)
        refine (tells_goto hread hbegan (tells_approvalRead_claimed hrow hfree _)).congr fun _ => ?_
        constructor
        · refine fun h => ⟨fun _ => ⟨hcast, hok, ?_⟩, ?_⟩
          · intro row' hrow'
            rw [(honly row').mp hrow']
            exact h
          · intro row' hrow' hfree'
            rw [(honly row').mp hrow'] at hfree'
            exact absurd hfree' hfree
        · exact fun h => (h.1 hpending).2.2 row ((honly row).mpr rfl)
    · rw [if_neg hok] at hread
      refine (tells_failed hread not_executed_nil).congr fun _ => ?_
      constructor
      · exact fun h => ⟨fun hnot => absurd h hnot, fun _ _ _ hcomes => absurd hcomes.1 hok⟩
      · intro h
        by_contra hpending
        exact hok (h.1 hpending).2.1

end

/-! ## a rejection -/

section
variable {id : CallId} {q : RequestId} {p p' : PendingApprovals} {row : PendingApprovalRow} {n : Nat}
  {sends : Sends} {replies : RejectionReplies} {condition recorded : Prop} {requestId : JsString}

/-- what the messages of a rejection say of its record -/
def FairRejection (requestId : JsString) (sends : Sends) (outcome : Outcome Result) (recorded : Prop) :
    Prop :=
  ∀ message, .rejectionFailed message ∈ rejectionMessages requestId sends outcome → ¬ recorded

theorem fairRejection_failed :
    FairRejection requestId sends .failed recorded ↔ (sends.last = true → ¬ recorded) :=
  ⟨fun h hlast => h sends.error (mem_sentIf.mpr ⟨hlast, rfl⟩), fun h _ hm => h (mem_sentIf.mp hm).1⟩

theorem fairRejection_returned (result : Result) :
    FairRejection requestId sends (.returned result) recorded ↔
      (sends.last = true → sends.first = true ∨ ¬ recorded) := by
  unfold FairRejection rejectionMessages
  dsimp only
  cases hfirst : sends.first with
  | true =>
    rw [if_pos rfl]
    refine iff_of_true (fun message hm => ?_) fun _ => Or.inl rfl
    cases List.mem_singleton.mp hm
  | false =>
    rw [if_neg Bool.false_ne_true]
    show FairRejection requestId sends .failed recorded ↔ _
    rw [fairRejection_failed]
    refine forall_congr' fun _ => ?_
    exact ⟨Or.inr, fun h => h.resolve_left Bool.false_ne_true⟩

theorem fairRejection_threw {error : JinError} (hcode : error.code ∈ refusalCodes) :
    FairRejection requestId sends (.threw error) recorded := by
  intro message hm
  have hm : Message.rejectionFailed message ∈ rejectionCaught sends (some error) := hm
  unfold rejectionCaught at hm
  dsimp only at hm
  rw [if_pos hcode] at hm
  cases (mem_sentIf.mp hm).2

theorem not_recorded_nil : ¬ Recorded id [] := fun ⟨_, _, _, _, _, h⟩ => List.not_mem_nil h

theorem recorded_append {events events' : List Event} :
    Recorded id (events ++ events') ↔ Recorded id events ∨ Recorded id events' := by
  unfold Recorded
  simp only [List.mem_append, exists_or]

theorem not_recorded_singleton {event : Event} (h : ∀ call row, event ≠ .audited id call row) :
    ¬ Recorded id [event] := fun ⟨_, _, _, _, _, hr⟩ => h _ _ (List.mem_singleton.mp hr).symm

theorem recorded_audit (id : CallId) (requestId approver toolName inputsHash : JsString) (fate : Fate)
    (audited : Option PendingApprovalRow) :
    Recorded id (if fate.applies then
      [.audited id (.recordRejection requestId approver toolName inputsHash) audited] else []) ↔
      fate ≠ .lost := by
  cases fate with
  | lost => exact iff_of_false not_recorded_nil fun h => h rfl
  | ok => exact iff_of_true ⟨_, _, _, _, _, List.mem_singleton_self _⟩ nofun
  | applied => exact iff_of_true ⟨_, _, _, _, _, List.mem_singleton_self _⟩ nofun

/-- a run that ends, beside what was recorded before it -/
def TellsRejection (id : CallId) (q : RequestId) (sends : Sends) (before : Prop) (run : Option Ending)
    (condition : Prop) : Prop :=
  ∃ e, run = some e ∧ (FairRejection q.text sends e.outcome (Recorded id e.events ∨ before) ↔
    (sends.last = true → condition))

variable {before : Prop}

theorem TellsRejection.congr {run : Option Ending} {condition' : Prop}
    (h : TellsRejection id q sends before run condition)
    (hiff : sends.last = true → (condition ↔ condition')) : TellsRejection id q sends before run condition' := by
  obtain ⟨e, he, hfair⟩ := h
  exact ⟨e, he, hfair.trans (forall_congr' hiff)⟩

theorem tellsRejection_goto {pc pc' : RejectPc} {events : List Event}
    (h : rejecting id q replies p pc = ⟨p', .goto pc', events⟩)
    (ht : TellsRejection id q sends (Recorded id events ∨ before)
      (runAlone (rejecting id q replies) n p' pc') condition) :
    TellsRejection id q sends before (runAlone (rejecting id q replies) (n + 1) p pc) condition := by
  obtain ⟨e, he, hfair⟩ := ht
  refine ⟨_, runAlone_goto h he, ?_⟩
  rw [← hfair]
  show FairRejection q.text sends e.outcome (Recorded id (e.events ++ events) ∨ before) ↔ _
  rw [recorded_append, or_assoc]

/-- a statement that records nothing -/
theorem tellsRejection_quiet {pc pc' : RejectPc} {events : List Event}
    (h : rejecting id q replies p pc = ⟨p', .goto pc', events⟩) (hevents : ¬ Recorded id events)
    (ht : TellsRejection id q sends before (runAlone (rejecting id q replies) n p' pc') condition) :
    TellsRejection id q sends before (runAlone (rejecting id q replies) (n + 1) p pc) condition := by
  refine tellsRejection_goto h ?_
  rw [or_iff_right hevents]
  exact ht

theorem tellsRejection_failed {pc : RejectPc} {events : List Event}
    (h : rejecting id q replies p pc = ⟨p', .finish .failed, events⟩) (hevents : ¬ Recorded id events) :
    TellsRejection id q sends before (runAlone (rejecting id q replies) (n + 1) p pc) (¬ before) := by
  refine ⟨_, runAlone_finish h, ?_⟩
  rw [fairRejection_failed, or_iff_right hevents]

theorem tellsRejection_returned {pc : RejectPc} {events : List Event} {result : Result}
    (h : rejecting id q replies p pc = ⟨p', .finish (.returned result), events⟩)
    (hevents : ¬ Recorded id events) :
    TellsRejection id q sends before (runAlone (rejecting id q replies) (n + 1) p pc)
      (sends.first = true ∨ ¬ before) := by
  refine ⟨_, runAlone_finish h, ?_⟩
  rw [fairRejection_returned, or_iff_right hevents]

theorem tellsRejection_threw {pc : RejectPc} {error : JinError}
    (h : rejecting id q replies p pc = .throw p error) (hcode : error.code ∈ refusalCodes) :
    TellsRejection id q sends before (runAlone (rejecting id q replies) (n + 1) p pc) True :=
  ⟨_, runAlone_finish h, ⟨fun _ _ => trivial, fun _ => fairRejection_threw hcode⟩⟩

/-- a delete after the record -/
theorem tellsRejection_deleted {pc : RejectPc} {fate : Fate} {events : List Event}
    (h : rejecting id q replies p pc =
      ⟨p', if fate = .ok then .finish (.returned .rejected) else .finish .failed, events⟩)
    (hevents : ¬ Recorded id events) (hbefore : before) :
    TellsRejection id q sends before (runAlone (rejecting id q replies) (n + 1) p pc)
      (fate = .ok ∧ sends.first = true) := by
  by_cases hok : fate = .ok
  · rw [if_pos hok] at h
    refine (tellsRejection_returned h hevents).congr fun _ => ?_
    exact ⟨fun h => ⟨hok, h.resolve_right fun hnot => hnot hbefore⟩, fun h => Or.inl h.2⟩
  · rw [if_neg hok] at h
    refine (tellsRejection_failed h hevents).congr fun _ => ?_
    exact iff_of_false (fun h => h hbefore) fun h => hok h.1

theorem tellsRejection_remove (hbefore : before) :
    TellsRejection id q sends before (runAlone (rejecting id q replies) (n + 1) p .remove)
      (replies.remove.fate = .ok ∧ sends.first = true) := by
  have hmove : rejecting id q replies p .remove = .remove p q.uuid replies.remove.fate
    (.finish (.returned .rejected)) (.finish .failed) [.rejected id q.uuid] := rfl
  refine tellsRejection_deleted hmove ?_ hbefore
  split
  · exact not_recorded_singleton fun _ _ => Event.noConfusion
  · exact not_recorded_nil

theorem rejecting_stuckRemove (id : CallId) (q : RequestId) (replies : RejectionReplies) (p : PendingApprovals)
    (now : Int) : rejecting id q replies p (.stuckRemove now) =
    match replies.stuckRemove.fate, p.removeIfNotExecuting q.uuid now with
    | .lost, _ => .fail p
    | .ok, (true, p') => ⟨p', .finish (.returned .rejected), [.rejected id q.uuid, .evicted id q.uuid now]⟩
    | .ok, (false, _) => ⟨p, .finish (.returned .rejected), [.rejected id q.uuid]⟩
    | .applied, (true, p') => ⟨p', .finish .failed, [.evicted id q.uuid now]⟩
    | .applied, (false, _) => .fail p := rfl

theorem stuckRemove_eq (id : CallId) (q : RequestId) (replies : RejectionReplies) (p : PendingApprovals)
    (now : Int) :
    ∃ p' events, rejecting id q replies p (.stuckRemove now) =
      ⟨p', if replies.stuckRemove.fate = .ok then .finish (.returned .rejected) else .finish .failed, events⟩
        ∧ ¬ Recorded id events := by
  have hmove := rejecting_stuckRemove id q replies p now
  have hevicted : ¬ Recorded id [.evicted id q.uuid now] :=
    not_recorded_singleton fun _ _ => Event.noConfusion
  have hrejected : ¬ Recorded id [.rejected id q.uuid] :=
    not_recorded_singleton fun _ _ => Event.noConfusion
  have hboth : ¬ Recorded id ([.rejected id q.uuid] ++ [.evicted id q.uuid now]) := fun h =>
    (recorded_append.mp h).elim hrejected hevicted
  obtain ⟨removed, p', hremove⟩ : ∃ removed p', p.removeIfNotExecuting q.uuid now = (removed, p') :=
    ⟨_, _, rfl⟩
  rw [hremove] at hmove
  rw [hmove]
  cases replies.stuckRemove.fate with
  | lost => exact ⟨_, _, rfl, not_recorded_nil⟩
  | ok =>
    cases removed with
    | true => exact ⟨_, _, rfl, hboth⟩
    | false => exact ⟨_, _, rfl, hrejected⟩
  | applied =>
    cases removed with
    | true => exact ⟨_, _, rfl, hevicted⟩
    | false => exact ⟨_, _, rfl, not_recorded_nil⟩

theorem tellsRejection_stuckAudit (pending : PendingApprovalRow) :
    TellsRejection id q sends False (runAlone (rejecting id q replies) (n + 2) p (.stuckAudit pending))
      (RecordReported replies.stuckAudit replies.stuckRemove sends) := by
  have hmove : rejecting id q replies p (.stuckAudit pending) = .audit p id q.uuid
    (.recordRejection q.text owner pending.toolName pending.inputsHash) replies.stuckAudit.fate
    (.goto (.stuckRemove replies.stuckAudit.now)) (.finish .failed) := rfl
  unfold Move.audit at hmove
  unfold RecordReported
  have hrecorded := recorded_audit id q.text owner pending.toolName pending.inputsHash
    replies.stuckAudit.fate (p.getPending q.uuid)
  by_cases hok : replies.stuckAudit.fate = .ok
  · rw [if_pos hok] at hmove
    obtain ⟨p', events, hremove, hevents⟩ := stuckRemove_eq id q replies p replies.stuckAudit.now
    have hbefore := Or.inl (b := False) (hrecorded.mpr (by rw [hok]; exact nofun))
    refine (tellsRejection_goto hmove (tellsRejection_deleted hremove hevents hbefore)).congr fun _ => ?_
    rw [hok]
    exact ⟨fun h => Or.inr ⟨rfl, h⟩, fun h => (h.resolve_left nofun).2⟩
  · rw [if_neg hok] at hmove
    refine ⟨_, runAlone_finish hmove, ?_⟩
    rw [fairRejection_failed, or_false, hrecorded]
    refine forall_congr' fun _ => ⟨fun h => Or.inl (not_not.mp h), fun h => ?_⟩
    exact not_not.mpr (h.resolve_right fun h => hok h.1)

theorem tellsRejection_audit (row : PendingApprovalRow) :
    TellsRejection id q sends False (runAlone (rejecting id q replies) (n + 2) p (.audit row))
      (RecordReported replies.audit replies.remove sends) := by
  have hmove : rejecting id q replies p (.audit row) = .audit p id q.uuid
    (.recordRejection q.text owner row.toolName row.inputsHash) replies.audit.fate
    (.goto .remove) (.goto .auditRelease) := rfl
  unfold Move.audit at hmove
  unfold RecordReported
  have hrecorded := recorded_audit id q.text owner row.toolName row.inputsHash replies.audit.fate
    (p.getPending q.uuid)
  by_cases hok : replies.audit.fate = .ok
  · rw [if_pos hok] at hmove
    have hbefore := Or.inl (b := False) (hrecorded.mpr (by rw [hok]; exact nofun))
    refine (tellsRejection_goto hmove (tellsRejection_remove hbefore)).congr fun _ => ?_
    rw [hok]
    exact ⟨fun h => Or.inr ⟨rfl, h⟩, fun h => (h.resolve_left nofun).2⟩
  · rw [if_neg hok] at hmove
    have hrelease : rejecting id q replies p .auditRelease =
        ⟨if replies.auditRelease.fate.applies then p.releaseClaim q.uuid none else p, .finish .failed, []⟩ := by
      show Move.release p q.uuid none replies.auditRelease.fate (.finish .failed) = _
      unfold Move.release
      rw [ite_self]
    refine (tellsRejection_goto hmove (tellsRejection_failed hrelease not_recorded_nil)).congr fun _ => ?_
    rw [or_false, hrecorded]
    exact ⟨fun h => Or.inl (not_not.mp h), fun h => not_not.mpr (h.resolve_right fun h => hok h.1)⟩

theorem tellsRejection_claim (hrow : p.getPending q.uuid = some row) (now : Int) :
    TellsRejection id q sends False (runAlone (rejecting id q replies) (n + 3) p (.claim row now))
      (replies.claim.fate = .ok →
        if row.executingAt = none then RecordReported replies.audit replies.remove sends
        else isStuck row.executingAt replies.claim.now = true →
          RecordReported replies.stuckAudit replies.stuckRemove sends) := by
  have hmove : rejecting id q replies p (.claim row now) = .claim p id q.uuid now replies.claim.fate .audit
    (if isStuck row.executingAt replies.claim.now then ⟨p, .goto (.stuckAudit row), []⟩
      else .throw p (approvalAlreadyResolvedError q.text)) := rfl
  unfold Move.claim at hmove
  cases hfate : replies.claim.fate with
  | lost =>
    rw [hfate] at hmove
    exact (tellsRejection_failed hmove not_recorded_nil).congr fun _ => iff_of_true not_false nofun
  | applied =>
    rw [hfate] at hmove
    exact (tellsRejection_failed hmove not_recorded_nil).congr fun _ => iff_of_true not_false nofun
  | ok =>
    rw [hfate] at hmove
    by_cases hfree : row.executingAt = none
    · rw [claimForExecution_of_free now hrow hfree] at hmove
      rw [if_pos hfree]
      refine (tellsRejection_quiet hmove (not_recorded_singleton fun _ _ => Event.noConfusion)
        (tellsRejection_audit _)).congr fun _ => ?_
      exact ⟨fun h _ => h, fun h => h rfl⟩
    · rw [claimForExecution_of_claimed now hrow hfree] at hmove
      rw [if_neg hfree]
      dsimp only at hmove
      by_cases hstuck : isStuck row.executingAt replies.claim.now = true
      · rw [if_pos hstuck] at hmove
        refine (tellsRejection_quiet hmove not_recorded_nil (tellsRejection_stuckAudit row)).congr fun _ => ?_
        exact ⟨fun h _ _ => h, fun h => h rfl hstuck⟩
      · rw [if_neg hstuck] at hmove
        refine (tellsRejection_threw hmove (alreadyResolved_refused _)).congr fun _ => ?_
        exact iff_of_true trivial fun _ h => absurd h hstuck

theorem rejecting_getPending (id : CallId) (q : RequestId) (replies : RejectionReplies) (p : PendingApprovals) :
    rejecting id q replies p .getPending =
      if replies.getPending.fate = .ok then
        match p.getPending q.uuid with
        | none => .throw p (pendingApprovalNotFoundError q.text)
        | some pending => ⟨p, .goto (.claim pending replies.getPending.now), []⟩
      else .fail p := rfl

/-- a whole call -/
theorem tellsRejection_resolveRejection (id : CallId) (q : RequestId) (p : PendingApprovals) (n : Nat)
    (sends : Sends) (replies : RejectionReplies) :
    TellsRejection id q sends False (runAlone (rejecting id q replies) (n + 4) p .getPending)
      (∀ row, RowOf p q.text row → replies.getPending.fate = .ok → replies.claim.fate = .ok →
        if row.executingAt = none then RecordReported replies.audit replies.remove sends
        else isStuck row.executingAt replies.claim.now = true →
          RecordReported replies.stuckAudit replies.stuckRemove sends) := by
  have hread := rejecting_getPending id q replies p
  by_cases hok : replies.getPending.fate = .ok
  · rw [if_pos hok] at hread
    cases hrow : p.getPending q.uuid with
    | none =>
      rw [hrow] at hread
      refine (tellsRejection_threw hread (notFound_refused _)).congr fun _ => iff_of_true trivial ?_
      intro row h
      rw [rowOf_iff, hrow] at h
      cases h
    | some row =>
      rw [hrow] at hread
      refine (tellsRejection_quiet hread not_recorded_nil (tellsRejection_claim hrow _)).congr fun _ => ?_
      constructor
      · intro h row' hrow' _
        rw [rowOf_iff, hrow, Option.some.injEq] at hrow'
        rw [← hrow']
        exact h
      · exact fun h => h row (rowOf_iff.mpr hrow) hok
  · rw [if_neg hok] at hread
    refine (tellsRejection_failed hread not_recorded_nil).congr fun _ => ?_
    exact iff_of_true not_false fun _ _ h => absurd h hok

end

/-! ## what the owner is told -/

section
variable {id : CallId} {requestId : JsString} {p : PendingApprovals} {sends : Sends}

theorem approvalCaught_kind (error : Option JinError) (message : Message)
    (h : message ∈ approvalCaught sends error) : ∀ text, message ≠ .rejectionFailed text := by
  intro text htext
  rw [htext] at h
  unfold approvalCaught at h
  split at h
  · split at h
    · cases (mem_sentIf.mp h).2
    · split at h
      · cases (mem_sentIf.mp h).2
      · cases (mem_sentIf.mp h).2
  · cases (mem_sentIf.mp h).2

/-- an approval never tells of a rejection -/
theorem approvalMessages_kind (outcome : Outcome Result) (text : JsString) :
    .rejectionFailed text ∉ approvalMessages requestId sends outcome := by
  intro h
  have hcaught : ∀ error, .rejectionFailed text ∉ approvalCaught sends error := fun error h =>
    approvalCaught_kind error _ h text rfl
  have hreplied : ∀ message, (∀ text, message ≠ Message.rejectionFailed text) →
      .rejectionFailed text ∉ approvalReplied sends message := by
    intro message hmessage h
    unfold approvalReplied at h
    split at h
    · exact hmessage text (List.mem_singleton.mp h).symm
    · exact hcaught none h
  unfold approvalMessages at h
  split at h
  · exact hreplied _ (fun _ => Message.noConfusion) h
  · exact hreplied _ (fun _ => Message.noConfusion) h
  · cases h
  · exact hcaught _ h
  · exact hcaught _ h

/-- nor a rejection of an executor -/
theorem rejectionMessages_kind (outcome : Outcome Result) (message : Message)
    (h : message ∈ rejectionMessages requestId sends outcome) :
    (∀ text, message ≠ .notCompleted text) ∧ ∀ named result, message ≠ .executed named result := by
  have hcaught : ∀ error, message ∈ rejectionCaught sends error →
      (∀ text, message ≠ .notCompleted text) ∧ ∀ named result, message ≠ .executed named result := by
    intro error h
    unfold rejectionCaught at h
    split at h
    · split at h
      · rw [(mem_sentIf.mp h).2]
        exact ⟨fun _ => Message.noConfusion, fun _ _ => Message.noConfusion⟩
      · rw [(mem_sentIf.mp h).2]
        exact ⟨fun _ => Message.noConfusion, fun _ _ => Message.noConfusion⟩
    · rw [(mem_sentIf.mp h).2]
      exact ⟨fun _ => Message.noConfusion, fun _ _ => Message.noConfusion⟩
  unfold rejectionMessages at h
  split at h
  · split at h
    · rw [List.mem_singleton.mp h]
      exact ⟨fun _ => Message.noConfusion, fun _ _ => Message.noConfusion⟩
    · exact hcaught _ h
  · exact hcaught _ h
  · exact hcaught _ h

theorem truthful_approval_iff {e : Ending} :
    Truthful id requestId ⟨e.pending, e.events, approvalMessages requestId sends e.outcome⟩ ↔
      Fair requestId sends e.outcome (Executed id e.events) (StillPending e.pending requestId) :=
  ⟨fun h => ⟨h.notCompleted, h.executed⟩,
    fun h => ⟨h.1, h.2, fun text hm => absurd hm (approvalMessages_kind _ text)⟩⟩

theorem truthful_rejection_iff {e : Ending} :
    Truthful id requestId ⟨e.pending, e.events, rejectionMessages requestId sends e.outcome⟩ ↔
      FairRejection requestId sends e.outcome (Recorded id e.events) := by
  refine ⟨fun h => h.rejectionFailed, fun h => ⟨?_, ?_, h⟩⟩
  · exact fun text hm => absurd rfl ((rejectionMessages_kind _ _ hm).1 text)
  · exact fun named result hm => absurd rfl ((rejectionMessages_kind _ _ hm).2 named result)

theorem truthful_processApproval_iff (replies : ApprovalReplies) :
    (∃ told, processApproval p id requestId replies sends = some told ∧ Truthful id requestId told) ↔
      ApprovalCovered p requestId replies sends := by
  have htold : ∀ {e}, resolveAndExecute p id requestId replies = some e →
      ((∃ told, processApproval p id requestId replies sends = some told ∧ Truthful id requestId told) ↔
        Fair requestId sends e.outcome (Executed id e.events) (StillPending e.pending requestId)) := by
    intro e he
    unfold processApproval
    rw [he, ← truthful_approval_iff]
    exact ⟨fun ⟨told, h, ht⟩ => by cases h; exact ht, fun h => ⟨_, rfl, h⟩⟩
  unfold resolveAndExecute at htold
  split at htold
  next huuid =>
    have hpending : ¬ StillPending p requestId := fun ⟨_, _, h, _⟩ => by rw [huuid] at h; cases h
    rw [htold rfl, fair_failed]
    refine forall_congr' fun _ => iff_of_false (fun h => hpending h.2) fun h => ?_
    have := (h.1 hpending).1
    rw [huuid] at this
    cases this
  next uuid hcast =>
    obtain ⟨e, he, hfair⟩ := tells_resolveAndExecute id ⟨requestId, uuid, hcast⟩ p 1 sends replies
    rw [htold he, hfair]
    rfl

theorem truthful_processRejection_iff (replies : RejectionReplies) :
    (∃ told, processRejection p id requestId replies sends = some told ∧ Truthful id requestId told) ↔
      RejectionCovered p requestId replies sends := by
  have htold : ∀ {e}, resolveRejection p id requestId replies = some e →
      ((∃ told, processRejection p id requestId replies sends = some told ∧ Truthful id requestId told) ↔
        FairRejection requestId sends e.outcome (Recorded id e.events)) := by
    intro e he
    unfold processRejection
    rw [he, ← truthful_rejection_iff]
    exact ⟨fun ⟨told, h, ht⟩ => by cases h; exact ht, fun h => ⟨_, rfl, h⟩⟩
  unfold resolveRejection at htold
  split at htold
  next huuid =>
    rw [htold rfl, fairRejection_failed]
    refine forall_congr' fun _ => iff_of_true not_recorded_nil fun row ⟨_, h, _⟩ => ?_
    rw [huuid] at h
    cases h
  next uuid hcast =>
    obtain ⟨e, he, hfair⟩ := tellsRejection_resolveRejection id ⟨requestId, uuid, hcast⟩ p 5 sends
      replies
    rw [or_false] at hfair
    rw [htold he, hfair]
    rfl

end

/-- **What the owner is told is so** exactly where the replies and the statements around an action that
is done, and around a rejection that is recorded, succeed. -/
theorem told_truthfully_iff (p : PendingApprovals) (id : CallId) (requestId : JsString) (sends : Sends) :
    (∀ replies, (∃ told, processApproval p id requestId replies sends = some told
        ∧ Truthful id requestId told) ↔ ApprovalCovered p requestId replies sends) ∧
      ∀ replies, (∃ told, processRejection p id requestId replies sends = some told
        ∧ Truthful id requestId told) ↔ RejectionCovered p requestId replies sends :=
  ⟨fun replies => truthful_processApproval_iff replies, fun replies => truthful_processRejection_iff replies⟩

/-- every statement is answered; the executor's result comes with the text -/
def answered : Hitl.Reply := ⟨0, .ok, lit "informe_final"⟩

def answeredApproval : ApprovalReplies :=
  ⟨answered, answered, answered, answered, answered, answered, answered, answered, answered, answered,
    answered⟩

def answeredRejection : RejectionReplies :=
  ⟨answered, answered, answered, answered, answered, answered, answered⟩

/-- Telegram refuses the Markdown of the reply, and takes the plain text after it -/
def refusedMarkdown : Sends where
  first := false
  last := true
  error := lit "can't parse entities"

/-- an action that was executed is told as pending, and a rejection that was recorded as failed -/
theorem told_wrongly :
    ¬ (∀ p id requestId replies sends,
        ∃ told, processApproval p id requestId replies sends = some told ∧ Truthful id requestId told) ∧
      ¬ ∀ p id requestId replies sends,
        ∃ told, processRejection p id requestId replies sends = some told ∧ Truthful id requestId told := by
  obtain ⟨p, hp⟩ : ∃ p, PendingApprovals.empty.insert (sampleInput .confirm) 0 = some p := ⟨_, rfl⟩
  constructor
  · intro h
    obtain ⟨told, htold, ht⟩ := h p 0 sampleRequest.text answeredApproval refusedMarkdown
    have hrun : (PendingApprovals.empty.insert (sampleInput .confirm) 0).bind (fun p =>
        (processApproval p 0 sampleRequest.text answeredApproval refusedMarkdown).map fun told =>
          (told.sent, decide (.execSucceeded 0 sampleRequest.uuid ∈ told.events)))
        = some ([.notCompleted (lit "can't parse entities")], true) := by decide
    rw [hp, Option.bind_some, htold, Option.map_some, Option.some.injEq, Prod.mk.injEq] at hrun
    have hsent : .notCompleted (lit "can't parse entities") ∈ told.sent := by
      rw [hrun.1]
      exact List.mem_singleton_self _
    exact (ht.notCompleted _ hsent).1 ⟨_, of_decide_eq_true hrun.2⟩
  · intro h
    obtain ⟨told, htold, ht⟩ := h p 0 sampleRequest.text answeredRejection refusedMarkdown
    have hrun : (PendingApprovals.empty.insert (sampleInput .confirm) 0).bind (fun p =>
        (processRejection p 0 sampleRequest.text answeredRejection refusedMarkdown).map fun told =>
          (told.sent, decide (.audited 0 (.recordRejection sampleRequest.text owner
            (sampleInput .confirm).toolName (sampleInput .confirm).inputsHash)
              (some (setExecuting 0 (newRow (sampleInput .confirm) 0))) ∈ told.events)))
        = some ([.rejectionFailed (lit "can't parse entities")], true) := by decide
    rw [hp, Option.bind_some, htold, Option.map_some, Option.some.injEq, Prod.mk.injEq] at hrun
    have hsent : .rejectionFailed (lit "can't parse entities") ∈ told.sent := by
      rw [hrun.1]
      exact List.mem_singleton_self _
    exact ht.rejectionFailed _ hsent ⟨_, _, _, _, _, of_decide_eq_true hrun.2⟩

end Telegram
