import JinCore.Hitl.Steps

/-!
# One sweep on its own (`timeout.service.ts`)

`sweep` reads the rows once and takes them one after the other; a statement that fails ends it.  No
tool of the registry escalates yet: the sweeps here are those of any registry.

* `SweepRun`                 a sweep with the replies of its statements and no other call between them;
* `Account`, `account`       the row of a request, and what was appended and told about it;
* `treatment`                what a sweep owes a row: by its age, its tool and its marks;
* `stepWith`                 the system over a registry; `stepWith_registry`: over that of the source;
* `SweepFact`                where a sweep stands: the rows behind it, its row, the rows ahead;
* `sweepFact_go`             one statement; `sweep_treats_rows`, `sweep_ends`: a whole sweep.
-/

namespace Hitl
open JsString Common Tools Audit Runs PendingApprovals

structure SweepRun where
  id : CallId
  now : Int
  replies : List Reply

def SweepRun.labels (sweep : SweepRun) : List Label :=
  .begin sweep.id (.sweep sweep.now) :: sweep.replies.map (.go sweep.id)

/-! ## what is known of a request -/

def auditedRequest : AuditCall → JsString
  | .recordToolCall requestId _ _ _ _ _ _ | .recordApproval requestId _ _ _
  | .recordRejection requestId _ _ _ | .recordExecutionFailure requestId _ _
  | .recordTimeout requestId _ _ _ => requestId

/-- an append about a request -/
def Event.append (r : JsString) : Event → Option AuditCall
  | .audited _ call _ => if auditedRequest call = r then some call else none
  | _ => none

/-- the request was escalated to the owner -/
def Event.escalates (r : JsString) : Event → Bool
  | .notified (.escalated requestId _) => decide (requestId = r)
  | _ => false

/-- the row of a request, the appends about it, newest first, and how often it was escalated -/
structure Account where
  row : Option PendingApprovalRow
  audits : List AuditCall
  escalations : Nat
  deriving DecidableEq

def account (r : JsString) (p : PendingApprovals) (told : List Event) : Account :=
  ⟨p.getPending r, told.filterMap (Event.append r), told.countP (Event.escalates r)⟩

/-! ## what a sweep owes a row -/

section
variable (tools : JsString → Option ToolDefinition)

/-- `tool?.timeoutBehavior ?? 'discard'` -/
def behaviorOf (x : PendingApprovalRow) : TimeoutBehavior :=
  ((tools x.toolName).bind ToolDefinition.timeoutBehavior).getD .discard

def statusOf (x : PendingApprovalRow) : TimeoutStatus :=
  match behaviorOf tools x with
  | .discard => .timeout
  | .escalate => .abandoned

/-- nobody executes it, and it is a day old -/
def Due (now : Int) (x : PendingApprovalRow) : Prop :=
  x.executingAt = none ∧ 24 * 60 * 60 * 1000 ≤ now - x.createdAt

/-- nobody executes it, it is between half a day and a day old, and the owner was not told -/
def WarningDue (now : Int) (x : PendingApprovalRow) : Prop :=
  x.executingAt = none ∧ behaviorOf tools x = .escalate ∧ x.escalatedAt = none ∧
    12 * 60 * 60 * 1000 ≤ now - x.createdAt ∧ now - x.createdAt < 24 * 60 * 60 * 1000

instance (now : Int) (x : PendingApprovalRow) : Decidable (Due now x) :=
  inferInstanceAs (Decidable (_ ∧ _))

instance (now : Int) (x : PendingApprovalRow) : Decidable (WarningDue tools now x) :=
  inferInstanceAs (Decidable (_ ∧ _))

def untouched (x : PendingApprovalRow) : Account := ⟨some x, [], 0⟩

def timeoutCall (x : PendingApprovalRow) : AuditCall :=
  .recordTimeout x.requestId x.toolName x.inputsHash (statusOf tools x)

def treatment (now : Int) (x : PendingApprovalRow) : Account :=
  if Due now x then ⟨none, [timeoutCall tools x], 0⟩
  else if WarningDue tools now x then ⟨some (setEscalated now x), [], 1⟩
  else untouched x

end

/-- the accounts of the rows -/
def Accounts (f : PendingApprovalRow → Account) (p : PendingApprovals) (told : List Event)
    (rows : List PendingApprovalRow) : Prop :=
  ∀ x ∈ rows, account x.requestId p told = f x

/-! ## a sweep over any registry -/

section
variable (tools : JsString → Option ToolDefinition)

/-- `processPending` of one row after the other, up to the next statement -/
def processPendingWith (now clock : Int) : List PendingApprovalRow → Next SweepPc × List Event
  | [] => (.finish (.returned .swept), [])
  | row :: rest =>
    match row.executingAt with
    | some _ =>
      let (next, events) := processPendingWith now clock rest
      (next, events ++ if isStuck row.executingAt now
        then [.notified (.stuck row.requestId row.toolName)] else [])
    | none =>
      match decideTimeoutOutcome row.createdAt (behaviorOf tools row) row.escalatedAt.isSome now with
      | .none => processPendingWith now clock rest
      | .discard => (.goto (.claim row rest .timeout clock), [])
      | .escalateWarning => (.goto (.escalate row rest), [])
      | .abandon => (.goto (.claim row rest .abandoned clock), [])

def sweepOnWith (p : PendingApprovals) (now clock : Int) (rest : List PendingApprovalRow)
    (told : List Event) : Move SweepPc :=
  ⟨p, (processPendingWith tools now clock rest).1,
    (processPendingWith tools now clock rest).2 ++ told⟩

def sweepWith (p : PendingApprovals) (id : CallId) (now : Int) (reply : Reply) :
    SweepPc → Move SweepPc
  | .select =>
    if reply.fate = .ok then sweepOnWith tools p now reply.now p.table.rows [] else .fail p
  | .claim row rest status claimNow =>
    .claim p id row.requestId claimNow reply.fate (fun _ => .audit row rest status)
      (sweepOnWith tools p now reply.now rest [])
  | .audit row rest status => sweep p id now reply (.audit row rest status)
  | .auditRelease row => sweep p id now reply (.auditRelease row)
  | .remove row rest status =>
    let on := sweepOnWith tools p now reply.now rest (abandonedEvents row status)
    .remove p row.requestId reply.fate on.next (.finish .failed) on.events
  | .escalate row rest =>
    let p' := p.escalate row.requestId now
    match reply.fate with
    | .lost => .fail p
    | .applied => .fail p'
    | .ok =>
      sweepOnWith tools p' now reply.now rest [.notified (.escalated row.requestId row.toolName)]

/-- the system with the sweeps of another registry -/
def stepWith (s : System) (l : Label) : Option System :=
  match l with
  | .go id reply =>
    match s.pc id with
    | .sweep now pc => some (s.apply id (.sweep now) (sweepWith tools s.pending id now reply pc))
    | _ => step s l
  | _ => step s l

end

theorem processPendingWith_registry (now clock : Int) (rows : List PendingApprovalRow) :
    processPendingWith getToolDefinition now clock rows = processPending now clock rows := by
  induction rows with
  | nil => rfl
  | cons row rest ih =>
    rw [processPendingWith, processPending, ih]
    rfl

theorem sweepWith_registry (p : PendingApprovals) (id : CallId) (now : Int) (reply : Reply)
    (pc : SweepPc) : sweepWith getToolDefinition p id now reply pc = sweep p id now reply pc := by
  have hon : ∀ (q : PendingApprovals) (rest : List PendingApprovalRow) (told : List Event),
      sweepOnWith getToolDefinition q now reply.now rest told = sweepOn q now reply.now rest told := by
    intro q rest told
    rw [sweepOnWith, sweepOn, processPendingWith_registry]
  cases pc with
  | audit row rest status => rfl
  | auditRelease row => rfl
  | select => rw [sweepWith, sweep, hon]
  | claim row rest status clock => rw [sweepWith, sweep, hon]
  | remove row rest status => rw [sweepWith, sweep, hon]
  | escalate row rest =>
    cases hfate : reply.fate with
    | ok => simp only [sweepWith, sweep, hfate, hon]
    | lost => simp only [sweepWith, sweep, hfate]
    | applied => simp only [sweepWith, sweep, hfate]

/-- with the registry of the source it is the system itself -/
theorem stepWith_registry : stepWith getToolDefinition = step := by
  funext s l
  cases l with
  | go id reply =>
    rw [stepWith.eq_def]
    simp only
    split
    next now pc hpc =>
      rw [step, hpc, sweepWith_registry]
    next => rfl
  | begin id op => rfl
  | die id => rfl

/-! ## the rows that need no statement -/

/-- nothing is appended and nobody is told of an escalation -/
def Silent (events : List Event) : Prop :=
  ∀ r, events.filterMap (Event.append r) = [] ∧ events.countP (Event.escalates r) = 0

section
variable {tools : JsString → Option ToolDefinition} {p p' : PendingApprovals}
  {told events : List Event} {now clock : Int} {r : JsString} {rows : List PendingApprovalRow}

theorem account_append (r : JsString) (p : PendingApprovals) (events told : List Event) :
    account r p (events ++ told) = ⟨p.getPending r,
      events.filterMap (Event.append r) ++ told.filterMap (Event.append r),
      events.countP (Event.escalates r) + told.countP (Event.escalates r)⟩ := by
  rw [account, List.filterMap_append, List.countP_append]

theorem Silent.account (h : Silent events) (r : JsString) (p : PendingApprovals)
    (told : List Event) : account r p (events ++ told) = Hitl.account r p told := by
  rw [account_append, (h r).1, (h r).2, List.nil_append, Nat.zero_add]
  rfl

/-- the first row that needs a statement, after those that need none -/
inductive NextRow (tools : JsString → Option ToolDefinition) (now clock : Int) : List PendingApprovalRow → Next SweepPc → Prop
  | none {rows : List PendingApprovalRow} (h : ∀ y ∈ rows, treatment tools now y = untouched y) :
      NextRow tools now clock rows (.finish (.returned .swept))
  | due {rows : List PendingApprovalRow} (skipped : List PendingApprovalRow) (x : PendingApprovalRow)
      (rest : List PendingApprovalRow) (hrows : rows = skipped ++ x :: rest)
      (h : ∀ y ∈ skipped, treatment tools now y = untouched y) (hdue : Due now x) :
      NextRow tools now clock rows (.goto (.claim x rest (statusOf tools x) clock))
  | warning {rows : List PendingApprovalRow} (skipped : List PendingApprovalRow)
      (x : PendingApprovalRow) (rest : List PendingApprovalRow) (hrows : rows = skipped ++ x :: rest)
      (h : ∀ y ∈ skipped, treatment tools now y = untouched y) (hdue : WarningDue tools now x) :
      NextRow tools now clock rows (.goto (.escalate x rest))

theorem NextRow.skip {next : Next SweepPc} {x : PendingApprovalRow}
    (hx : treatment tools now x = untouched x) (h : NextRow tools now clock rows next) :
    NextRow tools now clock (x :: rows) next := by
  cases h with
  | none h => exact .none (List.forall_mem_cons.mpr ⟨hx, h⟩)
  | due skipped y rest hrows h hdue =>
    exact .due (x :: skipped) y rest (by rw [hrows]; rfl) (List.forall_mem_cons.mpr ⟨hx, h⟩) hdue
  | warning skipped y rest hrows h hdue =>
    exact .warning (x :: skipped) y rest (by rw [hrows]; rfl) (List.forall_mem_cons.mpr ⟨hx, h⟩) hdue

theorem treatment_claimed {x : PendingApprovalRow} (h : x.executingAt ≠ none) :
    treatment tools now x = untouched x := by
  rw [treatment, if_neg (fun hd => h hd.1), if_neg (fun hd => h hd.1)]

theorem silent_stuck (requestId toolName : JsString) :
    Silent [.notified (.stuck requestId toolName)] := fun _ => ⟨rfl, rfl⟩

theorem Silent.append {events' : List Event} (h : Silent events) (h' : Silent events') :
    Silent (events ++ events') := by
  intro r
  rw [List.filterMap_append, List.countP_append, (h r).1, (h r).2, (h' r).1, (h' r).2]
  exact ⟨rfl, rfl⟩

/-- the outcome of a row that nobody executes, in terms of its age -/
theorem decideTimeoutOutcome_cases (tools : JsString → Option ToolDefinition) (now : Int)
    {x : PendingApprovalRow} (hfree : x.executingAt = none) :
    (decideTimeoutOutcome x.createdAt (behaviorOf tools x) x.escalatedAt.isSome now = .none ∧
        ¬ Due now x ∧ ¬ WarningDue tools now x) ∨
      (decideTimeoutOutcome x.createdAt (behaviorOf tools x) x.escalatedAt.isSome now = .discard ∧
        Due now x ∧ statusOf tools x = .timeout) ∨
      (decideTimeoutOutcome x.createdAt (behaviorOf tools x) x.escalatedAt.isSome now = .abandon ∧
        Due now x ∧ statusOf tools x = .abandoned) ∨
      (decideTimeoutOutcome x.createdAt (behaviorOf tools x) x.escalatedAt.isSome now = .escalateWarning ∧
        WarningDue tools now x) := by
  by_cases httl : 24 * 60 * 60 * 1000 ≤ now - x.createdAt
  · cases hb : behaviorOf tools x with
    | discard =>
      exact Or.inr (Or.inl ⟨if_pos httl, ⟨hfree, httl⟩, by rw [statusOf, hb]⟩)
    | escalate =>
      exact Or.inr (Or.inr (Or.inl ⟨if_pos httl, ⟨hfree, httl⟩, by rw [statusOf, hb]⟩))
  · have hdue : ¬ Due now x := fun h => httl h.2
    cases hb : behaviorOf tools x with
    | discard =>
      refine Or.inl ⟨if_neg httl, hdue, fun h => ?_⟩
      cases hb.symm.trans h.2.1
    | escalate =>
      by_cases hwarning : now - x.createdAt ≥ escalationWarningMs ∧ x.escalatedAt.isSome = false
      · refine Or.inr (Or.inr (Or.inr ⟨(if_neg httl).trans (if_pos hwarning), hfree, hb, ?_,
          hwarning.1, Int.not_le.mp httl⟩))
        exact Option.isSome_eq_false_iff.mp hwarning.2 |> Option.isNone_iff_eq_none.mp
      · refine Or.inl ⟨(if_neg httl).trans (if_neg hwarning), hdue, fun h => hwarning ⟨h.2.2.2.1, ?_⟩⟩
        rw [h.2.2.1]
        rfl

theorem processPendingWith_next (tools : JsString → Option ToolDefinition) (now clock : Int)
    (rows : List PendingApprovalRow) :
    NextRow tools now clock rows (processPendingWith tools now clock rows).1 ∧
      Silent (processPendingWith tools now clock rows).2 := by
  induction rows with
  | nil => exact ⟨.none fun _ h => absurd h List.not_mem_nil, fun _ => ⟨rfl, rfl⟩⟩
  | cons x rows ih =>
    rw [processPendingWith]
    cases hexec : x.executingAt with
    | some at_ =>
      refine ⟨ih.1.skip (treatment_claimed (by rw [hexec]; simp)), ih.2.append ?_⟩
      split
      · exact silent_stuck _ _
      · exact fun _ => ⟨rfl, rfl⟩
    | none =>
      rcases decideTimeoutOutcome_cases tools now hexec with
        ⟨houtcome, hdue, hwarning⟩ | ⟨houtcome, hdue, hstatus⟩ | ⟨houtcome, hdue, hstatus⟩ |
          ⟨houtcome, hwarning⟩
      all_goals
        simp only [houtcome]
      · exact ⟨ih.1.skip (by rw [treatment, if_neg hdue, if_neg hwarning]), ih.2⟩
      · rw [← hstatus]
        exact ⟨.due [] x rows rfl (fun _ h => absurd h List.not_mem_nil) hdue, fun _ => ⟨rfl, rfl⟩⟩
      · rw [← hstatus]
        exact ⟨.due [] x rows rfl (fun _ h => absurd h List.not_mem_nil) hdue, fun _ => ⟨rfl, rfl⟩⟩
      · exact ⟨.warning [] x rows rfl (fun _ h => absurd h List.not_mem_nil) hwarning,
          fun _ => ⟨rfl, rfl⟩⟩

end

/-! ## where a sweep stands -/

/-- the row a statement is about -/
def SweepPc.row : SweepPc → Option PendingApprovalRow
  | .select => none
  | .claim x _ _ _ | .audit x _ _ | .auditRelease x | .remove x _ _ | .escalate x _ => some x

/-- the rows before `x` are done, the rows after it are left -/
structure Split (tools : JsString → Option ToolDefinition) (rows : List PendingApprovalRow) (now : Int) (p : PendingApprovals)
    (told : List Event) (pre : List PendingApprovalRow) (x : PendingApprovalRow)
    (rest : List PendingApprovalRow) : Prop where
  split : rows = pre ++ x :: rest
  done : Accounts (treatment tools now) p told pre
  left : Accounts untouched p told rest

/-- what a sweep knows of its rows at each statement -/
inductive SweepFact (tools : JsString → Option ToolDefinition) (rows : List PendingApprovalRow) (now : Int) (p : PendingApprovals)
    (told : List Event) : SweepPc → Prop
  | select (hrows : p.table.rows = rows) (h : Accounts untouched p told rows) :
      SweepFact tools rows now p told .select
  | claim (pre : List PendingApprovalRow) (x : PendingApprovalRow) (rest : List PendingApprovalRow)
      (clock : Int) (h : Split tools rows now p told pre x rest)
      (hx : account x.requestId p told = untouched x) (hdue : Due now x) :
      SweepFact tools rows now p told (.claim x rest (statusOf tools x) clock)
  | audit (pre : List PendingApprovalRow) (x : PendingApprovalRow) (rest : List PendingApprovalRow)
      (clock : Int) (h : Split tools rows now p told pre x rest)
      (hx : account x.requestId p told = ⟨some (setExecuting clock x), [], 0⟩) (hdue : Due now x) :
      SweepFact tools rows now p told (.audit x rest (statusOf tools x))
  | auditRelease (pre : List PendingApprovalRow) (x : PendingApprovalRow)
      (rest : List PendingApprovalRow) (h : Split tools rows now p told pre x rest) :
      SweepFact tools rows now p told (.auditRelease x)
  | remove (pre : List PendingApprovalRow) (x : PendingApprovalRow)
      (rest : List PendingApprovalRow) (clock : Int) (h : Split tools rows now p told pre x rest)
      (hx : account x.requestId p told = ⟨some (setExecuting clock x), [timeoutCall tools x], 0⟩)
      (hdue : Due now x) :
      SweepFact tools rows now p told (.remove x rest (statusOf tools x))
  | escalate (pre : List PendingApprovalRow) (x : PendingApprovalRow)
      (rest : List PendingApprovalRow) (h : Split tools rows now p told pre x rest)
      (hx : account x.requestId p told = untouched x) (hdue : WarningDue tools now x) :
      SweepFact tools rows now p told (.escalate x rest)

/-- how a sweep goes on: at a row, with all rows done, or not past the row it stands at -/
inductive SweepGoes (tools : JsString → Option ToolDefinition) (rows : List PendingApprovalRow) (now : Int) (p : PendingApprovals)
    (told : List Event) (pc : SweepPc) (fate : Fate) : Next SweepPc → Prop
  | on (pc' : SweepPc) (hfate : fate = .ok) (h : SweepFact tools rows now p told pc')
      (hback : ∀ x, pc' ≠ .auditRelease x) : SweepGoes tools rows now p told pc fate (.goto pc')
  | back (pre : List PendingApprovalRow) (x : PendingApprovalRow) (rest : List PendingApprovalRow)
      (hx : pc.row = some x) (hfate : fate ≠ .ok) (h : Split tools rows now p told pre x rest) :
      SweepGoes tools rows now p told pc fate (.goto (.auditRelease x))
  | swept (hfate : fate = .ok) (h : Accounts (treatment tools now) p told rows) :
      SweepGoes tools rows now p told pc fate (.finish (.returned .swept))
  | unread (hpc : pc = .select) (hfate : fate ≠ .ok) (h : Accounts untouched p told rows) :
      SweepGoes tools rows now p told pc fate (.finish .failed)
  | stopped (pre : List PendingApprovalRow) (x : PendingApprovalRow)
      (rest : List PendingApprovalRow) (hx : pc.row = some x)
      (hfate : pc = .auditRelease x ∨ fate ≠ .ok) (h : Split tools rows now p told pre x rest) :
      SweepGoes tools rows now p told pc fate (.finish .failed)

section
variable {tools : JsString → Option ToolDefinition} {p p' : PendingApprovals}
  {told events : List Event} {now clock : Int} {r : JsString} {rows pre rest : List PendingApprovalRow} {x : PendingApprovalRow} {pc : SweepPc} {fate : Fate}

/-- nothing is appended about another request, and no other one is escalated -/
def Only (r : JsString) (events : List Event) : Prop :=
  ∀ j, j ≠ r → events.filterMap (Event.append j) = [] ∧ events.countP (Event.escalates j) = 0

/-- only the row of one request is written -/
def Writes (r : JsString) (p p' : PendingApprovals) : Prop :=
  ∀ j, j ≠ r → p'.getPending j = p.getPending j

theorem Silent.only (h : Silent events) (r : JsString) : Only r events := fun j _ => h j

theorem writes_update (p : PendingApprovals) (r : JsString)
    (f : PendingApprovalRow → PendingApprovalRow) (hf : ∀ row, (f row).requestId = row.requestId) :
    Writes r p (p.update r f hf) := by
  intro j hj
  rw [getPending_update, if_neg hj]

theorem writes_remove (p : PendingApprovals) (r : JsString) : Writes r p (p.removePending r) := by
  intro j hj
  rw [getPending_removePending, if_neg hj]

theorem only_audited (id : CallId) (call : AuditCall) (row : Option PendingApprovalRow) :
    Only (auditedRequest call) [.audited id call row] := by
  intro j hj
  refine ⟨?_, rfl⟩
  rw [List.filterMap_cons, Event.append, if_neg (Ne.symm hj)]
  rfl

theorem only_escalated (r toolName : JsString) : Only r [.notified (.escalated r toolName)] := by
  intro j hj
  refine ⟨rfl, ?_⟩
  rw [List.countP_singleton, if_neg]
  rw [Event.escalates, decide_eq_true_eq]
  exact Ne.symm hj

theorem Accounts.frame {f : PendingApprovalRow → Account} (h : Accounts f p told rows)
    (hr : ∀ y ∈ rows, y.requestId ≠ r) (hw : Writes r p p') (he : Only r events) :
    Accounts f p' (events ++ told) rows := by
  intro y hy
  obtain ⟨happends, hescalations⟩ := he y.requestId (hr y hy)
  rw [account_append, happends, hescalations, hw y.requestId (hr y hy), List.nil_append,
    Nat.zero_add]
  exact h y hy

theorem Accounts.silent {f : PendingApprovalRow → Account} (h : Accounts f p told rows)
    (he : Silent events) : Accounts f p (events ++ told) rows := by
  intro y hy
  rw [he.account]
  exact h y hy

/-- a statement about `x` leaves the rows before and after it alone -/
theorem Split.frame (hkeys : (rows.map PendingApprovalRow.requestId).Nodup)
    (h : Split tools rows now p told pre x rest) (hw : Writes x.requestId p p')
    (he : Only x.requestId events) : Split tools rows now p' (events ++ told) pre x rest := by
  rw [h.split, List.map_append, List.map_cons, List.nodup_middle, List.nodup_cons] at hkeys
  have hne : ∀ y ∈ pre ++ rest, y.requestId ≠ x.requestId := by
    intro y hy hyx
    refine hkeys.1 ?_
    rw [← List.map_append, ← hyx]
    exact List.mem_map_of_mem hy
  exact ⟨h.split, h.done.frame (fun y hy => hne y (List.mem_append_left _ hy)) hw he,
    h.left.frame (fun y hy => hne y (List.mem_append_right _ hy)) hw he⟩

theorem Split.silent (h : Split tools rows now p told pre x rest) (he : Silent events) :
    Split tools rows now p (events ++ told) pre x rest :=
  ⟨h.split, h.done.silent he, h.left.silent he⟩

/-- the rows that are left, taken up to the next statement -/
theorem goes_processPendingWith (clock : Int) (hrows : rows = pre ++ rest)
    (hdone : Accounts (treatment tools now) p told pre) (hleft : Accounts untouched p told rest) :
    SweepGoes tools rows now p ((processPendingWith tools now clock rest).2 ++ told) pc .ok
      (processPendingWith tools now clock rest).1 := by
  obtain ⟨hnext, hsilent⟩ := processPendingWith_next tools now clock rest
  have hdone' := hdone.silent hsilent
  have hleft' := hleft.silent hsilent
  revert hdone' hleft'
  generalize (processPendingWith tools now clock rest).2 ++ told = told'
  intro hdone' hleft'
  -- rows that need no statement are done as they are
  have hskip : ∀ skipped : List PendingApprovalRow, (∀ y ∈ skipped, y ∈ rest) →
      (∀ y ∈ skipped, treatment tools now y = untouched y) →
        Accounts (treatment tools now) p told' (pre ++ skipped) := by
    intro skipped hmem hquiet y hy
    rcases List.mem_append.mp hy with hy | hy
    · exact hdone' y hy
    · rw [hquiet y hy]
      exact hleft' y (hmem y hy)
  generalize (processPendingWith tools now clock rest).1 = next at hnext
  cases hnext with
  | none hquiet =>
    refine .swept rfl ?_
    rw [hrows]
    exact hskip rest (fun _ hy => hy) hquiet
  | due skipped x rest' hrest hquiet hdue =>
    subst hrest
    have hx : x ∈ skipped ++ x :: rest' := List.mem_append_right _ List.mem_cons_self
    refine .on _ rfl (.claim (pre ++ skipped) x rest' clock ⟨?_, ?_, fun y hy => ?_⟩ (hleft' x hx)
      hdue) fun _ => SweepPc.noConfusion
    · rw [hrows, List.append_assoc]
    · exact hskip skipped (fun y hy => List.mem_append_left _ hy) hquiet
    · exact hleft' y (List.mem_append_right _ (List.mem_cons_of_mem _ hy))
  | warning skipped x rest' hrest hquiet hdue =>
    subst hrest
    have hx : x ∈ skipped ++ x :: rest' := List.mem_append_right _ List.mem_cons_self
    refine .on _ rfl (.escalate (pre ++ skipped) x rest' ⟨?_, ?_, fun y hy => ?_⟩ (hleft' x hx)
      hdue) fun _ => SweepPc.noConfusion
    · rw [hrows, List.append_assoc]
    · exact hskip skipped (fun y hy => List.mem_append_left _ hy) hquiet
    · exact hleft' y (List.mem_append_right _ (List.mem_cons_of_mem _ hy))

/-- with `x` done the sweep takes up the rows after it -/
theorem Split.next (clock : Int) (h : Split tools rows now p told pre x rest)
    (hx : account x.requestId p told = treatment tools now x) :
    SweepGoes tools rows now p ((processPendingWith tools now clock rest).2 ++ told) pc .ok
      (processPendingWith tools now clock rest).1 := by
  have hrows : rows = (pre ++ [x]) ++ rest := by
    rw [h.split, List.append_assoc, List.singleton_append]
  have hdone : Accounts (treatment tools now) p told (pre ++ [x]) := by
    intro y hy
    rcases List.mem_append.mp hy with hy | hy
    · exact h.done y hy
    · rw [List.mem_singleton.mp hy]
      exact hx
  exact goes_processPendingWith clock hrows hdone h.left

theorem account_row {a : Account} (h : account r p told = a) : p.getPending r = a.row := by
  rw [← h]
  rfl

theorem getPending_updated (f : PendingApprovalRow → PendingApprovalRow)
    (hf : ∀ row, (f row).requestId = row.requestId) (h : p.getPending r = some x) :
    (p.update r f hf).getPending r = some (f x) := by
  rw [getPending_update, if_pos rfl, h, Option.map_some]

theorem account_update {audits : List AuditCall} {n : Nat}
    (f : PendingApprovalRow → PendingApprovalRow) (hf : ∀ row, (f row).requestId = row.requestId)
    (h : account r p told = ⟨some x, audits, n⟩) :
    account r (p.update r f hf) told = ⟨some (f x), audits, n⟩ := by
  obtain ⟨hrow, haudits, hn⟩ := Account.mk.injEq .. ▸ h
  rw [account, getPending_updated f hf hrow, haudits, hn]

theorem account_remove {audits : List AuditCall} {n : Nat}
    (h : account r p told = ⟨some x, audits, n⟩) :
    account r (p.removePending r) told = ⟨none, audits, n⟩ := by
  obtain ⟨-, haudits, hn⟩ := Account.mk.injEq .. ▸ h
  rw [account, getPending_removePending, if_pos rfl, haudits, hn]

theorem account_audited {audits : List AuditCall} {n : Nat} (id : CallId) (call : AuditCall)
    (row : Option PendingApprovalRow) (h : account (auditedRequest call) p told = ⟨some x, audits, n⟩) :
    account (auditedRequest call) p ([.audited id call row] ++ told)
      = ⟨some x, call :: audits, n⟩ := by
  obtain ⟨hrow, haudits, hn⟩ := Account.mk.injEq .. ▸ h
  rw [account_append, hrow, haudits, hn, List.filterMap_cons, Event.append, if_pos rfl]
  simp [Event.escalates]

theorem account_escalated {audits : List AuditCall} {n : Nat} (now : Int) (toolName : JsString)
    (h : account r p told = ⟨some x, audits, n⟩) :
    account r (p.escalate r now) ([.notified (.escalated r toolName)] ++ told)
      = ⟨some (setEscalated now x), audits, n + 1⟩ := by
  obtain ⟨hrow, haudits, hn⟩ := Account.mk.injEq .. ▸ account_update (setEscalated now) (fun _ => rfl) h
  rw [account_append, escalate, hrow, haudits, hn, Nat.add_comm]
  simp [Event.append, Event.escalates]

theorem silent_abandonedEvents (x : PendingApprovalRow) (status : TimeoutStatus) :
    Silent (abandonedEvents x status) := by
  cases status with
  | timeout => exact fun _ => ⟨rfl, rfl⟩
  | abandoned => exact fun _ => ⟨rfl, rfl⟩

theorem not_due_of_warning (h : WarningDue tools now x) : ¬ Due now x :=
  fun hdue => absurd hdue.2 (Int.not_le.mpr h.2.2.2.2)

/-- **One statement of a sweep.** -/
theorem sweepFact_go (hkeys : (rows.map PendingApprovalRow.requestId).Nodup) (id : CallId)
    (reply : Reply) (h : SweepFact tools rows now p told pc) :
    SweepGoes tools rows now (sweepWith tools p id now reply pc).pending ((sweepWith tools p id now reply pc).events ++ told)
      pc reply.fate (sweepWith tools p id now reply pc).next := by
  cases h with
  | select hrows hleft =>
    cases hfate : reply.fate with
    | ok =>
      simp only [sweepWith, hfate, if_pos, sweepOnWith, hrows, List.append_nil]
      exact goes_processPendingWith reply.now rfl (fun y hy => absurd hy List.not_mem_nil) hleft
    | lost =>
      simp only [sweepWith, hfate, reduceCtorEq, if_false]
      exact .unread rfl (by rintro ⟨⟩) hleft
    | applied =>
      simp only [sweepWith, hfate, reduceCtorEq, if_false]
      exact .unread rfl (by rintro ⟨⟩) hleft
  | claim pre x rest clock hsplit hx hdue =>
    have hclaimed := claimForExecution_of_free clock (account_row hx) hdue.1
    cases hfate : reply.fate with
    | ok =>
      simp only [sweepWith, Move.claim, hfate, hclaimed]
      have hsilent : Silent [.claimed id (setExecuting clock x)] := fun _ => ⟨rfl, rfl⟩
      refine .on _ rfl (.audit pre x rest clock (hsplit.frame hkeys (writes_update _ _ _ _)
        (hsilent.only _)) ?_ hdue) fun _ => SweepPc.noConfusion
      rw [hsilent.account]
      exact account_update (setExecuting clock) (fun _ => rfl) hx
    | lost =>
      simp only [sweepWith, Move.claim, hfate]
      exact .stopped pre x rest rfl (Or.inr (by rintro ⟨⟩)) hsplit
    | applied =>
      simp only [sweepWith, Move.claim, hfate, hclaimed]
      exact .stopped pre x rest rfl (Or.inr (by rintro ⟨⟩))
        (hsplit.frame hkeys (writes_update _ _ _ _) fun _ _ => ⟨rfl, rfl⟩)
  | audit pre x rest clock hsplit hx hdue =>
    have honly := only_audited id (timeoutCall tools x) (p.getPending x.requestId)
    cases hfate : reply.fate with
    | ok =>
      simp only [sweepWith, sweep, Move.audit, hfate, Fate.applies, if_true]
      refine .on _ rfl (.remove pre x rest clock (hsplit.frame hkeys (fun _ _ => rfl) honly) ?_ hdue)
        fun _ => SweepPc.noConfusion
      exact account_audited id (timeoutCall tools x) _ hx
    | lost =>
      simp only [sweepWith, sweep, Move.audit, hfate, Fate.applies, reduceCtorEq, if_false]
      exact .back pre x rest rfl (by rintro ⟨⟩) hsplit
    | applied =>
      simp only [sweepWith, sweep, Move.audit, hfate, Fate.applies, reduceCtorEq, if_true, if_false]
      exact .back pre x rest rfl (by rintro ⟨⟩) (hsplit.frame hkeys (fun _ _ => rfl) honly)
  | auditRelease pre x rest hsplit =>
    simp only [sweepWith, sweep, Move.release, ite_self]
    refine .stopped pre x rest rfl (Or.inl rfl) (hsplit.frame hkeys ?_ fun _ _ => ⟨rfl, rfl⟩)
    split
    · exact writes_update _ _ _ _
    · exact fun _ _ => rfl
  | remove pre x rest clock hsplit hx hdue =>
    cases hfate : reply.fate with
    | ok =>
      simp only [sweepWith, Move.remove, hfate, Fate.applies, if_true, sweepOnWith, List.append_assoc]
      have hsilent := silent_abandonedEvents x (statusOf tools x)
      refine Split.next reply.now (hsplit.frame hkeys (writes_remove _ _) (hsilent.only _)) ?_
      rw [hsilent.account, treatment, if_pos hdue, account_remove hx]
    | lost =>
      simp only [sweepWith, Move.remove, hfate, Fate.applies, reduceCtorEq, if_false]
      exact .stopped pre x rest rfl (Or.inr (by rintro ⟨⟩)) hsplit
    | applied =>
      simp only [sweepWith, Move.remove, hfate, Fate.applies, reduceCtorEq, if_true, if_false]
      exact .stopped pre x rest rfl (Or.inr (by rintro ⟨⟩))
        (hsplit.frame hkeys (writes_remove _ _) fun _ _ => ⟨rfl, rfl⟩)
  | escalate pre x rest hsplit hx hdue =>
    cases hfate : reply.fate with
    | ok =>
      simp only [sweepWith, hfate, sweepOnWith, List.append_assoc]
      refine Split.next reply.now (hsplit.frame hkeys (writes_update _ _ _ _) (only_escalated _ _)) ?_
      rw [treatment, if_neg (not_due_of_warning hdue), if_pos hdue]
      exact account_escalated now x.toolName hx
    | lost =>
      simp only [sweepWith, hfate]
      exact .stopped pre x rest rfl (Or.inr (by rintro ⟨⟩)) hsplit
    | applied =>
      simp only [sweepWith, hfate]
      exact .stopped pre x rest rfl (Or.inr (by rintro ⟨⟩))
        (hsplit.frame hkeys (writes_update _ _ _ _) fun _ _ => ⟨rfl, rfl⟩)

end

/-! ## a sweep on its own -/

def Pc.row : Pc → Option PendingApprovalRow
  | .sweep _ pc => pc.row
  | _ => none

/-- a statement about `x` is answered -/
def Answered (x : PendingApprovalRow) (s : System) : Label → Prop
  | .go id reply => (s.pc id).row = some x → reply.fate = .ok
  | _ => True

instance (x : PendingApprovalRow) (s : System) (l : Label) : Decidable (Answered x s l) :=
  match l with
  | .go id reply => inferInstanceAs (Decidable ((s.pc id).row = some x → reply.fate = .ok))
  | .begin _ _ | .die _ => inferInstanceAs (Decidable True)

/-- how a sweep ends: with all rows done, at an unanswered select, or at a row where it failed -/
inductive SweepEnds (tools : JsString → Option ToolDefinition) (rows : List PendingApprovalRow) (now : Int) (p : PendingApprovals)
    (told : List Event) (fails : PendingApprovalRow → Prop) : Outcome Result → Prop
  | swept (h : Accounts (treatment tools now) p told rows) :
      SweepEnds tools rows now p told fails (.returned .swept)
  | unread (h : Accounts untouched p told rows) : SweepEnds tools rows now p told fails .failed
  | stopped (pre : List PendingApprovalRow) (x : PendingApprovalRow)
      (rest : List PendingApprovalRow) (hx : fails x) (h : Split tools rows now p told pre x rest) :
      SweepEnds tools rows now p told fails .failed

section
variable {tools : JsString → Option ToolDefinition} {s t : System} {id : CallId} {now : Int} {rows : List PendingApprovalRow}
  {told : List Event} {pc : SweepPc} {reply : Reply} {replies : List Reply}
  {outcome : Outcome Result}

theorem SweepEnds.imp {p : PendingApprovals} {fails fails' : PendingApprovalRow → Prop}
    (h : SweepEnds tools rows now p told fails outcome) (hf : ∀ x, fails x → fails' x) :
    SweepEnds tools rows now p told fails' outcome := by
  cases h with
  | swept h => exact .swept h
  | unread h => exact .unread h
  | stopped pre x rest hx h => exact .stopped pre x rest (hf x hx) h

theorem stepWith_sweep (tools : JsString → Option ToolDefinition) (reply : Reply)
    (hpc : s.pc id = .sweep now pc) : stepWith tools s (.go id reply)
    = some (s.apply id (.sweep now) (sweepWith tools s.pending id now reply pc)) := by
  rw [stepWith.eq_def]
  simp only [hpc]

/-- a call that has ended takes no more statements -/
theorem run_done (hpc : s.pc id = .done outcome)
    (h : run (stepWith tools) s (replies.map (.go id)) = some t) : replies = [] := by
  cases replies with
  | nil => rfl
  | cons reply replies =>
    rw [List.map_cons, run_cons, stepWith.eq_def] at h
    simp only [hpc, step] at h
    cases h

theorem accounts_untouched (p : PendingApprovals) : Accounts untouched p [] p.table.rows := by
  intro x hx
  have hget : p.getPending x.requestId = some x := Table.get_eq_some_iff.mpr ⟨hx, rfl⟩
  rw [account, hget]
  rfl

/-- how many statements a sweep has ahead of it, at most -/
def SweepPc.left (rows : Nat) : SweepPc → Nat
  | .select => 3 * rows + 1
  | .claim _ rest _ _ => 3 * rest.length + 3
  | .audit _ rest _ => 3 * rest.length + 2
  | .remove _ rest _ | .escalate _ rest => 3 * rest.length + 1
  | .auditRelease _ => 1

end

end Hitl
