import JinCore.Hitl.FailClosed
import JinCore.Terminal.OwnerTerminal

/-!
# Nothing is done to a project behind the back of its owner

* `EventOk`    a change comes after its row of the audit, and is the only one of its call; a pod is opened and a build
               is published by an executor that runs for an approval of exactly that;
* `Watched`, `watched_step`   the invariant;
* `owner_audited`.
-/

namespace OwnerTerminal
open JsString Common Hitl Audit Runs PendingApprovals Workspaces

section
variable (readStart : Option JsString → Except JsString (WorkspaceId × StartTerminalInput))
  (readExpose : Option JsString → Except JsString (WorkspaceId × ExposeTerminalInput)) (sha256 : JsString → JsString)

/-- the row is the one of an approval that was asked for -/
def AskedFor (observed : List Observed) (request : ApprovalRequest) (workspaceId : WorkspaceId)
    (row : PendingApprovalRow) : Prop :=
  ∃ c q existing, .requested c q workspaceId existing request ∈ observed ∧
    SameRequest (newRow (request.approvalInput sha256 q workspaceId existing) 0) row

/-- a row of a tool of the terminal -/
def RowOk (observed : List Observed) (row : PendingApprovalRow) : Prop :=
  isTerminalTool row.toolName = true → ∃ request workspaceId, AskedFor sha256 observed request workspaceId row

/-- an executor runs in the call `c` for the row of an approval that was asked for -/
def Approved (history : List Event) (before : List Observed) (c : CallId) (q : RequestId)
    (request : ApprovalRequest) (workspaceId : WorkspaceId) : Prop :=
  ∃ row, .execStarted c q.uuid row ∈ history ∧ row.requestId = q.uuid ∧
    AskedFor sha256 before request workspaceId row

def EventOk (history : List Event) : Observed → List Observed → Prop
  | .sent c (.change workspaceId op), before =>
    (∃ requestId, .audited c (op.auditCall sha256 requestId workspaceId) ∈ before) ∧
      ∀ workspaceId' op', .sent c (.change workspaceId' op') ∉ before
  | .sent c (.start workspaceId input requestId), before =>
    ∃ q workspaceId' input', q.text = requestId ∧
      Approved sha256 history before c q (.start input') workspaceId' ∧
      readStart (some ((ApprovalRequest.start input').payload workspaceId')) = .ok (workspaceId, input)
  | .sent c (.expose workspaceId input), before =>
    ∃ q workspaceId' input', Approved sha256 history before c q (.expose input') workspaceId' ∧
      readExpose (some ((ApprovalRequest.expose input').payload workspaceId')) = .ok (workspaceId, input)
  | .audited c _, before => ∀ call, .audited c call ∉ before
  | .requested c _ workspaceId existing request, before =>
    ∃ workspaces, .listed c workspaces ∈ before ∧ request.refusal (workspaceOf workspaceId workspaces) = none ∧
      existing = (workspaceOf workspaceId workspaces).isSome
  | _, _ => True

/-- a row of the audit, or a request that changes a project -/
def Observed.Touches (c : CallId) : Observed → Prop
  | .audited c' _ => c' = c
  | .sent c' (.change _ _) => c' = c
  | _ => False

def PhaseOk (observed : List Observed) (c : CallId) : OwnerPc → Prop
  | .idle | .auditing _ _ | .listing _ _ | .creating => ∀ e ∈ observed, ¬ e.Touches c
  | .refused => ∀ workspaceId op, .sent c (.change workspaceId op) ∉ observed
  | .sending | .done _ => True

structure Watched (s : Workspaces) : Prop where
  closed : FailClosed s.system
  rows : Meets (RowOk sha256 s.observed) s.system
  creating : ∀ x input pc, s.system.pc x = .create input pc → RowOk sha256 s.observed (newRow input 0)
  events : Each (EventOk readStart readExpose sha256 s.system.history) s.observed
  phases : ∀ c, PhaseOk s.observed c (s.calls c)

end

section
variable {readStart : Option JsString → Except JsString (WorkspaceId × StartTerminalInput)}
  {readExpose : Option JsString → Except JsString (WorkspaceId × ExposeTerminalInput)} {sha256 : JsString → JsString}
  {s t : Workspaces} {c : CallId} {observed : List Observed}

theorem rowOk_same (row row' : PendingApprovalRow) (hsame : SameRequest row row') (h : RowOk sha256 observed row) :
    RowOk sha256 observed row' := by
  intro htool
  rw [hsame.toolName] at htool
  obtain ⟨request, workspaceId, x, q, existing, hmem, hrow⟩ := h htool
  exact ⟨request, workspaceId, x, q, existing, hmem, hrow.trans hsame⟩

theorem AskedFor.append {request : ApprovalRequest} {workspaceId : WorkspaceId} {row : PendingApprovalRow}
    (events : List Observed) (h : AskedFor sha256 observed request workspaceId row) :
    AskedFor sha256 (events ++ observed) request workspaceId row := by
  obtain ⟨x, q, existing, hmem, hrow⟩ := h
  exact ⟨x, q, existing, List.mem_append_right _ hmem, hrow⟩

theorem RowOk.append {row : PendingApprovalRow} (events : List Observed) (h : RowOk sha256 observed row) :
    RowOk sha256 (events ++ observed) row := by
  intro htool
  obtain ⟨request, workspaceId, hasked⟩ := h htool
  exact ⟨request, workspaceId, hasked.append events⟩

/-- the history of the approvals grows -/
theorem EventOk.append {history : List Event} {e : Observed} {before : List Observed} (events : List Event)
    (h : EventOk readStart readExpose sha256 history e before) :
    EventOk readStart readExpose sha256 (events ++ history) e before := by
  have happroved {c : CallId} {q : RequestId} {request : ApprovalRequest} {workspaceId : WorkspaceId} :
      Approved sha256 history before c q request workspaceId →
        Approved sha256 (events ++ history) before c q request workspaceId := by
    rintro ⟨row, hstarted, hrow⟩
    exact ⟨row, List.mem_append_right _ hstarted, hrow⟩
  cases e with
  | sent c request =>
    cases request with
    | start workspaceId input requestId =>
      obtain ⟨q, workspaceId', input', hq, hrun, hread⟩ := h
      exact ⟨q, workspaceId', input', hq, happroved hrun, hread⟩
    | expose workspaceId input =>
      obtain ⟨q, workspaceId', input', hrun, hread⟩ := h
      exact ⟨q, workspaceId', input', happroved hrun, hread⟩
    | _ => exact h
  | _ => exact h

theorem PhaseOk.append {pc : OwnerPc} {events : List Observed} (h : PhaseOk observed c pc)
    (hevents : ∀ e ∈ events, ¬ e.Touches c) : PhaseOk (events ++ observed) c pc := by
  have hall (hold : ∀ e ∈ observed, ¬ e.Touches c) : ∀ e ∈ events ++ observed, ¬ e.Touches c := by
    intro e he
    exact (List.mem_append.mp he).elim (hevents e) (hold e)
  cases pc with
  | refused =>
    intro workspaceId op hmem
    exact (List.mem_append.mp hmem).elim (fun he => hevents _ he rfl) (h workspaceId op)
  | sending => trivial
  | done outcome => trivial
  | _ => exact hall h

/-! ## a call of the owner -/

/-- a call goes on, and what it has let out is about itself -/
theorem Watched.goOn (h : Watched readStart readExpose sha256 s) {pc : OwnerPc} (events : List Observed)
    (heach : Each (EventOk readStart readExpose sha256 s.system.history) (events ++ s.observed))
    (hothers : ∀ e ∈ events, ∀ k, k ≠ c → ¬ e.Touches k) (hphase : PhaseOk (events ++ s.observed) c pc) :
    Watched readStart readExpose sha256 { s.goOn c pc with observed := events ++ s.observed } where
  closed := h.closed
  rows := h.rows.mono fun _ hrow => hrow.append events
  creating x input pc hx := (h.creating x input pc hx).append events
  events := heach
  phases k := by
    show PhaseOk (events ++ s.observed) k (Function.update s.calls c pc k)
    by_cases hk : k = c
    · rw [hk, Function.update_self]
      exact hphase
    · rw [Function.update_of_ne hk]
      exact (h.phases k).append fun e he => hothers e he k hk

/-- a call goes on silently -/
theorem Watched.quiet (h : Watched readStart readExpose sha256 s) {pc : OwnerPc} (hphase : PhaseOk s.observed c pc) :
    Watched readStart readExpose sha256 (s.goOn c pc) :=
  h.goOn [] h.events (fun _ he => absurd he List.not_mem_nil) hphase

/-- a request that changes nothing -/
theorem Watched.reads (h : Watched readStart readExpose sha256 s) {pc : OwnerPc} {request : ExecutorRequest}
    (hphase : PhaseOk (.sent c request :: s.observed) c pc)
    (hrequest : request = .list ∨ ∃ workspaceId read, request = .read workspaceId read) :
    Watched readStart readExpose sha256 ((s.goOn c pc).observe (.sent c request)) := by
  refine h.goOn [.sent c request] ⟨?_, h.events⟩ (fun e he k _ htouches => ?_) hphase
  · rcases hrequest with rfl | ⟨workspaceId, read, rfl⟩ <;> trivial
  · rw [List.mem_singleton.mp he] at htouches
    rcases hrequest with rfl | ⟨workspaceId, read, rfl⟩ <;> exact htouches

theorem watched_audited (h : Watched readStart readExpose sha256 s) {requestId : JsString} {fate : Fate}
    (hstep : s.onAudited sha256 c requestId fate = some t) : Watched readStart readExpose sha256 t := by
  unfold onAudited at hstep
  split at hstep
  next workspaceId op hphase =>
    have hquiet : ∀ e ∈ s.observed, ¬ e.Touches c := by
      have hc := h.phases c
      rw [hphase] at hc
      exact hc
    have hunaudited : ∀ call, .audited c call ∉ s.observed := fun call hmem => hquiet _ hmem rfl
    have hunsent : ∀ workspaceId op, .sent c (.change workspaceId op) ∉ s.observed :=
      fun workspaceId op hmem => hquiet _ hmem rfl
    let audited : Observed := .audited c (op.auditCall sha256 requestId workspaceId)
    let sent : Observed := .sent c (.change workspaceId op)
    have hothers : ∀ e ∈ [sent, audited], ∀ k, k ≠ c → ¬ e.Touches k := by
      intro e he k hk
      rcases List.mem_cons.mp he with rfl | he
      · exact fun heq => hk heq.symm
      · rw [List.mem_singleton.mp he]
        exact fun heq => hk heq.symm
    cases fate with
    | ok =>
      cases hstep
      refine h.goOn [sent, audited] ⟨⟨⟨requestId, List.mem_cons_self⟩, ?_⟩, hunaudited, h.events⟩ hothers trivial
      intro workspaceId' op' hmem
      rcases List.mem_cons.mp hmem with heq | hmem
      · exact Observed.noConfusion heq
      · exact hunsent workspaceId' op' hmem
    | applied =>
      cases hstep
      refine h.goOn [audited] ⟨hunaudited, h.events⟩ (fun e he => hothers e (List.mem_cons_of_mem _ he)) ?_
      intro workspaceId' op' hmem
      rcases List.mem_cons.mp hmem with heq | hmem
      · exact Observed.noConfusion heq
      · exact hunsent workspaceId' op' hmem
    | lost =>
      cases hstep
      exact h.quiet hunsent
  next => cases hstep

/-! ## the calls on approvals -/

theorem Watched.withSystem (h : Watched readStart readExpose sha256 s) {l : Label} {system : System}
    (hstep : Hitl.step s.system l = some system)
    (hbegin : ∀ x input, l = .begin x (.createPendingApproval input) → RowOk sha256 s.observed (newRow input 0)) :
    Watched readStart readExpose sha256 { s with system := system } := by
  have hinsert : ∀ x reply input, l = .go x reply → s.system.pc x = .create input .insert →
      s.system.pending.insert input reply.now = some system.pending → RowOk sha256 s.observed (newRow input 0) :=
    fun x reply input _ hpc _ => h.creating x input _ hpc
  obtain ⟨hrows, events, hhistory, -⟩ := meets_step rowOk_same h.rows hstep hinsert
  refine ⟨failClosed_step _ _ _ h.closed hstep, hrows, fun x input pc hx => ?_, ?_, h.phases⟩
  · obtain ⟨pc', hpc', -⟩ | hl := ExecutorClient.insert_of_step hstep hx
    · exact h.creating x input pc' hpc'
    · exact hbegin x input hl
  · show Each (EventOk readStart readExpose sha256 system.history) s.observed
    rw [hhistory]
    exact h.events.imp fun e before he => he.append events

theorem watched_listed (h : Watched readStart readExpose sha256 s) {workspaces : List TerminalWorkspace}
    {q : RequestId} (hstep : s.onListed sha256 c workspaces q = some t) : Watched readStart readExpose sha256 t := by
  unfold onListed at hstep
  split at hstep
  next workspaceId request hphase =>
    dsimp only at hstep
    have hquiet : ∀ e ∈ s.observed, ¬ e.Touches c := by
      have hc := h.phases c
      rw [hphase] at hc
      exact hc
    split at hstep
    next error hrefused =>
      cases hstep
      exact h.goOn [.listed c workspaces] ⟨trivial, h.events⟩
        (fun e he k _ => by rw [List.mem_singleton.mp he]; exact id) trivial
    next hallowed =>
      split at hstep
      next =>
        obtain ⟨system, hsystem, rfl⟩ := Option.map_eq_some_iff.mp hstep
        let existing := workspaceOf workspaceId workspaces
        let events : List Observed := [.requested c q workspaceId existing.isSome request, .listed c workspaces]
        have hothers : ∀ e ∈ events, ∀ k, ¬ e.Touches k := by
          intro e he k
          rcases List.mem_cons.mp he with rfl | he
          · exact id
          · rw [List.mem_singleton.mp he]
            exact id
        have hasked : Watched readStart readExpose sha256
            { s.goOn c .creating with observed := events ++ s.observed } :=
          h.goOn events ⟨⟨workspaces, List.mem_cons_self, hallowed, rfl⟩, trivial, h.events⟩
            (fun e he k _ => hothers e he k) fun e he => (List.mem_append.mp he).elim (fun he => hothers e he c) (hquiet e)
        refine hasked.withSystem hsystem fun x input hl _ => ?_
        cases hl
        exact ⟨request, workspaceId, c, q, existing.isSome, List.mem_cons_self, rfl, rfl, rfl, rfl, rfl, rfl, rfl, rfl⟩
      next => cases hstep
  next => cases hstep

/-- what an executor of the terminal sends, for the row that its call holds -/
def SentFor (readStart : Option JsString → Except JsString (WorkspaceId × StartTerminalInput))
    (readExpose : Option JsString → Except JsString (WorkspaceId × ExposeTerminalInput)) (q : RequestId)
    (row : PendingApprovalRow) (request : ExecutorRequest) : Prop :=
  (row.toolName = startTerminalSessionTool ∧ ∃ workspaceId input,
    readStart row.payload = .ok (workspaceId, input) ∧ request = .start workspaceId input q.text) ∨
  (row.toolName = exposeTerminalSessionTool ∧ ∃ workspaceId input,
    readExpose row.payload = .ok (workspaceId, input) ∧ request = .expose workspaceId input)

/-- an executor sends one request, or none -/
theorem executed_cases
    (readStart : Option JsString → Except JsString (WorkspaceId × StartTerminalInput))
    (readExpose : Option JsString → Except JsString (WorkspaceId × ExposeTerminalInput))
    (s : Workspaces) (c : CallId) (reply : Reply) : ∃ thrown events,
    s.executed readStart readExpose c reply = { s with thrown := thrown, observed := events ++ s.observed } ∧
      (events = [] ∨ ∃ q approver row request, s.system.pc c = .approve q approver (.execute row) ∧
        reply.fate = .ok ∧ SentFor readStart readExpose q row request ∧ events = [.sent c request]) := by
  unfold executed
  split
  next q approver row hpc =>
    split
    next hfate =>
      split
      next htool =>
        unfold applyStart
        cases hread : readStart row.payload with
        | error message => exact ⟨_, [], rfl, Or.inl rfl⟩
        | ok found =>
          refine ⟨_, [.sent c (.start found.1 found.2 q.text)], rfl, Or.inr ⟨q, approver, row, _, hpc, hfate, ?_, rfl⟩⟩
          exact Or.inl ⟨htool, found.1, found.2, hread, rfl⟩
      next =>
        split
        next htool =>
          unfold applyExpose
          cases hread : readExpose row.payload with
          | error message => exact ⟨_, [], rfl, Or.inl rfl⟩
          | ok found =>
            refine ⟨_, [.sent c (.expose found.1 found.2)], rfl, Or.inr ⟨q, approver, row, _, hpc, hfate, ?_, rfl⟩⟩
            exact Or.inr ⟨htool, found.1, found.2, hread, rfl⟩
        next => exact ⟨_, [], rfl, Or.inl rfl⟩
    next => exact ⟨s.thrown, [], rfl, Or.inl rfl⟩
  next => exact ⟨s.thrown, [], rfl, Or.inl rfl⟩

/-- the run of an executor is told in the history -/
theorem execStarted_of_step {system system' : System} {q : RequestId} {approver : JsString}
    {row : PendingApprovalRow} {reply : Reply} (hpc : system.pc c = .approve q approver (.execute row))
    (hfate : reply.fate = .ok) (hstep : Hitl.step system (.go c reply) = some system') :
    .execStarted c q.uuid row ∈ system'.history := by
  simp only [Hitl.step, hpc] at hstep
  cases hstep
  have happrove : approve system.pending c q approver reply (.execute row) =
      ⟨system.pending, .goto (.executing row), [.execStarted c q.uuid row]⟩ := if_pos hfate
  rw [happrove]
  exact List.mem_cons_self

theorem tools_ne : startTerminalSessionTool ≠ exposeTerminalSessionTool := by decide

/-- an executor sends what was approved -/
theorem eventOk_sent (h : Watched readStart readExpose sha256 s) {q : RequestId} {approver : JsString}
    {row : PendingApprovalRow} {request : ExecutorRequest} {history : List Event}
    (hpc : s.system.pc c = .approve q approver (.execute row))
    (hsent : SentFor readStart readExpose q row request) (hstarted : .execStarted c q.uuid row ∈ history) :
    EventOk readStart readExpose sha256 history (.sent c request) s.observed := by
  obtain ⟨hrow, hid⟩ : RowOk sha256 s.observed row ∧ row.requestId = q.uuid := by
    have hcopies := h.rows.copies c row
    rw [hpc] at hcopies
    exact hcopies List.mem_cons_self
  rcases hsent with ⟨htool, workspaceId, input, hread, rfl⟩ | ⟨htool, workspaceId, input, hread, rfl⟩
  · obtain ⟨asked, workspaceId', hasked⟩ := hrow (by rw [htool]; rfl)
    obtain ⟨_, _, _, _, hsame⟩ := id hasked
    have hkind : asked.toolName = startTerminalSessionTool := hsame.toolName.symm.trans htool
    have hpayload : row.payload = some (asked.payload workspaceId') := hsame.payload
    cases asked with
    | start input' => exact ⟨q, workspaceId', input', rfl, ⟨row, hstarted, hid, hasked⟩, hpayload ▸ hread⟩
    | expose input' => exact absurd hkind.symm tools_ne
  · obtain ⟨asked, workspaceId', hasked⟩ := hrow (by rw [htool]; rfl)
    obtain ⟨_, _, _, _, hsame⟩ := id hasked
    have hkind : asked.toolName = exposeTerminalSessionTool := hsame.toolName.symm.trans htool
    have hpayload : row.payload = some (asked.payload workspaceId') := hsame.payload
    cases asked with
    | start input' => exact absurd hkind tools_ne
    | expose input' => exact ⟨q, workspaceId', input', ⟨row, hstarted, hid, hasked⟩, hpayload ▸ hread⟩

theorem watched_go (h : Watched readStart readExpose sha256 s) {reply : Reply}
    (hstep : s.onCall readStart readExpose (.go c reply) = some t) : Watched readStart readExpose sha256 t := by
  obtain ⟨system, hsystem, rfl⟩ := Option.map_eq_some_iff.mp hstep
  have hnext := h.withSystem hsystem fun _ _ hl => Label.noConfusion hl
  obtain ⟨thrown, events, hexecuted, hevents⟩ := executed_cases readStart readExpose s c (s.heard c reply)
  rw [hexecuted]
  have heach : Each (EventOk readStart readExpose sha256 system.history) (events ++ s.observed) ∧
      ∀ e ∈ events, ∀ k, ¬ e.Touches k := by
    rcases hevents with rfl | ⟨q, approver, row, request, hpc, hfate, hsent, rfl⟩
    · exact ⟨hnext.events, fun _ he => absurd he List.not_mem_nil⟩
    · refine ⟨⟨?_, hnext.events⟩, fun e he k => ?_⟩
      · exact eventOk_sent h hpc hsent (execStarted_of_step hpc hfate hsystem)
      · rw [List.mem_singleton.mp he]
        rcases hsent with ⟨-, workspaceId, input, -, rfl⟩ | ⟨-, workspaceId, input, -, rfl⟩ <;> exact id
  exact {
    closed := hnext.closed
    rows := hnext.rows.mono fun _ hrow => hrow.append events
    creating := fun x input pc hx => (hnext.creating x input pc hx).append events
    events := heach.1
    phases := fun k => (h.phases k).append fun e he => heach.2 e he k }

theorem watched_begin (h : Watched readStart readExpose sha256 s) {op : Op}
    (hstep : s.onCall readStart readExpose (.begin c op) = some t) : Watched readStart readExpose sha256 t := by
  unfold onCall at hstep
  dsimp only at hstep
  split at hstep
  next input =>
    split at hstep
    next => cases hstep
    next hforeign =>
      obtain ⟨system, hsystem, rfl⟩ := Option.map_eq_some_iff.mp hstep
      refine h.withSystem hsystem fun x input' hl htool => ?_
      cases hl
      exact absurd htool hforeign
  next hnot =>
    obtain ⟨system, hsystem, rfl⟩ := Option.map_eq_some_iff.mp hstep
    refine h.withSystem hsystem fun x input hl => ?_
    cases hl
    exact absurd rfl (hnot input)
  next => cases hstep

/-! ## the runs -/

theorem watched_step {a : Action} (h : Watched readStart readExpose sha256 s)
    (hstep : s.step readStart readExpose sha256 a = some t) : Watched readStart readExpose sha256 t := by
  have hidle (c : CallId) (hc : s.calls c = .idle) : ∀ e ∈ s.observed, ¬ e.Touches c := by
    have hphase := h.phases c
    rw [hc] at hphase
    exact hphase
  cases a with
  | change c workspaceId op =>
    unfold Workspaces.step at hstep
    dsimp only at hstep
    split at hstep
    next hc _ =>
      cases hstep
      exact h.quiet (hidle c hc)
    next => cases hstep
  | audited c requestId fate => exact watched_audited h hstep
  | read c workspaceId request =>
    unfold Workspaces.step at hstep
    dsimp only at hstep
    split at hstep
    next =>
      cases hstep
      exact h.reads trivial (Or.inr ⟨workspaceId, request, rfl⟩)
    next => cases hstep
  | list c =>
    unfold Workspaces.step at hstep
    dsimp only at hstep
    split at hstep
    next =>
      cases hstep
      exact h.reads trivial (Or.inl rfl)
    next => cases hstep
  | answered c outcome =>
    unfold Workspaces.step at hstep
    dsimp only at hstep
    split at hstep
    next =>
      cases hstep
      exact h.quiet trivial
    next => cases hstep
  | request c workspaceId request =>
    unfold Workspaces.step at hstep
    dsimp only at hstep
    split at hstep
    next hc _ =>
      cases hstep
      refine h.reads (fun e he => ?_) (Or.inl rfl)
      rcases List.mem_cons.mp he with rfl | he
      · exact id
      · exact hidle c hc e he
    next => cases hstep
  | listed c workspaces q => exact watched_listed h hstep
  | unlisted c error =>
    unfold Workspaces.step at hstep
    dsimp only at hstep
    split at hstep
    next =>
      cases hstep
      exact h.quiet trivial
    next => cases hstep
  | settle c =>
    unfold Workspaces.step onSettle at hstep
    dsimp only at hstep
    split at hstep
    next =>
      cases hstep
      exact h.quiet trivial
    next =>
      cases hstep
      exact h.quiet trivial
    next =>
      cases hstep
      exact h.quiet trivial
    next => cases hstep
  | call label =>
    cases label with
    | begin c op => exact watched_begin h hstep
    | go c reply => exact watched_go h hstep
    | die c =>
      obtain ⟨system, hsystem, rfl⟩ := Option.map_eq_some_iff.mp hstep
      exact h.withSystem hsystem fun _ _ hl => Label.noConfusion hl

theorem watched_init : Watched readStart readExpose sha256 init where
  closed := failClosed_init
  rows := by
    refine ⟨fun r row hrow => ?_, fun x row hrow => absurd hrow List.not_mem_nil⟩
    cases hrow
  creating x input pc hx := by cases hx
  events := trivial
  phases c e he := absurd he List.not_mem_nil

end

/-- **Nothing behind the back of the owner.**  In every run of calls of the terminal and of calls on approvals, whatever
fails: the Executor is asked to change a project only after the row of that change is in the audit, once for each row,
and never by a call whose append was not answered; it is asked to open a pod or to publish a build only by an executor
that runs for the row of an approval which was asked for exactly that, after the owner has approved it. -/
theorem owner_audited (readStart : Option JsString → Except JsString (WorkspaceId × StartTerminalInput))
    (readExpose : Option JsString → Except JsString (WorkspaceId × ExposeTerminalInput))
    (sha256 : JsString → JsString) (actions : List Action) (t : Workspaces)
    (hrun : run (Workspaces.step readStart readExpose sha256) .init actions = some t) :
    Each (EventOk readStart readExpose sha256 t.system.history) t.observed ∧
      (∀ c, t.calls c = .refused → ∀ workspaceId op, .sent c (.change workspaceId op) ∉ t.observed) ∧
      Each StartsAuthorised t.system.history := by
  have h : Watched readStart readExpose sha256 t :=
    run_inv (fun _ _ _ hs hstep => watched_step hs hstep) actions _ t watched_init hrun
  refine ⟨h.events, fun c hc => ?_, h.closed.starts⟩
  have hphase := h.phases c
  rw [hc] at hphase
  exact hphase

def project : WorkspaceId := lit "11111111-2222-4333-8444-555555555555"

def openingInput : StartTerminalInput := ⟨[(lit "a.ts", lit "1")], 3600, none⟩

/-- a pod is stopped, a command is refused, and a pod is opened after its approval -/
def opening : List Action :=
  let ok (c : CallId) : Action := .call (.go c ⟨10, .ok, lit ""⟩)
  [.change 0 project .stopPod, .change 1 project (.exec (lit "npm test") none),
    .audited 1 (lit "b") .applied, .audited 0 (lit "a") .ok, .answered 0 (.returned ()),
    .request 2 project (.start openingInput), .listed 2 [⟨project, .stopped, none⟩] sampleRequest, ok 2, ok 2, .settle 2,
    .call (.begin 3 (.resolveAndExecute sampleRequest (lit "owner"))), ok 3, ok 3, ok 3, ok 3, ok 3]

def openedAndStopped (t : Workspaces) : Bool :=
  decide (.sent 3 (.start project openingInput sampleRequest.text) ∈ t.observed ∧
    .sent 0 (.change project .stopPod) ∈ t.observed)

theorem owner_audited_opening : ∃ t, run (Workspaces.step (fun _ => .ok (project, openingInput)) (fun _ => .error (lit ""))
    id) .init opening = some t ∧ openedAndStopped t = true ∧
    Each (EventOk (fun _ => .ok (project, openingInput)) (fun _ => .error (lit "")) id t.system.history) t.observed := by
  have h : (run (Workspaces.step (fun _ => .ok (project, openingInput)) (fun _ => .error (lit "")) id) .init
      opening).map openedAndStopped = some true := by decide
  obtain ⟨t, ht, hopened⟩ := Option.map_eq_some_iff.mp h
  exact ⟨t, ht, hopened, (owner_audited _ _ id opening t ht).1⟩

end OwnerTerminal
