import JinCore.Terminal.OwnerAudited
import JinCore.Terminal.Schemas

/-!
# What the Executor does is what the owner was asked for

A request is checked, kept until the owner decides, read back and checked again.  Many requests and many decisions are
under way at the same time.

* `AsAsked`                    a pod is opened, and a build published, with the very input of one request;
* `Checked`, `checked_step`    every approval is asked for a request that the controller has taken;
* `approved_as_asked`.
-/

namespace OwnerTerminal
open JsString Common Hitl Audit Runs Preview

/-- the executor that sends a request runs for an approval, and that was asked for exactly this -/
def AsAsked (history : List Event) : Observed → List Observed → Prop
  | .sent c (.start workspaceId input requestId), before =>
    ∃ (k : CallId) (q q' : RequestId) (existing : Bool) (asked : StartTerminalInput) (row : PendingApprovalRow),
      .requested k q' workspaceId existing (.start asked) ∈ before ∧ q.uuid = q'.uuid ∧ q.text = requestId ∧
      .execStarted c q.uuid row ∈ history ∧ StartsAs asked input ∧ ∀ file ∈ input.files, Inside file.1
  | .sent c (.expose workspaceId input), before =>
    ∃ k q existing row, .requested k q workspaceId existing (.expose input) ∈ before ∧
      .execStarted c q.uuid row ∈ history ∧ Inside input.dir
  | _, _ => True

section
variable {casing : CaseMapping} {zodError : JsString} {workspaceId : WorkspaceId}

/-! ## one request -/

theorem Accepted.taken {request : ApprovalRequest} (h : Accepted casing workspaceId request) :
    workspaceIdOrFail casing workspaceId = .ok workspaceId ∧ RequestOk request := by
  obtain ⟨⟨raw, hraw⟩, body, hsound, hbody⟩ := h
  refine ⟨workspaceIdOrFail_taken hraw, ?_⟩
  cases request with
  | start input => exact startOk_schema hsound hbody
  | expose input => exact exposeOk_schema hbody

theorem column_of_read {α : Type} {schema : Json.Value → Option α} {payload : JsString} {found : α}
    (h : readPayload zodError schema (some payload) = .ok found) : ∃ v, payloadColumn payload = some v := by
  unfold readPayload at h
  rw [Option.bind_some] at h
  cases hcolumn : payloadColumn payload with
  | none =>
    rw [hcolumn] at h
    cases h
  | some v => exact ⟨v, rfl⟩

theorem start_as_asked {asked found : StartTerminalInput} {other : WorkspaceId}
    (h : Accepted casing workspaceId (.start asked))
    (hread : readStart casing zodError (some ((ApprovalRequest.start asked).payload workspaceId)) = .ok (other, found)) :
    other = workspaceId ∧ StartsAs asked found ∧ ∀ file ∈ found.files, Inside file.1 := by
  obtain ⟨hid, hok⟩ := h.taken
  have hok : StartOk asked := hok
  obtain ⟨v, hv⟩ := column_of_read hread
  obtain ⟨input, hinput, hback⟩ := readStart_payload hid hok hv
  rw [hback, Except.ok.injEq, Prod.mk.injEq] at hread
  obtain ⟨rfl, rfl⟩ := hread
  refine ⟨rfl, hinput, fun file hfile => ?_⟩
  exact inside_safePath (hok.files.safe file (hinput.files.mem_iff.mp hfile)).1

theorem expose_as_asked {asked found : ExposeTerminalInput} {other : WorkspaceId}
    (h : Accepted casing workspaceId (.expose asked))
    (hread : readExpose casing zodError (some ((ApprovalRequest.expose asked).payload workspaceId)) = .ok (other, found)) :
    other = workspaceId ∧ found = asked ∧ Inside found.dir := by
  obtain ⟨hid, hok⟩ := h.taken
  have hok : ExposeOk asked := hok
  obtain ⟨v, hv⟩ := column_of_read hread
  rw [readExpose_payload hid hok hv, Except.ok.injEq, Prod.mk.injEq] at hread
  obtain ⟨rfl, rfl⟩ := hread
  exact ⟨rfl, rfl, inside_safePath hok.dir⟩

/-! ## every request -/

/-- the requests that calls are at, and those that approvals are asked for -/
structure Checked (casing : CaseMapping) (s : Workspaces) : Prop where
  listing : ∀ c workspaceId request, s.calls c = .listing workspaceId request → Accepted casing workspaceId request
  requested : ∀ c q workspaceId existing request, .requested c q workspaceId existing request ∈ s.observed →
    Accepted casing workspaceId request

variable {sha256 : JsString → JsString} {s t : Workspaces} {c : CallId}

theorem Checked.append (h : Checked casing s) {events : List Observed} (hcalls : t.calls = s.calls)
    (hobserved : t.observed = events ++ s.observed)
    (hevents : ∀ k q workspaceId existing request, .requested k q workspaceId existing request ∈ events →
      Accepted casing workspaceId request) : Checked casing t where
  listing k workspaceId request hk := h.listing k workspaceId request (hcalls ▸ hk)
  requested k q workspaceId existing request hmem := by
    rw [hobserved] at hmem
    exact (List.mem_append.mp hmem).elim (hevents k q workspaceId existing request)
      (h.requested k q workspaceId existing request)

theorem Checked.go (h : Checked casing s) {pc : OwnerPc} {events : List Observed}
    (hcalls : t.calls = Function.update s.calls c pc) (hobserved : t.observed = events ++ s.observed)
    (hpc : ∀ workspaceId request, pc = .listing workspaceId request → Accepted casing workspaceId request)
    (hevents : ∀ k q workspaceId existing request, .requested k q workspaceId existing request ∈ events →
      Accepted casing workspaceId request) : Checked casing t where
  listing k workspaceId request hk := by
    rw [hcalls] at hk
    by_cases hkc : k = c
    · rw [hkc, Function.update_self] at hk
      exact hpc workspaceId request hk
    · rw [Function.update_of_ne hkc] at hk
      exact h.listing k workspaceId request hk
  requested k q workspaceId existing request hmem := by
    rw [hobserved] at hmem
    exact (List.mem_append.mp hmem).elim (hevents k q workspaceId existing request)
      (h.requested k q workspaceId existing request)

theorem checked_audited (h : Checked casing s) {requestId : JsString} {fate : Fate}
    (hstep : s.onAudited sha256 c requestId fate = some t) : Checked casing t := by
  unfold Workspaces.onAudited at hstep
  split at hstep
  next workspaceId op _ =>
    let audited : Observed := .audited c (op.auditCall sha256 requestId workspaceId)
    cases fate with
    | ok =>
      cases hstep
      exact @Checked.go casing s _ c h _ [.sent c (.change workspaceId op), audited] rfl rfl (by simp) (by simp [audited])
    | applied =>
      cases hstep
      exact @Checked.go casing s _ c h _ [audited] rfl rfl (by simp) (by simp [audited])
    | lost =>
      cases hstep
      exact @Checked.go casing s _ c h _ [] rfl rfl (by simp) (by simp)
  next => cases hstep

theorem checked_listed (h : Checked casing s) {workspaces : List TerminalWorkspace} {q : RequestId}
    (hstep : s.onListed sha256 c workspaces q = some t) : Checked casing t := by
  unfold Workspaces.onListed at hstep
  split at hstep
  next workspaceId request hcall =>
    have haccepted := h.listing c workspaceId request hcall
    dsimp only at hstep
    split at hstep
    next error _ =>
      cases hstep
      exact @Checked.go casing s _ c h _ [.listed c workspaces] rfl rfl (by simp) (by simp)
    next =>
      split at hstep
      next =>
        obtain ⟨system, -, rfl⟩ := Option.map_eq_some_iff.mp hstep
        refine @Checked.go casing s _ c h _
          [.requested c q workspaceId (workspaceOf workspaceId workspaces).isSome request, .listed c workspaces]
          rfl rfl (by simp) fun k q' other existing request' hmem => ?_
        rcases List.mem_cons.mp hmem with heq | hmem
        · cases heq
          exact haccepted
        · exact Observed.noConfusion (List.mem_singleton.mp hmem)
      next => cases hstep
  next => cases hstep

theorem checked_call (h : Checked casing s) {readStart : Option JsString → Except JsString (WorkspaceId × StartTerminalInput)}
    {readExpose : Option JsString → Except JsString (WorkspaceId × ExposeTerminalInput)} {label : Label}
    (hstep : s.onCall readStart readExpose label = some t) : Checked casing t := by
  cases label with
  | begin c op =>
    unfold Workspaces.onCall at hstep
    dsimp only at hstep
    split at hstep
    next =>
      split at hstep
      next => cases hstep
      next =>
        obtain ⟨system, -, rfl⟩ := Option.map_eq_some_iff.mp hstep
        exact @Checked.append casing s _ h [] rfl rfl (by simp)
    next =>
      obtain ⟨system, -, rfl⟩ := Option.map_eq_some_iff.mp hstep
      exact @Checked.append casing s _ h [] rfl rfl (by simp)
    next => cases hstep
  | go c reply =>
    obtain ⟨system, -, rfl⟩ := Option.map_eq_some_iff.mp hstep
    obtain ⟨thrown, events, hexecuted, hevents⟩ := executed_cases readStart readExpose s c (s.heard c reply)
    rw [hexecuted]
    refine @Checked.append casing s _ h events rfl rfl fun k q workspaceId existing request hmem => ?_
    rcases hevents with rfl | ⟨_, _, _, _, _, _, _, rfl⟩
    · exact absurd hmem List.not_mem_nil
    · exact Observed.noConfusion (List.mem_singleton.mp hmem)
  | die c =>
    obtain ⟨system, -, rfl⟩ := Option.map_eq_some_iff.mp hstep
    exact @Checked.append casing s _ h [] rfl rfl (by simp)

theorem checked_step {readStart : Option JsString → Except JsString (WorkspaceId × StartTerminalInput)}
    {readExpose : Option JsString → Except JsString (WorkspaceId × ExposeTerminalInput)} {a : Action}
    (h : Checked casing s)
    (ha : ∀ c workspaceId request, a = .request c workspaceId request → Accepted casing workspaceId request)
    (hstep : s.step readStart readExpose sha256 a = some t) : Checked casing t := by
  cases a with
  | change c workspaceId op =>
    simp only [Workspaces.step] at hstep
    split at hstep <;> cases hstep
    exact @Checked.go casing s _ c h _ [] rfl rfl (by simp) (by simp)
  | audited c requestId fate => exact checked_audited h hstep
  | read c workspaceId request =>
    simp only [Workspaces.step] at hstep
    split at hstep <;> cases hstep
    exact @Checked.go casing s _ c h _ [.sent c (.read workspaceId request)] rfl rfl (by simp) (by simp)
  | list c =>
    simp only [Workspaces.step] at hstep
    split at hstep <;> cases hstep
    exact @Checked.go casing s _ c h _ [.sent c .list] rfl rfl (by simp) (by simp)
  | answered c outcome =>
    simp only [Workspaces.step] at hstep
    split at hstep <;> cases hstep
    exact @Checked.go casing s _ c h _ [] rfl rfl (by simp) (by simp)
  | request c workspaceId request =>
    have haccepted := ha c workspaceId request rfl
    simp only [Workspaces.step] at hstep
    split at hstep <;> cases hstep
    refine @Checked.go casing s _ c h _ [.sent c .list] rfl rfl (fun other request' heq => ?_) (by simp)
    cases heq
    exact haccepted
  | listed c workspaces q => exact checked_listed h hstep
  | unlisted c error =>
    simp only [Workspaces.step] at hstep
    split at hstep <;> cases hstep
    exact @Checked.go casing s _ c h _ [] rfl rfl (by simp) (by simp)
  | settle c =>
    simp only [Workspaces.step, Workspaces.onSettle] at hstep
    split at hstep <;> cases hstep <;> exact @Checked.go casing s _ c h _ [] rfl rfl (by simp) (by simp)
  | call label => exact checked_call h hstep

theorem checked_init : Checked casing .init where
  listing _ _ _ hc := OwnerPc.noConfusion hc
  requested _ _ _ _ _ hmem := absurd hmem List.not_mem_nil

/-- what an event that is right has to do with its request -/
theorem asAsked_of_eventOk (h : Checked casing s) {history : List Event} {e : Observed} {later before : List Observed}
    (hobserved : s.observed = later ++ e :: before)
    (hok : EventOk (readStart casing zodError) (readExpose casing zodError) sha256 history e before) :
    AsAsked history e before := by
  have haccepted {k : CallId} {q : RequestId} {workspaceId : WorkspaceId} {existing : Bool} {request : ApprovalRequest}
      (hmem : .requested k q workspaceId existing request ∈ before) : Accepted casing workspaceId request := by
    refine h.requested k q workspaceId existing request ?_
    rw [hobserved]
    exact List.mem_append_right _ (List.mem_cons_of_mem _ hmem)
  cases e with
  | sent c request =>
    cases request with
    | start workspaceId input requestId =>
      obtain ⟨q, asked, input', hq, ⟨row, hstarted, hrow, k, q', existing, hmem, hsame⟩, hread⟩ := hok
      obtain ⟨rfl, hinput, hinside⟩ := start_as_asked (haccepted hmem) hread
      exact ⟨k, q, q', existing, input', row, hmem, hrow.symm.trans hsame.requestId, hq, hstarted, hinput, hinside⟩
    | expose workspaceId input =>
      obtain ⟨q, asked, input', ⟨row, hstarted, hrow, k, q', existing, hmem, hsame⟩, hread⟩ := hok
      obtain ⟨rfl, rfl, hinside⟩ := expose_as_asked (haccepted hmem) hread
      have huuid : q.uuid = q'.uuid := hrow.symm.trans hsame.requestId
      exact ⟨k, q', existing, row, hmem, huuid ▸ hstarted, hinside⟩
    | _ => trivial
  | _ => trivial

end

/-- **The owner gets what he has approved.**  In every run of calls whose requests the controller has taken, the Executor
is asked to open a pod or to publish a build with the very project and input of one request, whose approval it runs for;
only its files may come in another order, and no path leads out of the project. -/
theorem approved_as_asked (casing : CaseMapping) (zodError : JsString) (sha256 : JsString → JsString)
    (actions : List Action) (t : Workspaces)
    (hrun : run (Workspaces.step (readStart casing zodError) (readExpose casing zodError) sha256) .init actions = some t)
    (hrequests : ∀ c workspaceId request, .request c workspaceId request ∈ actions →
      Accepted casing workspaceId request) :
    Each (AsAsked t.system.history) t.observed := by
  have hwatched : Watched (readStart casing zodError) (readExpose casing zodError) sha256 t :=
    run_inv (fun _ _ _ hs hstep => watched_step hs hstep) actions _ t watched_init hrun
  have hguarded : Guarded (Workspaces.step (readStart casing zodError) (readExpose casing zodError) sha256)
      (fun _ a => ∀ c workspaceId request, a = .request c workspaceId request → Accepted casing workspaceId request)
      .init actions := by
    refine guarded_of_forall actions _ fun a ha c workspaceId request heq => ?_
    exact hrequests c workspaceId request (heq ▸ ha)
  have hchecked : Checked casing t :=
    run_inv_guarded (fun _ _ _ hs ha hstep => checked_step hs ha hstep) actions _ t checked_init hguarded hrun
  refine each_iff.mpr fun later e before hobserved => ?_
  exact asAsked_of_eventOk hchecked hobserved (each_iff.mp hwatched.events later e before hobserved)

/-- the body of the request for `openingInput` -/
def openingBody : Json.Value :=
  .object [(lit "files", .object [(lit "a.ts", .string (lit "1"))]), (lit "ttlSeconds", portValue 3600)]

theorem accepted_opening : Accepted asciiCasing project (.start openingInput) := by
  refine ⟨⟨project, rfl⟩, openingBody, ⟨inOrder_of_keys ?_, ⟨inOrder_of_keys ?_, trivial, trivial⟩, ?_, trivial⟩, ?_⟩
  · show List.Pairwise Json.KeyBefore [lit "files", lit "ttlSeconds"]
    decide
  · show List.Pairwise Json.KeyBefore [lit "a.ts"]
    decide
  · exact_mod_cast @isDouble_int 3600 (by decide)
  · decide +kernel

theorem approved_as_asked_opening : ∃ t,
    run (Workspaces.step (readStart asciiCasing (lit "")) (readExpose asciiCasing (lit "")) id) .init opening = some t ∧
    openedAndStopped t = true ∧ Each (AsAsked t.system.history) t.observed := by
  have h : (run (Workspaces.step (readStart asciiCasing (lit "")) (readExpose asciiCasing (lit "")) id) .init
      opening).map openedAndStopped = some true := by decide +kernel
  obtain ⟨t, ht, hopened⟩ := Option.map_eq_some_iff.mp h
  refine ⟨t, ht, hopened, approved_as_asked asciiCasing (lit "") id opening t ht fun c workspaceId request hmem => ?_⟩
  simp only [opening, List.mem_cons, List.not_mem_nil, or_false, reduceCtorEq, false_or, Action.request.injEq] at hmem
  obtain ⟨rfl, rfl, rfl⟩ := hmem
  exact accepted_opening

end OwnerTerminal
