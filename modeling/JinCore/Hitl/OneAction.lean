import JinCore.Hitl.Meets

/-!
# One request, one action

What the owner reads, approves and finds in the audit is what is executed.

* `Origin.Of`       a row of the one creation of its request;
* `OneAction`, `oneAction_step`   every row, copy and event is of the creation of its request;
* `one_action`      so they are in every run.
-/

namespace Hitl
open JsString Common Audit Runs PendingApprovals

/-- the creation of each request -/
abbrev Origin := JsString → Option CreatePendingApprovalInput

/-- the row is the one that its creation has inserted, in every column that a statement does not change -/
def Origin.Of (origin : Origin) (row : PendingApprovalRow) : Prop :=
  ∃ input, origin row.requestId = some input ∧ SameRequest (newRow input 0) row

def Origin.add (origin : Origin) (input : CreatePendingApprovalInput) : Origin := fun r =>
  if r = input.requestId.uuid then some input else origin r

/-- `created` are the creations of the run -/
structure OneAction (created : CreatePendingApprovalInput → Prop) (origin : Origin) (s : System) : Prop where
  creation : ∀ r input, origin r = some input → input.requestId.uuid = r ∧ created input
  used : ∀ r, origin r ≠ none → r ∈ s.pending.used
  meets : Meets origin.Of s
  history : ∀ e ∈ s.history, e.Meets origin.Of

section
variable {created : CreatePendingApprovalInput → Prop} {origin : Origin} {s t : System} {l : Label}
  {input : CreatePendingApprovalInput}

theorem Origin.of_same (row row' : PendingApprovalRow) (hsame : SameRequest row row') (h : origin.Of row) :
    origin.Of row' := by
  obtain ⟨input, horigin, hrow⟩ := h
  exact ⟨input, by rw [hsame.requestId]; exact horigin, hrow.trans hsame⟩

theorem Origin.of_add (hfresh : origin input.requestId.uuid = none) (row : PendingApprovalRow)
    (h : origin.Of row) : (origin.add input).Of row := by
  obtain ⟨found, horigin, hrow⟩ := h
  refine ⟨found, ?_, hrow⟩
  unfold Origin.add
  rw [if_neg, horigin]
  intro heq
  rw [heq, hfresh] at horigin
  cases horigin

theorem Origin.of_newRow (origin : Origin) (input : CreatePendingApprovalInput) :
    (origin.add input).Of (newRow input 0) :=
  ⟨input, if_pos rfl, rfl, rfl, rfl, rfl, rfl, rfl, rfl, rfl⟩

/-- what one label preserves: an insert gives its request an origin, and nothing takes it away -/
theorem oneAction_step (h : OneAction created origin s) (hstep : step s l = some t)
    (hcreated : ∀ x input pc, s.pc x = .create input pc → created input) :
    ∃ origin', OneAction created origin' t := by
  obtain ⟨hused, -⟩ | ⟨x, reply, input, rfl, hpc, hinsert⟩ := ExecutorClient.rows_step hstep (lit "")
  · have hnone : ∀ x reply input, l = .go x reply → s.pc x = .create input .insert →
        s.pending.insert input reply.now = some t.pending → origin.Of (newRow input 0) := by
      intro x reply input _ _ hinsert
      have hlength := congrArg List.length ((insert_cases hinsert).2.1.symm.trans hused)
      rw [List.length_cons] at hlength
      omega
    obtain ⟨hmeets, events, hhistory, hevents⟩ := meets_step Origin.of_same h.meets hstep hnone
    refine ⟨origin, h.creation, fun r hr => by rw [hused]; exact h.used r hr, hmeets, fun e he => ?_⟩
    rw [hhistory] at he
    exact (List.mem_append.mp he).elim (hevents e) (h.history e)
  · obtain ⟨hfresh, hused, -⟩ := insert_cases hinsert
    have hnone : origin input.requestId.uuid = none := by
      by_contra hne
      exact hfresh (h.used _ hne)
    have hgrow := Origin.of_add hnone
    obtain ⟨hmeets, events, hhistory, hevents⟩ :=
      meets_step Origin.of_same (h.meets.mono hgrow) hstep fun x' reply' input' hl hpc' _ => by
        cases hl
        rw [hpc] at hpc'
        cases hpc'
        exact Origin.of_newRow origin input
    refine ⟨origin.add input, fun r found hfound => ?_, fun r hr => ?_, hmeets, fun e he => ?_⟩
    · unfold Origin.add at hfound
      split at hfound
      next hr =>
        cases hfound
        exact ⟨hr.symm, hcreated x input _ hpc⟩
      next => exact h.creation r found hfound
    · rw [hused]
      unfold Origin.add at hr
      split at hr
      next heq => exact heq ▸ List.mem_cons_self
      next => exact List.mem_cons_of_mem _ (h.used r hr)
    · rw [hhistory] at he
      exact (List.mem_append.mp he).elim (hevents e) fun hmem => (h.history e hmem).mono hgrow

end

/-- **One request, one action.**  In every run there is one creation for each request such that every row of it, every
row that is claimed and every row that an executor is started with has the tool, the level, the hash, the summary and
the payload of that creation, and every row of the audit and every notification names its tool. -/
theorem one_action (ls : List Label) (s : System) (hrun : run step System.init ls = some s) :
    ∃ origin : Origin,
      (∀ r input, origin r = some input →
        input.requestId.uuid = r ∧ ∃ x, .begin x (.createPendingApproval input) ∈ ls) ∧
      (∀ r row, s.pending.getPending r = some row → origin.Of row) ∧ ∀ e ∈ s.history, e.Meets origin.Of := by
  let created : CreatePendingApprovalInput → Prop := fun input => ∃ x, .begin x (.createPendingApproval input) ∈ ls
  let P : System → Prop := fun s => (∀ x input pc, s.pc x = .create input pc → created input) ∧
    ∃ origin, OneAction created origin s
  have hstep : ∀ s l t, P s → l ∈ ls → step s l = some t → P t := by
    rintro s l t ⟨hcreated, origin, h⟩ hl hstep
    refine ⟨fun x input pc hx => ?_, oneAction_step h hstep hcreated⟩
    obtain ⟨pc', hpc', -⟩ | rfl := ExecutorClient.insert_of_step hstep hx
    · exact hcreated x input pc' hpc'
    · exact ⟨x, hl⟩
  have hinit : P System.init := by
    refine ⟨fun x input pc hx => Pc.noConfusion hx, fun _ => none, ?_, fun r hr => absurd rfl hr, ?_, ?_⟩
    · intro r input hnone
      cases hnone
    · refine ⟨fun r row hrow => ?_, fun x row hrow => absurd hrow List.not_mem_nil⟩
      cases hrow
    · exact fun e he => absurd he List.not_mem_nil
  have hguarded : Guarded step (fun _ l => l ∈ ls) System.init ls := guarded_of_forall ls _ fun l hl => hl
  obtain ⟨-, origin, h⟩ := run_inv_guarded hstep ls _ s hinit hguarded hrun
  exact ⟨origin, h.creation, h.meets.table, h.history⟩

/-- the row that the executor is started with, in the run of two approvals -/
theorem one_action_approved : ∃ s, run step System.init approvedRun = some s ∧
    .execStarted 1 sampleRequest.uuid (claimedRow .confirm 11) ∈ s.history ∧
    ∃ origin : Origin, origin.Of (claimedRow .confirm 11) := by
  have h : (run step System.init approvedRun).map (fun s =>
      decide (.execStarted 1 sampleRequest.uuid (claimedRow .confirm 11) ∈ s.history)) = some true := by
    decide
  obtain ⟨s, hs, hmem⟩ := Option.map_eq_some_iff.mp h
  obtain ⟨origin, -, -, hevents⟩ := one_action approvedRun s hs
  exact ⟨s, hs, of_decide_eq_true hmem, origin, (hevents _ (of_decide_eq_true hmem)).1⟩

end Hitl
