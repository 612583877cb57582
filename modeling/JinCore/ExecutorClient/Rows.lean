import JinCore.Hitl.Retry

/-!
# Where a row comes from and where it goes

A row is inserted by its creation, and deleted by a rejection, by a timeout or after its execution.

* `deletes`, `releases`   the statements of a rejection, a timeout and a failed execution;
* `Pc.past`           the executor of the call has been called or was not there; `past_step`;
* `Stays`             no row comes, and none goes but one; `stays_approve`, `stays_reject`, `stays_sweep`;
* `rows_step`, `insert_of_step`   what a label does to the rows, and to the creations.
-/

namespace ExecutorClient
open JsString Common Hitl Runs Lease PendingApprovals

/-- the request whose row the statement deletes, in a rejection or a timeout -/
def deletes (s : System) (id : CallId) (reply : Reply) : Option JsString :=
  match s.pc id with
  | .reject q _ .remove => if reply.fate.applies then some q.uuid else none
  | .reject q _ (.stuckRemove now) =>
    if reply.fate.applies ∧ (s.pending.removeIfNotExecuting q.uuid now).1 then some q.uuid else none
  | .sweep _ (.remove row _ _) => if reply.fate.applies then some row.requestId else none
  | _ => none

/-- the request that the statement gives back after a failed execution -/
def releases (s : System) (id : CallId) (reply : Reply) : Option JsString :=
  match s.pc id with
  | .approve q _ (.failureRelease _ _) =>
    if reply.fate.applies ∧ (s.pending.getPending q.uuid).isSome then some q.uuid else none
  | _ => none

/-! ## calls and their stages -/

/-- the executor of the call has been called or was not there -/
def Pc.past : Pc → Bool
  | .approve _ _ (.executing _) | .approve _ _ (.failureRelease _ _) | .approve _ _ (.remove _ _) => true
  | _ => false

section
variable {s t : System} {l : Label} {id x : CallId} {r : JsString} {row : PendingApprovalRow}
  {events : List Event}

theorem used_of_stage (hs : Leased s) (h : (s.pc x).stage r ≠ none) : r ∈ s.pending.used := by
  obtain ⟨st, hst⟩ := Option.ne_none_iff_exists'.mp h
  obtain ⟨a, ha, href⟩ := hs r
  have hcell := ha.cell_of_owner ((href.owner x st).mp hst)
  rw [href.cell] at hcell
  by_contra hused
  have hnone : s.pending.getPending r = none := by
    by_contra hne
    exact hused (s.pending.covers r hne)
  rw [cellOf, hnone] at hcell
  dsimp only at hcell
  rw [if_neg hused] at hcell
  rcases hcell with h | h <;> cases h

theorem used_of_executed (hs : Leased s) {i : CallId} (h : .execSucceeded i r ∈ s.history) :
    r ∈ s.pending.used := by
  obtain ⟨a, ha, href⟩ := hs r
  have hsettled : Settled a.history := by
    rw [href.history]
    refine ⟨⟨i, .succeeded⟩, List.mem_filterMap.mpr ⟨_, h, ?_⟩, Or.inl rfl⟩
    exact if_pos rfl
  have hcell := (ha.settled hsettled).1
  rw [href.cell] at hcell
  by_contra hused
  have hnone : s.pending.getPending r = none := by
    by_contra hne
    exact hused (s.pending.covers r hne)
  rw [cellOf, hnone] at hcell
  dsimp only at hcell
  rw [if_neg hused] at hcell
  rcases hcell with h | h <;> cases h

theorem past_iff {pc : Pc} : Pc.past pc = true ↔ ∃ q approver apc, pc = .approve q approver apc ∧
    ((∃ row, apc = .executing row) ∨ (∃ row error, apc = .failureRelease row error) ∨
      ∃ row result, apc = .remove row result) := by
  constructor
  · intro h
    unfold Pc.past at h
    split at h
    next q approver row => exact ⟨q, approver, _, rfl, Or.inl ⟨row, rfl⟩⟩
    next q approver row error => exact ⟨q, approver, _, rfl, Or.inr (Or.inl ⟨row, error, rfl⟩)⟩
    next q approver row result => exact ⟨q, approver, _, rfl, Or.inr (Or.inr ⟨row, result, rfl⟩)⟩
    next => cases h
  · rintro ⟨q, approver, apc, rfl, ⟨row, rfl⟩ | ⟨row, error, rfl⟩ | ⟨row, result, rfl⟩⟩ <;> rfl

/-- a call whose executor has been called stays so while it has a stage -/
theorem past_step (h : step s l = some t) (hpast : Pc.past (s.pc l.id) = true)
    (hstage : (t.pc l.id).stage r ≠ none) : Pc.past (t.pc l.id) = true := by
  obtain ⟨q, approver, apc, hpc, hwhere⟩ := past_iff.mp hpast
  cases step_moved h with
  | begun id op hs => exact absurd (hs.symm.trans hpc) Pc.noConfusion
  | create id reply input pc m hs => exact absurd (hs.symm.trans hpc) Pc.noConfusion
  | reject id reply q' approver' pc hs => exact absurd (hs.symm.trans hpc) Pc.noConfusion
  | sweep id reply now pc hs => exact absurd (hs.symm.trans hpc) Pc.noConfusion
  | stopped id ht =>
    subst ht
    rw [show (Label.die id).id = id from rfl, stop_pc] at hstage
    exact absurd rfl hstage
  | approve id reply q' approver' pc hs ht =>
    cases hs.symm.trans hpc
    subst ht
    rw [show (Label.go id reply).id = id from rfl, apply_pc] at hstage ⊢
    have hmove := approve_move s.pending id q approver reply apc
    generalize (approve s.pending id q approver reply apc).next = next at hmove hstage ⊢
    generalize (approve s.pending id q approver reply apc).pending = p' at hmove
    generalize (approve s.pending id q approver reply apc).events = events at hmove
    rcases hwhere with ⟨row, rfl⟩ | ⟨row, error, rfl⟩ | ⟨row, result, rfl⟩
    · cases hmove with
      | succeeded => rfl
      | failed => rfl
      | ended => exact absurd rfl hstage
    · cases hmove with
      | released => exact absurd (by show (if _ then none else none) = none; split <;> rfl) hstage
      | ended => exact absurd rfl hstage
    · cases hmove with
      | ended => exact absurd rfl hstage

end

/-! ## what deletes a row, and what inserts one -/

/-- no row comes, and none goes but that of `k` -/
structure Stays (k : Option JsString) (p p' : PendingApprovals) : Prop where
  used : p'.used = p.used
  rows : ∀ r, k ≠ some r → p.getPending r ≠ none → p'.getPending r ≠ none

section
variable {π : Type} {p p' : PendingApprovals} {id : CallId} {r : JsString} {k : Option JsString}

theorem stays_refl (k : Option JsString) (p : PendingApprovals) : Stays k p p := ⟨rfl, fun _ _ h => h⟩

theorem stays_update (k : Option JsString) (p : PendingApprovals) (r : JsString)
    (f : PendingApprovalRow → PendingApprovalRow) (hf : ∀ row, (f row).requestId = row.requestId) :
    Stays k p (p.update r f hf) := by
  refine ⟨rfl, fun j _ hj => ?_⟩
  rw [getPending_update]
  split
  next he =>
    rw [← he, ne_eq, Option.map_eq_none_iff]
    exact hj
  next => exact hj

theorem stays_removePending (hk : k = some r) : Stays k p (p.removePending r) := by
  refine ⟨rfl, fun j hj hrow => ?_⟩
  rw [getPending_removePending, if_neg]
  · exact hrow
  · rintro rfl
    exact hj hk

theorem stays_claim {now : Int} {fate : Fate} {won : PendingApprovalRow → π} {lost : Move π}
    (hlost : Stays k p lost.pending) : Stays k p (Move.claim p id r now fate won lost).pending := by
  rcases claimForExecution_cases p r now with ⟨row, -, -, hc⟩ | hc
  · simp only [Move.claim, hc]
    cases fate with
    | lost => exact stays_refl k p
    | ok => exact stays_update k p r _ _
    | applied => exact stays_update k p r _ _
  · simp only [Move.claim, hc]
    cases fate with
    | lost => exact stays_refl k p
    | ok => exact hlost
    | applied => exact stays_refl k p

theorem stays_release {error : Option JsString} {fate : Fate} {next : Next π} :
    Stays k p (Move.release p r error fate next).pending := by
  show Stays k p (if fate.applies then p.releaseClaim r error else p)
  split
  · exact stays_update k p r _ _
  · exact stays_refl k p

theorem stays_remove {fate : Fate} {next lost : Next π} {events : List Event}
    (hk : fate.applies = true → k = some r) :
    Stays k p (Move.remove p r fate next lost events).pending := by
  show Stays k p (if fate.applies then p.removePending r else p)
  split
  next happ => exact stays_removePending (hk happ)
  next => exact stays_refl k p

theorem stays_sweepOn {now clock : Int} {rest : List PendingApprovalRow} {told : List Event} :
    Stays k p (sweepOn p now clock rest told).pending := stays_refl k p

/-- an approval deletes a row only when it has been executed -/
theorem stays_approve (q : RequestId) (approver : JsString) (reply : Reply) (pc : ApprovePc)
    (hpc : ∀ row result, pc = .remove row result → k = some q.uuid) :
    Stays k p (approve p id q approver reply pc).pending := by
  cases pc with
  | getPending =>
    simp only [approve]
    split
    · split <;> exact stays_refl k p
    · exact stays_refl k p
  | approvalRead now =>
    simp only [approve]
    split
    · split
      · exact stays_refl k p
      · split <;> exact stays_refl k p
    · exact stays_refl k p
  | approvalUpdate now =>
    rcases markFirst_cases p q.uuid now approver with ⟨row, -, -, hm⟩ | ⟨-, hm⟩
    · simp only [approve, hm]
      cases reply.fate with
      | lost => exact stays_refl k p
      | ok => exact stays_update k p q.uuid _ _
      | applied => exact stays_update k p q.uuid _ _
    · simp only [approve, hm]
      cases reply.fate <;> exact stays_refl k p
  | claim now => exact stays_claim (stays_refl k p)
  | audit row => exact stays_refl k p
  | auditRelease error => exact stays_release
  | execute row =>
    simp only [approve]
    split <;> exact stays_refl k p
  | executing row =>
    simp only [approve]
    split <;> exact stays_refl k p
  | failureRelease row error => exact stays_release
  | failureAudit row => exact stays_refl k p
  | remove row result => exact stays_remove fun _ => hpc row result rfl

end

section
variable {s t : System} {id : CallId} {reply : Reply} {k : JsString} {row : PendingApprovalRow}

/-- a rejection deletes the row that it says -/
theorem stays_reject (reply : Reply) {q : RequestId} {approver : JsString} {pc : RejectPc}
    (hpc : s.pc id = .reject q approver pc) :
    Stays (deletes s id reply) s.pending (reject s.pending id q approver reply pc).pending := by
  rw [deletes, hpc]
  cases pc with
  | getPending =>
    simp only [reject]
    split
    · split <;> exact stays_refl _ _
    · exact stays_refl _ _
  | claim pending now =>
    have hlost : (if isStuck pending.executingAt reply.now then
        (⟨s.pending, .goto (.stuckAudit pending), []⟩ : Move RejectPc)
        else .throw s.pending (approvalAlreadyResolvedError q.text)).pending = s.pending := by
      split <;> rfl
    refine stays_claim ?_
    rw [hlost]
    exact stays_refl _ _
  | stuckAudit pending => exact stays_refl _ _
  | stuckRemove now =>
    dsimp only
    rcases removeIfNotExecuting_cases s.pending q.uuid now with ⟨row, -, -, hr⟩ | hr
    · simp only [reject, hr]
      cases reply.fate with
      | lost => exact stays_refl _ _
      | ok => exact stays_removePending (if_pos ⟨rfl, trivial⟩)
      | applied => exact stays_removePending (if_pos ⟨rfl, trivial⟩)
    · simp only [reject, hr]
      cases reply.fate <;> exact stays_refl _ _
  | audit row => exact stays_refl _ _
  | auditRelease => exact stays_release
  | remove => exact stays_remove fun happ => if_pos happ

theorem stays_sweep (reply : Reply) {now : Int} {pc : SweepPc} (hpc : s.pc id = .sweep now pc) :
    Stays (deletes s id reply) s.pending (sweep s.pending id now reply pc).pending := by
  rw [deletes, hpc]
  cases pc with
  | select =>
    simp only [sweep]
    split <;> exact stays_refl _ _
  | claim row rest status claimNow => exact stays_claim stays_sweepOn
  | audit row rest status => exact stays_refl _ _
  | auditRelease row => exact stays_release
  | remove row rest status => exact stays_remove fun happ => if_pos happ
  | escalate row rest =>
    simp only [sweep]
    cases reply.fate with
    | lost => exact stays_refl _ _
    | applied => exact stays_update _ s.pending row.requestId _ _
    | ok => exact stays_update _ s.pending row.requestId _ _

/-- an insert, or none -/
theorem create_pending {input : CreatePendingApprovalInput} {pc : CreatePc} {m : Move CreatePc}
    (hm : create s.pending id input reply pc = some m) : m.pending = s.pending ∨
      pc = .insert ∧ s.pending.insert input reply.now = some m.pending := by
  cases pc with
  | insert =>
    obtain ⟨p', hp', rfl⟩ := Option.map_eq_some_iff.mp hm
    cases reply.fate with
    | lost => exact Or.inl rfl
    | applied => exact Or.inr ⟨rfl, hp'⟩
    | ok => exact Or.inr ⟨rfl, hp'⟩
  | audit =>
    cases hm
    exact Or.inl rfl

/-- a row goes in a rejection, a timeout, or after its execution; it comes by an insert -/
theorem rows_step {l : Label} (h : step s l = some t) (k : JsString) :
    (t.pending.used = s.pending.used ∧
      (s.pending.getPending k ≠ none → t.pending.getPending k = none → ∃ id reply, l = .go id reply ∧
        (deletes s id reply = some k ∨ ∃ q approver row result,
          s.pc id = .approve q approver (.remove row result) ∧ q.uuid = k))) ∨
    ∃ id reply input, l = .go id reply ∧ s.pc id = .create input .insert ∧
      s.pending.insert input reply.now = some t.pending := by
  have hsame : t.pending = s.pending → t.pending.used = s.pending.used ∧
      (s.pending.getPending k ≠ none → t.pending.getPending k = none → ∃ id reply, l = .go id reply ∧
        (deletes s id reply = some k ∨ ∃ q approver row result,
          s.pc id = .approve q approver (.remove row result) ∧ q.uuid = k)) := by
    intro hpending
    rw [hpending]
    exact ⟨rfl, fun hne hnone => absurd hnone hne⟩
  cases step_moved h with
  | begun id op hs ht => exact Or.inl (hsame (by rw [ht]))
  | stopped id ht => exact Or.inl (hsame (by rw [ht]; rfl))
  | create id reply input pc m hs hm ht =>
    rcases create_pending hm with hpending | ⟨rfl, hinsert⟩
    · exact Or.inl (hsame (by rw [ht]; exact hpending))
    · exact Or.inr ⟨id, reply, input, rfl, hs, by rw [ht]; exact hinsert⟩
  | approve id reply q approver pc hs ht =>
    have hstays : Stays (some q.uuid) s.pending (approve s.pending id q approver reply pc).pending :=
      stays_approve q approver reply pc fun _ _ _ => rfl
    refine Or.inl ⟨by rw [ht]; exact hstays.used, fun hne hnone => ?_⟩
    rw [ht] at hnone
    by_cases hq : q.uuid = k
    · by_contra hnot
      have hstill : Stays none s.pending (approve s.pending id q approver reply pc).pending :=
        stays_approve q approver reply pc fun row result hpc =>
          (hnot ⟨id, reply, rfl, Or.inr ⟨q, approver, row, result, hpc ▸ hs, hq⟩⟩).elim
      exact hstill.rows k (fun h => nomatch h) hne hnone
    · exact absurd hnone (hstays.rows k (fun h => hq (Option.some.inj h)) hne)
  | reject id reply q approver pc hs ht =>
    have hstays := stays_reject reply hs
    refine Or.inl ⟨by rw [ht]; exact hstays.used, fun hne hnone => ?_⟩
    refine ⟨id, reply, rfl, Or.inl ?_⟩
    by_contra hdel
    exact hstays.rows k hdel hne (by rw [ht] at hnone; exact hnone)
  | sweep id reply now pc hs ht =>
    have hstays := stays_sweep reply hs
    refine Or.inl ⟨by rw [ht]; exact hstays.used, fun hne hnone => ?_⟩
    refine ⟨id, reply, rfl, Or.inl ?_⟩
    by_contra hdel
    exact hstays.rows k hdel hne (by rw [ht] at hnone; exact hnone)

/-- the creations that have not been inserted were there before -/
theorem insert_of_step {l : Label} (hstep : step s l = some t) {x : CallId}
    {input : CreatePendingApprovalInput} {pc : CreatePc} (hx : t.pc x = .create input pc) :
    (∃ pc', s.pc x = .create input pc' ∧ (pc = .insert → pc' = .insert ∧ x ≠ l.id)) ∨
      l = .begin x (.createPendingApproval input) := by
  by_cases hl : l.id = x
  · subst hl
    cases step_moved hstep with
    | begun id op hs ht =>
      rw [ht] at hx
      have hop : Pc.start op = .create input pc := (if_pos rfl).symm.trans hx
      cases op with
      | createPendingApproval input' =>
        cases hop
        exact Or.inr rfl
      | resolveAndExecute => cases hop
      | resolveRejection => cases hop
      | sweep => cases hop
    | stopped id ht =>
      rw [ht, show (Label.die id).id = id from rfl, stop_pc] at hx
      cases hx
    | create id reply input' pc' m hs hm ht =>
      rw [ht] at hx
      obtain ⟨pc'', hnext, hpc⟩ := goto_of_toPc ((apply_pc ..).symm.trans hx) fun _ => Pc.noConfusion
      cases hpc
      refine Or.inl ⟨pc', hs, fun hins => absurd hnext ?_⟩
      -- a creation that goes on has been inserted
      rw [hins]
      cases pc' with
      | insert =>
        obtain ⟨p', -, rfl⟩ := Option.map_eq_some_iff.mp hm
        cases reply.fate <;> exact fun h => nomatch h
      | audit =>
        cases hm
        show (if _ then Next.finish _ else Next.finish _) ≠ _
        split <;> exact fun h => nomatch h
    | approve id reply q approver pc' hs ht =>
      rw [ht] at hx
      obtain ⟨_, _, hpc⟩ := goto_of_toPc ((apply_pc ..).symm.trans hx) fun _ => Pc.noConfusion
      cases hpc
    | reject id reply q approver pc' hs ht =>
      rw [ht] at hx
      obtain ⟨_, _, hpc⟩ := goto_of_toPc ((apply_pc ..).symm.trans hx) fun _ => Pc.noConfusion
      cases hpc
    | sweep id reply now pc' hs ht =>
      rw [ht] at hx
      obtain ⟨_, _, hpc⟩ := goto_of_toPc ((apply_pc ..).symm.trans hx) fun _ => Pc.noConfusion
      cases hpc
  · obtain ⟨events, hspec⟩ := step_spec hstep
    rw [hspec.others x (Ne.symm hl)] at hx
    exact Or.inl ⟨pc, hx, fun hins => ⟨hins, Ne.symm hl⟩⟩

/-- an approval that calls an executor or is told of its end -/
theorem step_approve {q : RequestId} {approver : JsString} {pc : ApprovePc}
    (hstep : step s (.go id reply) = some t)
    (hpc : s.pc id = .approve q approver pc) :
    t.pc id = (approve s.pending id q approver reply pc).next.toPc (.approve q approver) := by
  cases step_moved hstep with
  | create id reply input pc m hs => exact absurd (hs.symm.trans hpc) Pc.noConfusion
  | reject id reply q' approver' pc hs => exact absurd (hs.symm.trans hpc) Pc.noConfusion
  | sweep id reply now pc hs => exact absurd (hs.symm.trans hpc) Pc.noConfusion
  | approve id reply q' approver' pc hs ht =>
    cases hs.symm.trans hpc
    rw [ht, apply_pc]

end

end ExecutorClient
