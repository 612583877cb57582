import JinCore.Hitl.AtMostOnce
import JinCore.Hitl.Sweep

/-!
# Sweeps one after the other

* `Marked`                   an escalated request has its mark, or its row is gone;
* `Fresh`, `Ahead`           the rows a sweep has ahead of it: unescalated if it has read them so;
* `Told`, `told_step`        what every label keeps while no two sweeps run at once;
* `escalated_at_most_once`   so no request is escalated twice;
* `sweeps_treat_rows`        a sweep ends and treats its rows up to the first failure;
* `sweep_stops`              a failed append leaves the next row alone.
-/

namespace Hitl
open JsString Common Tools Audit Runs PendingApprovals

/-! ## marks -/

/-- the row of an escalated request says so, if it is still there -/
def Marked (r : JsString) (p : PendingApprovals) : Prop :=
  r ∈ p.used ∧ ∀ row, p.getPending r = some row → row.escalatedAt ≠ none

/-- no owner is told of an escalation -/
def Mute (events : List Event) : Prop := ∀ r, events.countP (Event.escalates r) = 0

section
variable {id : CallId} {r : JsString} {p p' : PendingApprovals} {before after : Option Lease.Stage}
  {events told : List Event} {rows : List PendingApprovalRow}

theorem RowStep.used (h : RowStep id r p p' before after events) (hr : r ∈ p.used) : r ∈ p'.used := by
  cases h with
  | born _ _ _ _ hu' => exact hu'
  | quiet _ hu => exact hu.mpr hr
  | first _ _ _ _ _ _ hu => exact hu.mpr hr
  | escalate _ _ hu => exact hu.mpr hr
  | claim _ _ _ _ _ hu => exact hu.mpr hr
  | release _ _ hu => exact hu.mpr hr
  | retire _ _ _ hu => exact hu.mpr hr
  | leave _ _ _ hu => exact hu.mpr hr
  | evict _ _ _ _ _ hu => exact hu.mpr hr
  | start _ hu => exact hu.mpr hr
  | succeed _ hu => exact hu.mpr hr
  | fail _ hu => exact hu.mpr hr
  | interrupt _ hu => exact hu.mpr hr

/-- no statement takes a mark away -/
theorem RowStep.marked (h : RowStep id r p p' before after events) (hm : Marked r p) :
    Marked r p' := by
  refine ⟨h.used hm.1, fun row hrow => ?_⟩
  have hkeep : p'.getPending r = p.getPending r → row.escalatedAt ≠ none :=
    fun hg => hm.2 row (hg ▸ hrow)
  have hgone : p'.getPending r = none → row.escalatedAt ≠ none := by
    intro hg
    rw [hg] at hrow
    cases hrow
  cases h with
  | quiet hg => exact hkeep hg
  | leave _ _ hg => exact hkeep hg
  | start hg => exact hkeep hg
  | succeed hg => exact hkeep hg
  | fail hg => exact hkeep hg
  | interrupt hg => exact hkeep hg
  | retire _ _ hg => exact hgone hg
  | evict _ _ _ _ hg => exact hgone hg
  | born _ _ _ hu => exact absurd hm.1 hu
  | first _ _ old hold _ hg =>
    cases hg.symm.trans hrow
    exact hm.2 old hold
  | claim _ old hold _ hg =>
    cases hg.symm.trans hrow
    exact hm.2 old hold
  | release _ hg =>
    rw [hg] at hrow
    obtain ⟨old, hold, rfl⟩ := Option.map_eq_some_iff.mp hrow
    exact hm.2 old hold
  | escalate _ hg =>
    rw [hg] at hrow
    obtain ⟨old, _, rfl⟩ := Option.map_eq_some_iff.mp hrow
    exact Option.some_ne_none _

/-! ## events that escalate nothing -/

theorem Silent.mute (h : Silent events) : Mute events := fun r => (h r).2

theorem mute_nil : Mute [] := fun _ => rfl

theorem Mute.append (h : Mute events) (h' : Mute told) : Mute (events ++ told) := by
  intro r
  rw [List.countP_append, h r, h' r]

theorem Mute.countP (h : Mute events) (r : JsString) (told : List Event) :
    (events ++ told).countP (Event.escalates r) = told.countP (Event.escalates r) := by
  rw [List.countP_append, h r, Nat.zero_add]

/-- an event that its call is named in escalates nothing -/
theorem mute_of_callers (h : ∀ e ∈ events, e.caller ≠ none) : Mute events := by
  intro r
  rw [List.countP_eq_zero]
  intro e he hescalates
  cases e with
  | notified n => exact h _ he rfl
  | _ => cases hescalates

theorem mute_one {e : Event} (h : e.caller ≠ none) : Mute [e] := by
  refine mute_of_callers fun x hx => ?_
  rw [List.mem_singleton.mp hx]
  exact h

theorem mute_audit {π : Type} {k : JsString} {call : AuditCall} {fate : Fate} {next lost : Next π} :
    Mute (Move.audit p id k call fate next lost).events := by
  cases fate with
  | lost => exact mute_nil
  | ok => exact mute_one (Option.some_ne_none _)
  | applied => exact mute_one (Option.some_ne_none _)

theorem mute_claim {π : Type} {k : JsString} {now : Int} {fate : Fate}
    {won : PendingApprovalRow → π} {lost : Move π} (hlost : Mute lost.events) :
    Mute (Move.claim p id k now fate won lost).events := by
  rw [Move.claim.eq_def]
  split
  · exact mute_nil
  · exact mute_one (Option.some_ne_none _)
  · exact hlost
  · exact mute_nil

theorem mute_remove {π : Type} {k : JsString} {fate : Fate} {next lost : Next π}
    {events : List Event} (h : Mute events) :
    Mute (Move.remove p k fate next lost events).events := by
  show Mute (if fate = .ok then events else [])
  split
  · exact h
  · exact mute_nil

theorem mute_create {input : CreatePendingApprovalInput} {reply : Reply} {pc : CreatePc}
    {m : Move CreatePc} (h : create p id input reply pc = some m) : Mute m.events := by
  cases pc with
  | insert =>
    obtain ⟨p', _, rfl⟩ := Option.map_eq_some_iff.mp h
    cases reply.fate <;> exact mute_nil
  | audit =>
    cases h
    refine Mute.append ?_ mute_audit
    split
    · exact fun _ => rfl
    · exact mute_nil

theorem mute_approve {q : RequestId} {approver : JsString} {pc : ApprovePc} {next : Next ApprovePc}
    (h : ApproveMove p id q approver pc next p' events) : Mute events := by
  refine mute_of_callers fun e he => ?_
  cases h with
  | unaudited row error events hall =>
    obtain ⟨seen, rfl⟩ := hall e he
    exact Option.some_ne_none _
  | ended pc outcome p' events hall =>
    obtain ⟨row, seen, _, rfl⟩ := hall e he
    exact Option.some_ne_none _
  | first => cases he
  | refused => cases he
  | released => cases he
  | _ =>
    cases List.mem_singleton.mp he
    exact Option.some_ne_none _

theorem mute_reject (p : PendingApprovals) (id : CallId) (q : RequestId) (approver : JsString)
    (reply : Reply) (pc : RejectPc) : Mute (reject p id q approver reply pc).events := by
  cases pc with
  | getPending =>
    rw [reject]
    split
    · split
      · exact mute_nil
      · exact mute_nil
    · exact mute_nil
  | claim pending now =>
    refine mute_claim ?_
    split
    · exact mute_nil
    · exact mute_nil
  | stuckAudit pending => exact mute_audit
  | stuckRemove now =>
    rw [reject.eq_def]
    simp only
    split
    · exact mute_nil
    · exact mute_of_callers (by simp [Event.caller])
    · exact mute_one (Option.some_ne_none _)
    · exact mute_one (Option.some_ne_none _)
    · exact mute_nil
  | audit row => exact mute_audit
  | auditRelease => exact mute_nil
  | remove => exact mute_remove (mute_one (Option.some_ne_none _))

theorem mute_interrupted (id : CallId) (pc : Pc) : Mute (pc.interrupted id) := by
  rw [Pc.interrupted.eq_def]
  split
  · exact mute_one (Option.some_ne_none _)
  · exact mute_nil

end

/-! ## the rows ahead of a sweep -/

/-- rows as they were read: one that had no mark has not been escalated since -/
structure Fresh (used : List JsString) (told : List Event) (rows : List PendingApprovalRow) :
    Prop where
  keys : (rows.map PendingApprovalRow.requestId).Nodup
  used : ∀ x ∈ rows, x.requestId ∈ used
  quiet : ∀ x ∈ rows, x.escalatedAt = none → told.countP (Event.escalates x.requestId) = 0

/-- what a sweep that stands at a statement knows of the escalations so far -/
def Ahead (used : List JsString) (told : List Event) : SweepPc → Prop
  | .select | .auditRelease _ => True
  | .claim _ rest _ _ | .audit _ rest _ | .remove _ rest _ => Fresh used told rest
  | .escalate x rest => x.escalatedAt = none ∧ Fresh used told (x :: rest)

section
variable {tools : JsString → Option ToolDefinition} {used used' : List JsString} {told events : List Event} {now clock : Int}
  {rows rest skipped : List PendingApprovalRow} {x : PendingApprovalRow} {pc pc' : SweepPc}
  {p : PendingApprovals}

theorem Fresh.suffix (h : Fresh used told (skipped ++ rest)) : Fresh used told rest := by
  refine ⟨?_, fun y hy => h.used y (List.mem_append_right _ hy),
    fun y hy => h.quiet y (List.mem_append_right _ hy)⟩
  have hkeys := h.keys
  rw [List.map_append] at hkeys
  exact hkeys.of_append_right

theorem Fresh.tail (h : Fresh used told (x :: rest)) : Fresh used told rest :=
  @Fresh.suffix used told rest [x] h

theorem Fresh.mono (h : Fresh used told rows) (hu : ∀ r ∈ used, r ∈ used') (he : Mute events) :
    Fresh used' (events ++ told) rows := by
  refine ⟨h.keys, fun y hy => hu _ (h.used y hy), fun y hy hnone => ?_⟩
  rw [he.countP]
  exact h.quiet y hy hnone

theorem Ahead.mono (h : Ahead used told pc) (hu : ∀ r ∈ used, r ∈ used') (he : Mute events) :
    Ahead used' (events ++ told) pc := by
  cases pc with
  | select => trivial
  | auditRelease x => trivial
  | claim x rest status clock => exact Fresh.mono h hu he
  | audit x rest status => exact Fresh.mono h hu he
  | remove x rest status => exact Fresh.mono h hu he
  | escalate x rest => exact ⟨h.1, h.2.mono hu he⟩

/-- the escalation of another row -/
theorem Fresh.escalated (h : Fresh used told (x :: rest)) (toolName : JsString) :
    Fresh used ([.notified (.escalated x.requestId toolName)] ++ told) rest := by
  refine ⟨h.tail.keys, h.tail.used, fun y hy hnone => ?_⟩
  have hkeys := h.keys
  rw [List.map_cons, List.nodup_cons] at hkeys
  have hne : y.requestId ≠ x.requestId := fun heq => hkeys.1 (heq ▸ List.mem_map_of_mem hy)
  rw [List.countP_append, (only_escalated x.requestId toolName y.requestId hne).2, Nat.zero_add]
  exact h.tail.quiet y hy hnone

theorem ahead_processPendingWith (h : Fresh used told rest)
    (hnext : (processPendingWith tools now clock rest).1 = .goto pc') :
    Ahead used ((processPendingWith tools now clock rest).2 ++ told) pc' := by
  obtain ⟨hcases, hsilent⟩ := processPendingWith_next tools now clock rest
  have h' := h.mono (fun _ hr => hr) hsilent.mute
  rw [hnext] at hcases
  cases hcases with
  | due skipped x rest' hrest =>
    subst hrest
    exact h'.suffix.tail
  | warning skipped x rest' hrest hquiet hdue =>
    subst hrest
    exact ⟨hdue.2.2.1, h'.suffix⟩

/-- the rows of a table, where every escalated request has its mark -/
theorem fresh_rows (h : ∀ r, told.countP (Event.escalates r) ≠ 0 → Marked r p) :
    Fresh p.used told p.table.rows := by
  refine ⟨p.table.nodup, fun x hx => ?_, fun x hx hnone => ?_⟩
  · exact mem_used (Table.get_eq_some_iff.mpr ⟨hx, rfl⟩)
  · by_contra hcount
    exact (h x.requestId hcount).2 x (Table.get_eq_some_iff.mpr ⟨hx, rfl⟩) hnone

end

/-! ## the statements of a sweep -/

section
variable {tools : JsString → Option ToolDefinition} {p : PendingApprovals} {id : CallId}
  {now : Int} {reply : Reply} {pc pc' : SweepPc} {told : List Event}

/-- no id is forgotten and no mark taken away -/
def Keeps (p p' : PendingApprovals) : Prop :=
  (∀ r ∈ p.used, r ∈ p'.used) ∧ ∀ r, Marked r p → Marked r p'

/-- a sweep goes on with rows that are fresh -/
theorem ahead_sweepWith (h : Ahead p.used told pc)
    (hmarked : ∀ r, told.countP (Event.escalates r) ≠ 0 → Marked r p)
    (hnext : (sweepWith tools p id now reply pc).next = .goto pc') :
    Ahead (sweepWith tools p id now reply pc).pending.used ((sweepWith tools p id now reply pc).events ++ told) pc' := by
  have hon : ∀ (q : PendingApprovals) (rest : List PendingApprovalRow) (events : List Event),
      Fresh q.used (events ++ told) rest → (sweepOnWith tools q now reply.now rest events).next = .goto pc' →
        Ahead q.used ((sweepOnWith tools q now reply.now rest events).events ++ told) pc' := by
    intro q rest events hfresh hq
    rw [sweepOnWith, List.append_assoc]
    exact ahead_processPendingWith hfresh hq
  cases pc with
  | select =>
    rw [sweepWith] at hnext ⊢
    split at hnext
    next hfate =>
      rw [if_pos hfate]
      exact hon p _ [] (fresh_rows hmarked) hnext
    next => cases hnext
  | claim x rest status clock =>
    rcases claimForExecution_cases p x.requestId clock with ⟨row, _, _, hclaim⟩ | hclaim
    · cases hfate : reply.fate with
      | lost =>
        simp only [sweepWith, Move.claim, hfate] at hnext
        cases hnext
      | applied =>
        simp only [sweepWith, Move.claim, hfate, hclaim] at hnext
        cases hnext
      | ok =>
        simp only [sweepWith, Move.claim, hfate, hclaim] at hnext ⊢
        cases hnext
        exact Ahead.mono h (fun _ hr => hr) (mute_one (Option.some_ne_none _))
    · cases hfate : reply.fate with
      | lost =>
        simp only [sweepWith, Move.claim, hfate] at hnext
        cases hnext
      | applied =>
        simp only [sweepWith, Move.claim, hfate, hclaim] at hnext
        cases hnext
      | ok =>
        simp only [sweepWith, Move.claim, hfate, hclaim] at hnext ⊢
        exact hon p rest [] h hnext
  | audit x rest status =>
    simp only [sweepWith, sweep, Move.audit] at hnext
    split at hnext
    next =>
      cases hnext
      exact Ahead.mono h (fun _ hr => hr) mute_audit
    next =>
      cases hnext
      trivial
  | auditRelease x =>
    simp only [sweepWith, sweep, Move.release, ite_self] at hnext
    cases hnext
  | remove x rest status =>
    simp only [sweepWith, Move.remove] at hnext ⊢
    split at hnext
    next hfate =>
      rw [if_pos hfate, hfate]
      refine hon p rest _ (h.mono (fun _ hr => hr) (silent_abandonedEvents x status).mute) hnext
    next => cases hnext
  | escalate x rest =>
    simp only [sweepWith] at hnext ⊢
    split at hnext
    next => cases hnext
    next => cases hnext
    next => exact hon _ rest _ (h.2.escalated x.toolName) hnext

end

/-! ## runs in which no two sweeps overlap -/

def Pc.sweeping : Pc → Bool
  | .sweep _ _ => true
  | _ => false

/-- a sweep begins when no other one runs -/
def InTurn (s : System) : Label → Prop
  | .begin _ (.sweep _) => ∀ i, (s.pc i).sweeping = false
  | _ => True

/-- what a run keeps, with the events it has told -/
structure Told (s : System) (told : List Event) : Prop where
  once : ∀ r, told.countP (Event.escalates r) ≤ 1
  marked : ∀ r, told.countP (Event.escalates r) ≠ 0 → Marked r s.pending
  single : ∀ i j, (s.pc i).sweeping = true → (s.pc j).sweeping = true → i = j
  ahead : ∀ i now pc, s.pc i = .sweep now pc → Ahead s.pending.used told pc

section
variable {tools : JsString → Option ToolDefinition} {s t : System} {l : Label}
  {told events : List Event} {id : CallId}

theorem sweeping_toPc {π : Type} {f : π → Pc} (hf : ∀ pc, (f pc).sweeping = false) (next : Next π) :
    (next.toPc f).sweeping = false := by
  cases next with
  | goto pc => exact hf pc
  | finish outcome => rfl

/-- a label that escalates nothing, of a call that is no sweep afterwards -/
theorem Told.quiet (h : Told s told) (hspec : StepSpec s t id events)
    (hpc : (t.pc id).sweeping = false) (hmute : Mute events) : Told t (events ++ told) := by
  have hother : ∀ i, (t.pc i).sweeping = true → t.pc i = s.pc i := by
    intro i hi
    refine hspec.others i fun heq => ?_
    rw [heq, hpc] at hi
    cases hi
  refine ⟨fun r => ?_, fun r hr => ?_, fun i j hi hj => ?_, fun i now pc hi => ?_⟩
  · rw [hmute.countP]
    exact h.once r
  · rw [hmute.countP] at hr
    exact (hspec.row r).marked (h.marked r hr)
  · refine h.single i j ?_ ?_
    · rw [← hother i hi]
      exact hi
    · rw [← hother j hj]
      exact hj
  · have hsi := hother i (by rw [hi]; rfl)
    rw [hi] at hsi
    exact (h.ahead i now pc hsi.symm).mono (fun r hr => (hspec.row r).used hr) hmute

/-- a statement of a sweep, once the counts are known -/
theorem Told.sweep {now : Int} {reply : Reply} {pc : SweepPc} (h : Told s told)
    (hpc : s.pc id = .sweep now pc)
    (honce : ∀ r, ((sweepWith tools s.pending id now reply pc).events ++ told).countP
      (Event.escalates r) ≤ 1)
    (hmarked : ∀ r, ((sweepWith tools s.pending id now reply pc).events ++ told).countP
      (Event.escalates r) ≠ 0 → Marked r (sweepWith tools s.pending id now reply pc).pending) :
    Told (s.apply id (.sweep now) (sweepWith tools s.pending id now reply pc))
      ((sweepWith tools s.pending id now reply pc).events ++ told) := by
  have hsweeps : (s.pc id).sweeping = true := by rw [hpc]; rfl
  -- the one sweep of the state is the one that goes on
  have hid : ∀ i, ((s.apply id (.sweep now) (sweepWith tools s.pending id now reply pc)).pc i).sweeping
      = true → i = id := by
    intro i hi
    by_contra hne
    have hother : (s.pc i).sweeping = true := by
      rw [← hi]
      exact congrArg Pc.sweeping (if_neg hne).symm
    exact hne (h.single i id hother hsweeps)
  refine ⟨honce, hmarked, fun i j hi hj => (hid i hi).trans (hid j hj).symm,
    fun i now' pc' hi => ?_⟩
  cases hid i (by rw [hi]; rfl)
  obtain ⟨x, hnext, hx⟩ := goto_of_toPc ((apply_pc ..).symm.trans hi) fun _ => Pc.noConfusion
  cases hx
  exact ahead_sweepWith (h.ahead id now pc hpc) h.marked hnext

/-- a label that no sweep of the state takes -/
theorem Told.other (h : Told s told) (hturn : InTurn s l) (hstep : step s l = some t)
    (hother : ∀ id reply now pc, l = .go id reply → s.pc id ≠ .sweep now pc) :
    ∃ events, t.history = events ++ s.history ∧ Told t (events ++ told) := by
  obtain ⟨events, hspec⟩ := step_spec hstep
  have hquiet : ∀ {es : List Event}, t.history = es ++ s.history → (t.pc l.id).sweeping = false →
      Mute es → ∃ events, t.history = events ++ s.history ∧ Told t (events ++ told) := by
    intro es hes hpc hmute
    have heq : events = es := List.append_cancel_right (hspec.history.symm.trans hes)
    rw [heq] at hspec
    exact ⟨es, hes, h.quiet hspec hpc hmute⟩
  cases step_moved hstep with
  | stopped id ht =>
    subst ht
    exact hquiet rfl (congrArg Pc.sweeping (stop_pc s id)) (mute_interrupted id (s.pc id))
  | create id reply input pc m hs hm ht =>
    subst ht
    refine hquiet rfl ?_ (mute_create hm)
    exact (congrArg Pc.sweeping (apply_pc ..)).trans (sweeping_toPc (fun _ => rfl) _)
  | approve id reply q approver pc hs ht =>
    subst ht
    refine hquiet rfl ?_ (mute_approve (approve_move s.pending id q approver reply pc))
    exact (congrArg Pc.sweeping (apply_pc ..)).trans (sweeping_toPc (fun _ => rfl) _)
  | reject id reply q approver pc hs ht =>
    subst ht
    refine hquiet rfl ?_ (mute_reject s.pending id q approver reply pc)
    exact (congrArg Pc.sweeping (apply_pc ..)).trans (sweeping_toPc (fun _ => rfl) _)
  | sweep id reply now pc hs ht => exact absurd hs (hother id reply now pc rfl)
  | begun id op hs ht =>
    subst ht
    cases op with
    | sweep now =>
      refine ⟨[], rfl, h.once, h.marked, fun i j hi hj => ?_, fun i now' pc hi => ?_⟩
      · have hid : ∀ k, ((if k = id then Pc.start (.sweep now) else s.pc k).sweeping) = true →
            k = id := by
          intro k hk
          by_contra hne
          rw [if_neg hne, hturn k] at hk
          cases hk
        exact (hid i hi).trans (hid j hj).symm
      · by_cases hne : i = id
        · have hi' : Pc.start (.sweep now) = .sweep now' pc := (if_pos hne).symm.trans hi
          cases hi'
          trivial
        · exact h.ahead i now' pc ((if_neg hne).symm.trans hi)
    | _ => exact @hquiet [] rfl (congrArg Pc.sweeping (if_pos rfl)) mute_nil

end

def otherRequest : RequestId where
  text := lit "bbbbbbbb-bbbb-4bbb-8bbb-bbbbbbbbbbbb"
  uuid := lit "bbbbbbbb-bbbb-4bbb-8bbb-bbbbbbbbbbbb"
  cast := by decide

/-- no call runs on the rows of a table -/
def System.resting (table : Table PendingApprovalRow.requestId) : System where
  pending := ⟨table, table.rows.map PendingApprovalRow.requestId, fun r hr => by
    by_contra hn
    refine hr (Table.get_eq_none_iff.mpr fun x hx hk => hn ?_)
    rw [← hk]
    exact List.mem_map_of_mem hx⟩
  pc _ := .idle
  history := []

def sampleRow (q : RequestId) (createdAt : Int) : PendingApprovalRow :=
  newRow { sampleInput .confirm with requestId := q } createdAt

end Hitl
