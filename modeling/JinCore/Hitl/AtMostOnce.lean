import JinCore.Hitl.Steps

/-!
# At most one execution of a pending approval

The row of a request, the calls on it and the runs of its executor refine one `Lease`: the cell is
the column `executing_at`, the owner is the call between its claim and its release or delete.

* `cellOf`, `Refines`      the cell of a request, and what a system has to do with a lease;
* `refines_step`           a statement of any call is one step of the lease, or none;
* `refines_run`            so every run is a run of the lease;
* `executor_at_most_once`  the executor succeeds at most once, its runs do not overlap, and none
                           starts after one that succeeded.
-/

namespace Hitl
open JsString Common Runs Lease PendingApprovals

/-- the cell of a request: its row, unclaimed or claimed, or the place where a row was -/
def cellOf (p : PendingApprovals) (r : JsString) : Cell :=
  match p.getPending r with
  | some row => if row.executingAt = none then .free else .taken
  | none => if r ∈ p.used then .gone else .unborn

structure Refines (r : JsString) (s : System) (a : Lease.State CallId) : Prop where
  cell : a.cell = cellOf s.pending r
  owner : ∀ i st, (s.pc i).stage r = some st ↔ a.owner = some (i, st)
  history : a.history = execs r s.history

section
variable {r : JsString} {p p' : PendingApprovals} {s t : System} {a : Lease.State CallId}
  {id : CallId} {events : List Event}

/-! ## cells -/

theorem cellOf_congr (hg : p'.getPending r = p.getPending r) (hu : r ∈ p'.used ↔ r ∈ p.used) :
    cellOf p' r = cellOf p r := by
  simp only [cellOf, hg, hu]

theorem cellOf_some {row : PendingApprovalRow} (hg : p.getPending r = some row) :
    cellOf p r = if row.executingAt = none then .free else .taken := by
  simp only [cellOf, hg]

/-- where a row is or was, its absence means that it is gone -/
theorem cellOf_gone (hg : p'.getPending r = none) (hu : r ∈ p'.used ↔ r ∈ p.used)
    (hc : cellOf p r ≠ .unborn) : cellOf p' r = .gone := by
  have hused : r ∈ p.used := by
    by_contra hn
    cases hp : p.getPending r with
    | some row => exact hn (mem_used hp)
    | none => exact hc (by simp only [cellOf, hp, if_neg hn])
  simp only [cellOf, hg, if_pos (hu.mpr hused)]

theorem cellOf_map {f : PendingApprovalRow → PendingApprovalRow}
    (hf : ∀ row, (f row).executingAt = row.executingAt)
    (hg : p'.getPending r = (p.getPending r).map f) (hu : r ∈ p'.used ↔ r ∈ p.used) :
    cellOf p' r = cellOf p r := by
  cases hp : p.getPending r with
  | none => exact cellOf_congr (by rw [hg, hp, Option.map_none]) hu
  | some row =>
    rw [hp, Option.map_some] at hg
    rw [cellOf_some hg, cellOf_some hp, hf]

theorem cellOf_released {error : Option JsString}
    (hg : p'.getPending r = (p.getPending r).map (setReleased error))
    (hu : r ∈ p'.used ↔ r ∈ p.used) :
    cellOf p' r = if cellOf p r = .taken then .free else cellOf p r := by
  cases hp : p.getPending r with
  | none =>
    have hc : cellOf p r ≠ .taken := by
      simp only [cellOf, hp]
      split <;> decide
    rw [if_neg hc]
    exact cellOf_congr (by rw [hg, hp, Option.map_none]) hu
  | some row =>
    rw [hp, Option.map_some] at hg
    rw [cellOf_some hg, cellOf_some hp, if_pos (show (setReleased error row).executingAt = none from rfl)]
    by_cases hx : row.executingAt = none
    · rw [if_pos hx, if_neg (by decide)]
    · rw [if_neg hx, if_pos rfl]

/-! ## owners -/

/-- a call that does not change its stage leaves the owner alone -/
theorem owner_keep (ho : ∀ i st, (s.pc i).stage r = some st ↔ a.owner = some (i, st))
    (hf : StepSpec s t id events) (hs : (t.pc id).stage r = (s.pc id).stage r) (i : CallId)
    (st : Stage) : (t.pc i).stage r = some st ↔ a.owner = some (i, st) := by
  by_cases hi : i = id
  · rw [hi, hs]
    exact ho id st
  · rw [hf.others i hi]
    exact ho i st

/-- the owner, or a call that finds no owner, decides who owns the cell next -/
theorem owner_set (ho : ∀ i st, (s.pc i).stage r = some st ↔ a.owner = some (i, st))
    (hf : StepSpec s t id events) (hid : a.owner = none ∨ ∃ st, (s.pc id).stage r = some st)
    (i : CallId) (st : Stage) :
    (t.pc i).stage r = some st ↔ ((t.pc id).stage r).map (Prod.mk id) = some (i, st) := by
  by_cases hi : i = id
  · subst hi
    cases (t.pc i).stage r <;> simp
  · have hne : (s.pc i).stage r ≠ some st := by
      intro h
      have hown := (ho i st).mp h
      rcases hid with hn | ⟨st', h'⟩
      · rw [hn] at hown
        cases hown
      · rw [(ho id st').mp h', Option.some.injEq, Prod.mk.injEq] at hown
        exact hi hown.1.symm
    rw [hf.others i hi]
    refine ⟨fun h => absurd h hne, fun h => ?_⟩
    cases hst : (t.pc id).stage r with
    | none =>
      rw [hst] at h
      cases h
    | some x =>
      rw [hst, Option.map_some, Option.some.injEq, Prod.mk.injEq] at h
      exact absurd h.1.symm hi

/-! ## the refinement -/

theorem refines_init (r : JsString) : Refines r System.init Lease.init := by
  refine ⟨rfl, fun i st => ⟨fun h => ?_, fun h => ?_⟩, rfl⟩
  · cases h
  · cases h

/-- a label is one step of the lease of every request, or none -/
theorem refines_step (hs : Refines r s a) (ha : Lease.Inv a) (hf : StepSpec s t id events) :
    ∃ b, (b = a ∨ Lease.Step a b) ∧ Refines r t b := by
  have hh : execs r t.history = execs r events ++ a.history := by
    rw [hf.history, execs_append, hs.history]
  have howner : ∀ st, (s.pc id).stage r = some st → a.owner = some (id, st) :=
    fun st => (hs.owner id st).mp
  -- the owner that follows from the stage of the call
  have hset := fun hid => owner_set hs.owner hf hid
  cases hf.row r with
  | quiet hg hu hst he =>
    rw [he, List.nil_append] at hh
    exact ⟨a, Or.inl rfl, hs.cell.trans (cellOf_congr hg hu).symm, owner_keep hs.owner hf hst,
      hh.symm⟩
  | born input now hr hu hu' hg hb hafter he =>
    rw [he, List.nil_append] at hh
    have hnone : s.pending.getPending r = none := by
      cases hp : s.pending.getPending r with
      | none => rfl
      | some row => exact absurd (mem_used hp) hu
    have hc : a.cell = .unborn := by
      rw [hs.cell]
      simp only [cellOf, hnone, if_neg hu]
    refine ⟨_, Or.inr (.create hc), ?_, owner_keep hs.owner hf (hafter.trans hb.symm), hh.symm⟩
    rw [cellOf_some hg]
    rfl
  | first now approver row hg hf1 hg' hu hb hafter he hev =>
    rw [he, List.nil_append] at hh
    refine ⟨a, Or.inl rfl, ?_, owner_keep hs.owner hf (hafter.trans hb.symm), hh.symm⟩
    rw [hs.cell, cellOf_some hg, cellOf_some hg']
    rfl
  | escalate now hg hu hb hafter he =>
    rw [he, List.nil_append] at hh
    exact ⟨a, Or.inl rfl, hs.cell.trans (cellOf_map (f := setEscalated now) (fun _ => rfl) hg hu).symm,
      owner_keep hs.owner hf (hafter.trans hb.symm), hh.symm⟩
  | claim now row hg hx hg' hu hb hafter he =>
    rw [he, List.nil_append] at hh
    have hc : a.cell = .free := by rw [hs.cell, cellOf_some hg, if_pos hx]
    have hc' : cellOf t.pending r = .taken := by
      rw [cellOf_some hg', if_neg]
      show some now ≠ none
      simp
    rcases hafter with hafter | hafter
    · exact ⟨_, Or.inr (.strand hc), hc'.symm, owner_keep hs.owner hf (hafter.trans hb.symm), hh.symm⟩
    · refine ⟨_, Or.inr (.acquire id hc), hc'.symm, fun i st => ?_, hh.symm⟩
      rw [hset (Or.inl (ha.owner_none (Or.inr hc))) i st, hafter]
      rfl
  | release error hg hu hb hafter he =>
    rw [he, List.nil_append] at hh
    refine ⟨_, Or.inr (.release id (howner _ hb)), ?_, fun i st => ?_, hh.symm⟩
    · show (if a.cell = .taken then .free else a.cell) = _
      rw [hs.cell, cellOf_released hg hu]
    · rw [hset (Or.inr ⟨_, hb⟩) i st, hafter]
      rfl
  | retire st hst hg hu hb hafter he =>
    rw [he, List.nil_append] at hh
    refine ⟨_, Or.inr (.retire id st (howner _ hb) hst), ?_, fun i st => ?_, hh.symm⟩
    · refine (cellOf_gone hg hu ?_).symm
      rw [← hs.cell]
      rcases ha.cell_of_owner (howner _ hb) with h | h <;> rw [h] <;> decide
    · rw [hset (Or.inr ⟨_, hb⟩) i st, hafter]
      rfl
  | leave st hst hg hu hb hafter he =>
    rw [he, List.nil_append] at hh
    refine ⟨_, Or.inr (.abandon id st (howner _ hb) hst), ?_, fun i st => ?_, hh.symm⟩
    · exact hs.cell.trans (cellOf_congr hg hu).symm
    · rw [hset (Or.inr ⟨_, hb⟩) i st, hafter]
      rfl
  | evict now row hg hx hg' hu hb hafter he hev =>
    rw [he, List.nil_append] at hh
    have hc : a.cell = .free ∨ a.cell = .taken := by
      rw [hs.cell, cellOf_some hg]
      split
      · exact Or.inl rfl
      · exact Or.inr rfl
    refine ⟨_, Or.inr (.evict hc), ?_, owner_keep hs.owner hf (hafter.trans hb.symm), hh.symm⟩
    refine (cellOf_gone hg' hu ?_).symm
    rw [← hs.cell]
    rcases hc with h | h <;> rw [h] <;> decide
  | start hg hu hb hafter he =>
    rw [he] at hh
    refine ⟨_, Or.inr (.start id (howner _ hb)), ?_, fun i st => ?_, hh.symm⟩
    · exact hs.cell.trans (cellOf_congr hg hu).symm
    · rw [hset (Or.inr ⟨_, hb⟩) i st, hafter]
      rfl
  | succeed hg hu hb hafter he =>
    rw [he] at hh
    refine ⟨_, Or.inr (.succeed id (howner _ hb)), ?_, fun i st => ?_, hh.symm⟩
    · exact hs.cell.trans (cellOf_congr hg hu).symm
    · rw [hset (Or.inr ⟨_, hb⟩) i st, hafter]
      rfl
  | fail hg hu hb hafter he =>
    rw [he] at hh
    refine ⟨_, Or.inr (.fail id (howner _ hb)), ?_, fun i st => ?_, hh.symm⟩
    · exact hs.cell.trans (cellOf_congr hg hu).symm
    · rw [hset (Or.inr ⟨_, hb⟩) i st, hafter]
      rfl
  | interrupt hg hu hb hafter he =>
    rw [he] at hh
    refine ⟨_, Or.inr (.interrupt id (howner _ hb)), ?_, fun i st => ?_, hh.symm⟩
    · exact hs.cell.trans (cellOf_congr hg hu).symm
    · rw [hset (Or.inr ⟨_, hb⟩) i st, hafter]
      rfl

end

/-- the system keeps to a lease for every request -/
def Leased (s : System) : Prop := ∀ r, ∃ a, Lease.Inv a ∧ Refines r s a

theorem leased_init : Leased System.init := fun r => ⟨Lease.init, inv_init, refines_init r⟩

theorem leased_step (s : System) (l : Label) (t : System) (hs : Leased s)
    (h : step s l = some t) : Leased t := by
  intro r
  obtain ⟨a, ha, hr⟩ := hs r
  obtain ⟨events, hspec⟩ := step_spec h
  obtain ⟨b, hb, hr'⟩ := refines_step hr ha hspec
  rcases hb with rfl | hb
  · exact ⟨b, ha, hr'⟩
  · exact ⟨b, inv_step ha hb, hr'⟩

theorem refines_run {ls : List Label} {s : System} (h : run step System.init ls = some s) :
    Leased s :=
  run_inv leased_step ls _ _ leased_init h

/-- **At most once.**  In every run of any calls, the executor of a request succeeds at most once,
and when one of its runs starts none is under way and none has succeeded. -/
theorem executor_at_most_once (ls : List Label) (s : System)
    (h : run step System.init ls = some s) (r : JsString) :
    (execs r s.history).countP (fun e => decide (e.kind = .succeeded)) ≤ 1 ∧
      ∀ post e pre, execs r s.history = post ++ e :: pre → e.kind = .started →
        running pre = none ∧ ∀ x ∈ pre, x.kind ≠ .succeeded := by
  obtain ⟨a, ha, hr⟩ := refines_run h r
  have hserial : Serial (execs r s.history) := by
    rw [← hr.history]
    exact ha.serial
  refine ⟨hserial.succeeded_le_one, fun post e pre he hk => ?_⟩
  obtain ⟨hrun, hset⟩ := (each_iff.mp hserial post e pre he).1 hk
  exact ⟨hrun, fun x hx hk' => hset ⟨x, hx, Or.inl hk'⟩⟩

/-! ## one approval and its execution -/

def sampleInput (level : PendingApprovalLevel) : CreatePendingApprovalInput where
  requestId := sampleRequest
  toolName := lit "sendEmail"
  level := level
  inputsHash := lit "h1"
  planSummary := none
  payload := none
  actor := none
  externalInputsSummary := none

/-- the statement of a call ends well, the call goes on at a time -/
def okAt (id : CallId) (now : Int) : Label := .go id ⟨now, .ok, lit ""⟩

/-- an executor fails, or a statement without effect -/
def lostAt (id : CallId) (now : Int) : Label := .go id ⟨now, .lost, lit ""⟩

/-- call 0 creates the request at time 0 -/
def creation (level : PendingApprovalLevel) : List Label :=
  [.begin 0 (.createPendingApproval (sampleInput level)), okAt 0 0, okAt 0 0]

def approval (id : CallId) : Label := .begin id (.resolveAndExecute sampleRequest (lit "owner"))

def rejection (id : CallId) : Label := .begin id (.resolveRejection sampleRequest (lit "owner"))

/-- call 1 approves and executes while call 2 comes too late -/
def approvedRun : List Label :=
  creation .confirm ++ [approval 1, approval 2, okAt 1 10, okAt 2 10, okAt 1 11, okAt 1 12,
    okAt 1 13, okAt 1 14, okAt 2 15, okAt 2 16, okAt 1 17, okAt 1 18]

theorem executor_at_most_once_approved :
    ∃ s, run step System.init approvedRun = some s ∧
      execs sampleRequest.uuid s.history = [⟨1, .succeeded⟩, ⟨1, .started⟩] ∧
      (execs sampleRequest.uuid s.history).countP (fun e => decide (e.kind = .succeeded)) ≤ 1 := by
  have hrun : (run step System.init approvedRun).isSome = true := by decide
  obtain ⟨s, hs⟩ := Option.isSome_iff_exists.mp hrun
  refine ⟨s, hs, ?_, (executor_at_most_once approvedRun s hs sampleRequest.uuid).1⟩
  have h : (run step System.init approvedRun).map (fun s => execs sampleRequest.uuid s.history)
      = some [⟨1, .succeeded⟩, ⟨1, .started⟩] := by decide
  rw [hs] at h
  exact Option.some.inj h

end Hitl
