import JinCore.Lib.Runs
import Mathlib.Data.List.Count

/-!
# One resource, many agents, at most one completed run

A cell is claimed by at most one agent at a time; its owner may run, and the run may succeed, fail
or be interrupted.  Only the owner gives the cell back or retires it, but anybody may evict it, the
owner notwithstanding.

* `Step`          what can happen to the cell, to its owner and to the history of the runs;
* `Serial h`      runs do not overlap, and none starts after one that succeeded or was interrupted;
* `Inv`           the invariant, `inv_step` one step preserves it;
* `inv_held`      while the cell is held no run is under way and none has succeeded;
* `gone_step`     when the cell is gone, only the agent that owned it may still run;
* `Serial.succeeded_le_one`   at most one run succeeds.
-/

namespace Lease
open Runs

inductive Cell where
  | unborn | free | taken | gone
  deriving DecidableEq, Repr

inductive Stage where
  | held | running | spent
  deriving DecidableEq, Repr

inductive Kind where
  | started | succeeded | failed | interrupted
  deriving DecidableEq, Repr

structure Ev (ι : Type*) where
  agent : ι
  kind : Kind
  deriving DecidableEq, Repr

/-- the history is newest first -/
structure State (ι : Type*) where
  cell : Cell
  owner : Option (ι × Stage)
  history : List (Ev ι)

variable {ι : Type*}

def init : State ι := ⟨.unborn, none, []⟩

inductive Step (s : State ι) : State ι → Prop
  | create (hc : s.cell = .unborn) : Step s { s with cell := .free }
  | acquire (i : ι) (hc : s.cell = .free) :
      Step s { s with cell := .taken, owner := some (i, .held) }
  /-- a claim whose answer is lost -/
  | strand (hc : s.cell = .free) : Step s { s with cell := .taken }
  | start (i : ι) (ho : s.owner = some (i, .held)) :
      Step s { s with owner := some (i, .running), history := ⟨i, .started⟩ :: s.history }
  | succeed (i : ι) (ho : s.owner = some (i, .running)) :
      Step s { s with owner := some (i, .spent), history := ⟨i, .succeeded⟩ :: s.history }
  | fail (i : ι) (ho : s.owner = some (i, .running)) :
      Step s { s with owner := some (i, .held), history := ⟨i, .failed⟩ :: s.history }
  | release (i : ι) (ho : s.owner = some (i, .held)) :
      Step s { s with cell := if s.cell = .taken then .free else s.cell, owner := none }
  | retire (i : ι) (st : Stage) (ho : s.owner = some (i, st)) (hst : st ≠ .running) :
      Step s { s with cell := .gone, owner := none }
  | abandon (i : ι) (st : Stage) (ho : s.owner = some (i, st)) (hst : st ≠ .running) :
      Step s { s with owner := none }
  | interrupt (i : ι) (ho : s.owner = some (i, .running)) :
      Step s { s with owner := none, history := ⟨i, .interrupted⟩ :: s.history }
  | evict (hc : s.cell = .free ∨ s.cell = .taken) : Step s { s with cell := .gone }

/-! ## histories -/

/-- the agent whose run has started and not ended -/
def running : List (Ev ι) → Option ι
  | [] => none
  | e :: _ => if e.kind = .started then some e.agent else none

/-- some run has succeeded, or nobody knows how it ended -/
def Settled (h : List (Ev ι)) : Prop := ∃ e ∈ h, e.kind = .succeeded ∨ e.kind = .interrupted

/-- a run starts where none is under way and none is settled, and ends where it is under way -/
def Next (e : Ev ι) (pre : List (Ev ι)) : Prop :=
  (e.kind = .started → running pre = none ∧ ¬ Settled pre) ∧
    (e.kind ≠ .started → running pre = some e.agent)

def Serial (h : List (Ev ι)) : Prop := Each Next h

theorem settled_cons {e : Ev ι} {h : List (Ev ι)} :
    Settled (e :: h) ↔ (e.kind = .succeeded ∨ e.kind = .interrupted) ∨ Settled h := by
  simp only [Settled, List.mem_cons, exists_eq_or_imp]

/-- nothing but an end may follow a settled run -/
theorem Serial.settled_head {e : Ev ι} {h : List (Ev ι)} (hs : Serial (e :: h)) (hh : Settled h) :
    e.kind ≠ .started :=
  fun he => (hs.1.1 he).2 hh

/-- after a settled run there is no event at all -/
theorem Serial.not_settled_tail {e : Ev ι} {h : List (Ev ι)} (hs : Serial (e :: h)) :
    ¬ Settled h := by
  intro hh
  have hrun := hs.1.2 (hs.settled_head hh)
  cases h with
  | nil =>
    obtain ⟨x, hx, _⟩ := hh
    exact absurd hx List.not_mem_nil
  | cons x h =>
    rw [running] at hrun
    split at hrun
    next hx =>
      rcases settled_cons.mp hh with hk | hh
      · rw [hx] at hk
        rcases hk with hk | hk <;> cases hk
      · exact Serial.settled_head hs.2 hh hx
    next => cases hrun

/-- at most one run succeeds -/
theorem Serial.succeeded_le_one {h : List (Ev ι)} (hs : Serial h) :
    h.countP (fun e => decide (e.kind = .succeeded)) ≤ 1 := by
  cases h with
  | nil => exact Nat.zero_le _
  | cons e h =>
    have h0 : h.countP (fun e => decide (e.kind = .succeeded)) = 0 := by
      rw [List.countP_eq_zero]
      intro x hx hk
      exact hs.not_settled_tail ⟨x, hx, Or.inl (by simpa using hk)⟩
    rw [List.countP_cons, h0]
    split <;> omega

/-! ## the invariant -/

/-- the run under way is that of the owner -/
def runningOf : Option (ι × Stage) → Option ι
  | some (i, .running) => some i
  | _ => none

structure Inv (s : State ι) : Prop where
  held : s.owner ≠ none → s.cell = .taken ∨ s.cell = .gone
  serial : Serial s.history
  running : running s.history = runningOf s.owner
  settled : Settled s.history → (s.cell = .taken ∨ s.cell = .gone) ∧
    ∀ i st, s.owner = some (i, st) → st = .spent

theorem inv_init : Inv (init : State ι) := by
  refine ⟨fun h => absurd rfl h, trivial, rfl, ?_⟩
  rintro ⟨e, he, _⟩
  exact absurd he List.not_mem_nil

theorem Inv.cell_of_owner {s : State ι} (hs : Inv s) {i : ι} {st : Stage}
    (ho : s.owner = some (i, st)) : s.cell = .taken ∨ s.cell = .gone :=
  hs.held (by rw [ho]; simp)

theorem Inv.owner_none {s : State ι} (hs : Inv s) (hc : s.cell = .unborn ∨ s.cell = .free) :
    s.owner = none := by
  cases ho : s.owner with
  | none => rfl
  | some p =>
    obtain ⟨i, st⟩ := p
    have := hs.cell_of_owner ho
    rcases hc with hc | hc <;> rw [hc] at this <;> rcases this with h | h <;> cases h

theorem Inv.not_settled {s : State ι} (hs : Inv s) {i : ι} {st : Stage}
    (ho : s.owner = some (i, st)) (hst : st ≠ .spent) : ¬ Settled s.history :=
  fun h => hst ((hs.settled h).2 i st ho)

theorem Inv.running_of_owner {s : State ι} (hs : Inv s) {i : ι}
    (ho : s.owner = some (i, .running)) : Lease.running s.history = some i := by
  rw [hs.running, ho]
  rfl

/-- while the cell is held, no run is under way and none is settled -/
theorem inv_held {s : State ι} (hs : Inv s) {i : ι} (ho : s.owner = some (i, .held)) :
    running s.history = none ∧ ¬ Settled s.history := by
  have hrun : running s.history = none := by
    rw [hs.running, ho]
    rfl
  exact ⟨hrun, hs.not_settled ho (by decide)⟩

theorem inv_step {s t : State ι} (hs : Inv s) (h : Step s t) : Inv t := by
  cases h with
  | create hc =>
    have ho := hs.owner_none (Or.inl hc)
    refine ⟨fun h => absurd ho h, hs.serial, hs.running, fun h => ?_⟩
    have := (hs.settled h).1
    rw [hc] at this
    rcases this with h | h <;> cases h
  | acquire i hc =>
    have ho := hs.owner_none (Or.inr hc)
    refine ⟨fun _ => Or.inl rfl, hs.serial, ?_, fun h => ?_⟩
    · rw [hs.running, ho]
      rfl
    · have := (hs.settled h).1
      rw [hc] at this
      rcases this with h | h <;> cases h
  | strand hc =>
    have ho := hs.owner_none (Or.inr hc)
    refine ⟨fun h => absurd ho h, hs.serial, hs.running, fun h => ⟨Or.inl rfl, ?_⟩⟩
    exact (hs.settled h).2
  | start i ho =>
    obtain ⟨hrun, hset⟩ := inv_held hs ho
    refine ⟨fun _ => hs.cell_of_owner ho, ⟨?_, hs.serial⟩, rfl, fun h => ?_⟩
    · exact ⟨fun _ => ⟨hrun, hset⟩, fun h => absurd rfl h⟩
    · rcases settled_cons.mp h with h | h
      · rcases h with h | h <;> cases h
      · exact absurd h hset
  | succeed i ho =>
    have hrun := hs.running_of_owner ho
    refine ⟨fun _ => hs.cell_of_owner ho, ⟨⟨nofun, fun _ => hrun⟩, hs.serial⟩, rfl, fun _ => ?_⟩
    refine ⟨hs.cell_of_owner ho, fun j st hj => ?_⟩
    cases hj
    rfl
  | fail i ho =>
    have hrun := hs.running_of_owner ho
    refine ⟨fun _ => hs.cell_of_owner ho, ⟨⟨nofun, fun _ => hrun⟩, hs.serial⟩, rfl, fun h => ?_⟩
    rcases settled_cons.mp h with h | h
    · rcases h with h | h <;> cases h
    · exact absurd h (hs.not_settled ho (by decide))
  | release i ho =>
    refine ⟨fun h => absurd rfl h, hs.serial, ?_, fun h => ?_⟩
    · rw [hs.running, ho]
      rfl
    · exact absurd h (hs.not_settled ho (by decide))
  | retire i st ho hst =>
    refine ⟨fun h => absurd rfl h, hs.serial, ?_, fun _ => ⟨Or.inr rfl, fun _ _ h => by cases h⟩⟩
    rw [hs.running, ho]
    cases st with
    | running => exact absurd rfl hst
    | held => rfl
    | spent => rfl
  | abandon i st ho hst =>
    refine ⟨fun h => absurd rfl h, hs.serial, ?_,
      fun h => ⟨(hs.settled h).1, fun _ _ h => by cases h⟩⟩
    rw [hs.running, ho]
    cases st with
    | running => exact absurd rfl hst
    | held => rfl
    | spent => rfl
  | interrupt i ho =>
    have hrun := hs.running_of_owner ho
    refine ⟨fun h => absurd rfl h, ⟨⟨nofun, fun _ => hrun⟩, hs.serial⟩, rfl, fun _ => ?_⟩
    exact ⟨hs.cell_of_owner ho, fun _ _ h => by cases h⟩
  | evict hc =>
    exact ⟨fun _ => Or.inr rfl, hs.serial, hs.running, fun h => ⟨Or.inr rfl, (hs.settled h).2⟩⟩

/-! ## a cell that is gone -/

/-- the cell is gone, and only `o` may still own it -/
def Gone (o : Option ι) (s : State ι) : Prop :=
  s.cell = .gone ∧ ∀ i st, s.owner = some (i, st) → o = some i

/-- a cell that is gone stays so, and only the agent that owned it runs -/
theorem gone_step {o : Option ι} {s t : State ι} (hs : Gone o s) (h : Step s t) :
    Gone o t ∧ (t.history = s.history ∨ ∃ e, t.history = e :: s.history ∧ o = some e.agent) := by
  obtain ⟨hc, ho⟩ := hs
  cases h with
  | create h =>
    rw [hc] at h
    cases h
  | acquire i h =>
    rw [hc] at h
    cases h
  | strand h =>
    rw [hc] at h
    cases h
  | start i h =>
    refine ⟨⟨hc, fun j st hj => ?_⟩, Or.inr ⟨_, rfl, ho i _ h⟩⟩
    cases hj
    exact ho i _ h
  | succeed i h =>
    refine ⟨⟨hc, fun j st hj => ?_⟩, Or.inr ⟨_, rfl, ho i _ h⟩⟩
    cases hj
    exact ho i _ h
  | fail i h =>
    refine ⟨⟨hc, fun j st hj => ?_⟩, Or.inr ⟨_, rfl, ho i _ h⟩⟩
    cases hj
    exact ho i _ h
  | release i h =>
    refine ⟨⟨?_, fun _ _ hj => by cases hj⟩, Or.inl rfl⟩
    show (if s.cell = .taken then Cell.free else s.cell) = .gone
    rw [hc, if_neg (by decide)]
  | retire i st h => exact ⟨⟨rfl, fun _ _ hj => by cases hj⟩, Or.inl rfl⟩
  | abandon i st h => exact ⟨⟨hc, fun _ _ hj => by cases hj⟩, Or.inl rfl⟩
  | interrupt i h =>
    exact ⟨⟨hc, fun _ _ hj => by cases hj⟩, Or.inr ⟨_, rfl, ho i _ h⟩⟩
  | evict h => exact ⟨⟨rfl, ho⟩, Or.inl rfl⟩

end Lease
