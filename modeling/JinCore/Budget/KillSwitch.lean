import JinCore.Common.Calls
import JinCore.Lib.Runs
import JinCore.Lib.Table
import Mathlib.Algebra.Order.Ring.Rat
import Mathlib.Algebra.BigOperators.Group.List.Basic

/-!
# The kill switch (`kill-switch.service.ts`, `kill-switch.logic.ts`)

Every five minutes a sweep reads whether the switch is active, then the usage of the hour and of the
hours before it, and activates the switch; `/unpause` writes the same row, and the usage is recorded
beside them.

* `isRunawayDetected`   `isRunawayDetected_congr`: only the sum of the hours before counts;
* `addUsage`            the upsert of an hour;
* `Phase`               where a sweep stands;
* `KillSwitch`          the two tables, the sweeps, and what has been written so far;
* `KillSwitch.step`     one statement.
-/

namespace Budget.Runaway
open Common

abbrev SweepId := Nat

/-- a row of `budget_hourly_usage`, with the instant its hour begins at -/
structure HourlyUsage where
  hourBucket : Int
  inputTokens : Nat
  outputTokens : Nat
  deriving DecidableEq, Repr

def HourlyUsage.tokens (row : HourlyUsage) : Nat := row.inputTokens + row.outputTokens

abbrev HourlyUsages := Table HourlyUsage.hourBucket

structure BudgetConfig where
  runawayMultiplier : ℚ
  runawayLookbackHours : Nat
  runawayMinHourlyTokens : Nat
  /-- `z.number().int().positive()` -/
  minPos : 1 ≤ runawayMinHourlyTokens

/-! ## the detection -/

def totalTokens (rows : List HourlyUsage) : Nat := (rows.map HourlyUsage.tokens).sum

def isRunawayDetected (config : BudgetConfig) (currentHourUsage : Nat) (lookbackHours : List HourlyUsage) :
    Bool :=
  if lookbackHours.length = 0 then false
  else if currentHourUsage < config.runawayMinHourlyTokens then false
  else
    let avgHourlyUsage : ℚ := totalTokens lookbackHours / config.runawayLookbackHours
    if avgHourlyUsage ≤ 0 then false
    else decide ((currentHourUsage : ℚ) > avgHourlyUsage * config.runawayMultiplier)

section
variable {config : BudgetConfig} {current : Nat} {rows rows' : List HourlyUsage}

theorem isRunawayDetected_of_lt (h : current < config.runawayMinHourlyTokens) :
    isRunawayDetected config current rows = false := by
  rw [isRunawayDetected, if_pos h, ite_self]

theorem isRunawayDetected_of_total_eq_zero (h : totalTokens rows = 0) :
    isRunawayDetected config current rows = false := by
  rw [isRunawayDetected, h]
  simp

/-- hours without tokens make no difference -/
theorem isRunawayDetected_congr (h : totalTokens rows = totalTokens rows') :
    isRunawayDetected config current rows = isRunawayDetected config current rows' := by
  by_cases hzero : totalTokens rows = 0
  · rw [isRunawayDetected_of_total_eq_zero hzero, isRunawayDetected_of_total_eq_zero (h ▸ hzero)]
  · have hne : ∀ rows : List HourlyUsage, totalTokens rows ≠ 0 → rows.length ≠ 0 := by
      intro rows hrows hlength
      rw [List.length_eq_zero_iff.mp hlength] at hrows
      exact hrows rfl
    rw [isRunawayDetected, isRunawayDetected, if_neg (hne rows hzero), if_neg (hne rows' (h ▸ hzero)), h]

end

/-! ## the table of the hours -/

def tokensOf (usage : HourlyUsages) (bucket : Int) : Nat :=
  ((usage.get bucket).map HourlyUsage.tokens).getD 0

def lookback (config : BudgetConfig) (usage : HourlyUsages) (bucket : Int) : List HourlyUsage :=
  usage.rows.filter fun row =>
    bucket - config.runawayLookbackHours * 60 * 60 * 1000 ≤ row.hourBucket ∧ row.hourBucket < bucket

/-- `insert … on conflict do update` -/
def addUsage (usage : HourlyUsages) (bucket : Int) (inputTokens outputTokens : Nat) : HourlyUsages :=
  match usage.insert ⟨bucket, inputTokens, outputTokens⟩ with
  | some usage => usage
  | none =>
    let add (row : HourlyUsage) : HourlyUsage := { row with
      inputTokens := row.inputTokens + inputTokens
      outputTokens := row.outputTokens + outputTokens }
    usage.modify bucket add fun _ => rfl

section
variable {usage : HourlyUsages} {bucket : Int}

/-- the rows of the upsert are of the hours that were there, or of its own -/
theorem bucket_of_mem_addUsage {i o : Nat} {row : HourlyUsage}
    (h : row ∈ (addUsage usage bucket i o).rows) :
    row.hourBucket = bucket ∨ ∃ old ∈ usage.rows, old.hourBucket = row.hourBucket := by
  rw [addUsage] at h
  split at h
  next usage' hinsert =>
    rw [Table.rows_insert hinsert] at h
    rcases List.mem_append.mp h with h | h
    · exact Or.inr ⟨row, h, rfl⟩
    · rw [List.mem_singleton.mp h]
      exact Or.inl rfl
  next =>
    obtain ⟨old, hold, rfl⟩ := List.mem_map.mp h
    refine Or.inr ⟨old, hold, ?_⟩
    split <;> rfl

/-- an upsert of no tokens adds a row without tokens, or nothing -/
theorem addUsage_zero (usage : HourlyUsages) (bucket : Int) :
    (addUsage usage bucket 0 0).rows = usage.rows ∨
      usage.get bucket = none ∧ (addUsage usage bucket 0 0).rows = usage.rows ++ [⟨bucket, 0, 0⟩] := by
  rw [addUsage]
  cases hinsert : usage.insert ⟨bucket, 0, 0⟩ with
  | some usage' => exact Or.inr ⟨(Table.get_insert hinsert bucket).1, Table.rows_insert hinsert⟩
  | none =>
    left
    show (usage.rows.map fun row => if row.hourBucket = bucket then
      (⟨row.hourBucket, row.inputTokens + 0, row.outputTokens + 0⟩ : HourlyUsage) else row) = _
    have hid : (fun row : HourlyUsage => if row.hourBucket = bucket then
        (⟨row.hourBucket, row.inputTokens + 0, row.outputTokens + 0⟩ : HourlyUsage) else row) = id := by
      funext row
      split <;> rfl
    rw [hid, List.map_id]

theorem tokensOf_addUsage_zero (usage : HourlyUsages) (bucket b : Int) :
    tokensOf (addUsage usage bucket 0 0) b = tokensOf usage b := by
  rw [tokensOf, tokensOf, Table.get, Table.get]
  rcases addUsage_zero usage bucket with hrows | ⟨hnone, hrows⟩
  · rw [hrows]
  · rw [hrows, List.find?_append]
    by_cases hb : b = bucket
    · subst hb
      have hfind : (usage.rows.find? fun row => row.hourBucket = b) = none := hnone
      rw [hfind, Option.none_or, List.find?_cons_of_pos (by simp)]
      rfl
    · rw [List.find?_cons_of_neg (by simpa using Ne.symm hb), List.find?_nil, Option.or_none]

theorem totalTokens_lookback_addUsage_zero (config : BudgetConfig) (usage : HourlyUsages)
    (bucket b : Int) :
    totalTokens (lookback config (addUsage usage bucket 0 0) b) = totalTokens (lookback config usage b) := by
  rw [lookback, lookback]
  rcases addUsage_zero usage bucket with hrows | ⟨-, hrows⟩
  · rw [hrows]
  · rw [hrows, List.filter_append, totalTokens, List.map_append, List.sum_append]
    have hzero : ((([⟨bucket, 0, 0⟩] : List HourlyUsage).filter fun row =>
        b - config.runawayLookbackHours * 60 * 60 * 1000 ≤ row.hourBucket ∧
          row.hourBucket < b).map HourlyUsage.tokens).sum = 0 := by
      rw [List.filter_cons]
      split <;> rfl
    rw [hzero, Nat.add_zero]
    rfl

/-- an hour without a row has no tokens -/
theorem tokensOf_eq_zero (h : ∀ row ∈ usage.rows, row.hourBucket ≠ bucket) : tokensOf usage bucket = 0 := by
  rw [tokensOf, Table.get_eq_none_iff.mpr h]
  rfl

end

/-! ## the sweeps -/

inductive Phase where
  | idle
  /-- before `isActive` -/
  | checking
  /-- before the two reads of `getHourUsageDetail` have both returned -/
  | reading (bucket : Int) (current : Option Nat) (rows : Option (List HourlyUsage))
  /-- before `upsertState` -/
  | activating
  | ended
  deriving DecidableEq, Repr

/-- what has been written, newest first -/
inductive Event where
  | recorded (tokens : Nat)
  | activated
  | unpaused
  deriving DecidableEq, Repr

/-- a call of `recordUsage` before its upsert of the hour -/
structure Recording where
  bucket : Int
  inputTokens : Nat
  outputTokens : Nat
  deriving DecidableEq, Repr

structure KillSwitch where
  /-- the row of `budget_kill_switch` -/
  row : Option Bool
  usage : HourlyUsages
  /-- what `currentHourBucket` gives now -/
  hour : Int
  recordings : CallId → Option Recording
  sweeps : SweepId → Phase
  history : List Event

inductive Action where
  | passTime (hour : Int)
  | beginRecord (c : CallId) (inputTokens outputTokens : Nat)
  | record (c : CallId)
  | unpause
  | checkRunaway (k : SweepId)
  | readActive (k : SweepId)
  | readCurrent (k : SweepId)
  | readLookback (k : SweepId)
  | activate (k : SweepId)
  /-- a statement of a sweep throws, without an effect -/
  | throws (k : SweepId)

namespace KillSwitch

def isActive (s : KillSwitch) : Bool := s.row.getD false

def set (s : KillSwitch) (k : SweepId) (phase : Phase) : KillSwitch :=
  { s with sweeps := Function.update s.sweeps k phase }

/-- the decision comes with the second of the two reads -/
def afterRead (config : BudgetConfig) (bucket : Int) : Option Nat → Option (List HourlyUsage) → Phase
  | some current, some rows => if isRunawayDetected config current rows then .activating else .ended
  | current, rows => .reading bucket current rows

def step (config : BudgetConfig) (s : KillSwitch) : Action → Option KillSwitch
  | .passTime hour => some { s with hour := hour }
  | .beginRecord c inputTokens outputTokens =>
    match s.recordings c with
    | none => some { s with
        recordings := Function.update s.recordings c (some ⟨s.hour, inputTokens, outputTokens⟩) }
    | some _ => none
  | .record c =>
    match s.recordings c with
    | some ⟨bucket, inputTokens, outputTokens⟩ => some { s with
        recordings := Function.update s.recordings c none
        usage := addUsage s.usage bucket inputTokens outputTokens
        history := .recorded (inputTokens + outputTokens) :: s.history }
    | none => none
  | .unpause => some { s with row := some false, history := .unpaused :: s.history }
  | .checkRunaway k =>
    match s.sweeps k with
    | .idle => some (s.set k .checking)
    | _ => none
  | .readActive k =>
    match s.sweeps k with
    | .checking => some (s.set k (if s.isActive then .ended else .reading s.hour none none))
    | _ => none
  | .readCurrent k =>
    match s.sweeps k with
    | .reading bucket none rows =>
      some (s.set k (afterRead config bucket (some (tokensOf s.usage bucket)) rows))
    | _ => none
  | .readLookback k =>
    match s.sweeps k with
    | .reading bucket current none =>
      some (s.set k (afterRead config bucket current (some (lookback config s.usage bucket))))
    | _ => none
  | .activate k =>
    match s.sweeps k with
    | .activating => some ({ s with row := some true, history := .activated :: s.history }.set k .ended)
    | _ => none
  | .throws k =>
    match s.sweeps k with
    | .idle | .ended => none
    | _ => some (s.set k .ended)

def init (hour : Int) : KillSwitch where
  row := none
  usage := .empty HourlyUsage.hourBucket
  hour := hour
  recordings := fun _ => none
  sweeps := fun _ => .idle
  history := []

end KillSwitch

end Budget.Runaway
