import JinCore.Budget.KillSwitch

/-!
# What an unpause leaves behind

A sweep that has read the switch as inactive may still activate it, and a sweep that begins after an
unpause sees the same hour again.

* `UnpauseHolds`     an activation after an unpause has new tokens between them, and an activation
                     stays until the next unpause;
* `detects`          what a sweep in flight will find in the usage as it stands;
* `Settled`          nothing is left to be detected at an unpause, and the hour does not go back;
* `quiet`, `Kept`    the usage since an unpause; `kept_step`;
* `unpause_holds`, `reactivated`.
-/

namespace Budget.Runaway
open Common KillSwitch

/-- an activation, with what was written before it -/
def Justified : Event → List Event → Prop
  | .activated, earlier => ∀ since before, earlier = since ++ .unpaused :: before →
      ∃ tokens, 0 < tokens ∧ .recorded tokens ∈ since
  | _, _ => True

/-- the last of the activations and unpauses -/
def activeAfter : List Event → Bool
  | [] => false
  | .activated :: _ => true
  | .unpaused :: _ => false
  | .recorded _ :: earlier => activeAfter earlier

structure UnpauseHolds (s : KillSwitch) : Prop where
  activations : Runs.Each Justified s.history
  stays : s.isActive = activeAfter s.history

/-- a sweep that reads nothing but the usage as it stands from here on detects a runaway -/
def detects (config : BudgetConfig) (usage : HourlyUsages) : Phase → Bool
  | .reading bucket current rows => isRunawayDetected config
      (current.getD (tokensOf usage bucket)) (rows.getD (lookback config usage bucket))
  | .activating => true
  | .idle | .checking | .ended => false

/-- what a sweep of the hour detects -/
def runawayIn (config : BudgetConfig) (usage : HourlyUsages) (bucket : Int) : Bool :=
  isRunawayDetected config (tokensOf usage bucket) (lookback config usage bucket)

def Settled (config : BudgetConfig) (s : KillSwitch) : Action → Prop
  | .unpause => runawayIn config s.usage s.hour = false ∧
      ∀ k, detects config s.usage (s.sweeps k) = false
  | .passTime hour => s.hour ≤ hour
  | _ => True

/-! ## the invariant -/

/-- there was an unpause, and no tokens since -/
def quiet : List Event → Bool
  | [] => false
  | .unpaused :: _ => true
  | .activated :: earlier => quiet earlier
  | .recorded tokens :: earlier => tokens = 0 && quiet earlier

theorem justified_of_not_quiet {history : List Event} (h : quiet history = false) :
    Justified .activated history := by
  rintro since before rfl
  induction since with
  | nil => cases h
  | cons event since ih =>
    cases event with
    | unpaused => cases h
    | activated =>
      obtain ⟨tokens, hpos, hmem⟩ := ih h
      exact ⟨tokens, hpos, List.mem_cons_of_mem _ hmem⟩
    | recorded tokens =>
      rcases Nat.eq_zero_or_pos tokens with rfl | hpos
      · obtain ⟨tokens, hpos, hmem⟩ := ih h
        exact ⟨tokens, hpos, List.mem_cons_of_mem _ hmem⟩
      · exact ⟨tokens, hpos, List.mem_cons_self⟩

section
variable (config : BudgetConfig) (s : KillSwitch)

/-- no sweep detects anything, now or in a later hour -/
structure Calm : Prop where
  hours : ∀ bucket, s.hour ≤ bucket → runawayIn config s.usage bucket = false
  sweeps : ∀ k, detects config s.usage (s.sweeps k) = false

structure Kept : Prop extends UnpauseHolds s where
  past : ∀ row ∈ s.usage.rows, row.hourBucket ≤ s.hour
  recordings : ∀ c recording, s.recordings c = some recording → recording.bucket ≤ s.hour
  calm : quiet s.history = true → Calm config s

end

section
variable {config : BudgetConfig} {s s' : KillSwitch} {k : SweepId} {phase : Phase}

/-- a sweep moves on, and will detect nothing if nothing was to be detected -/
theorem Kept.set (hkept : Kept config s)
    (hphase : Calm config s → detects config s.usage phase = false) : Kept config (s.set k phase) where
  activations := hkept.activations
  stays := hkept.stays
  past := hkept.past
  recordings := hkept.recordings
  calm hquiet := by
    have hcalm := hkept.calm hquiet
    refine ⟨hcalm.hours, fun j => ?_⟩
    show detects config s.usage (Function.update s.sweeps k phase j) = false
    by_cases hj : j = k
    · rw [hj, Function.update_self]
      exact hphase hcalm
    · rw [Function.update_of_ne hj]
      exact hcalm.sweeps j

/-- a read of the usage is what was to be read -/
theorem detects_afterRead (usage : HourlyUsages) {bucket : Int} {current : Option Nat}
    {rows : Option (List HourlyUsage)}
    (h : isRunawayDetected config (current.getD (tokensOf usage bucket))
      (rows.getD (lookback config usage bucket)) = false) :
    detects config usage (afterRead config bucket current rows) = false := by
  cases current with
  | none => exact h
  | some current =>
    cases rows with
    | none => exact h
    | some rows =>
      have hnot : isRunawayDetected config current rows = false := h
      rw [afterRead, hnot]
      rfl

/-- an upsert without tokens changes nothing that is detected -/
theorem detects_addUsage_zero (usage : HourlyUsages) (bucket : Int) (phase : Phase) :
    detects config (addUsage usage bucket 0 0) phase = detects config usage phase := by
  cases phase with
  | reading b current rows =>
    show isRunawayDetected config _ _ = isRunawayDetected config _ _
    rw [tokensOf_addUsage_zero]
    apply isRunawayDetected_congr
    cases rows with
    | none => exact totalTokens_lookback_addUsage_zero config usage bucket b
    | some rows => rfl
  | _ => rfl

theorem runawayIn_addUsage_zero (usage : HourlyUsages) (bucket b : Int) :
    runawayIn config (addUsage usage bucket 0 0) b = runawayIn config usage b :=
  detects_addUsage_zero usage bucket (.reading b none none)

/-! ### every step -/

theorem kept_record (hkept : Kept config s) {c : CallId} {bucket : Int} {i o : Nat}
    (hc : s.recordings c = some ⟨bucket, i, o⟩) : Kept config { s with
      recordings := Function.update s.recordings c none
      usage := addUsage s.usage bucket i o
      history := .recorded (i + o) :: s.history } where
  activations := ⟨trivial, hkept.activations⟩
  stays := hkept.stays
  past row hrow := by
    rcases bucket_of_mem_addUsage hrow with hrow | ⟨old, hold, hrow⟩
    · rw [hrow]
      exact hkept.recordings c _ hc
    · rw [← hrow]
      exact hkept.past old hold
  recordings j recording hj := by
    refine hkept.recordings j recording ?_
    by_cases hjc : j = c
    · rw [hjc] at hj
      exact absurd ((Function.update_self c none s.recordings).symm.trans hj) (by simp)
    · exact (Function.update_of_ne hjc none s.recordings).symm.trans hj
  calm hquiet := by
    obtain ⟨hzero, hquiet⟩ := (Bool.and_eq_true _ _).mp hquiet
    have hcalm := hkept.calm hquiet
    have hi : i = 0 := by
      have := of_decide_eq_true hzero
      omega
    have ho : o = 0 := by
      have := of_decide_eq_true hzero
      omega
    subst hi
    subst ho
    exact ⟨fun b hb => (runawayIn_addUsage_zero s.usage bucket b).trans (hcalm.hours b hb),
      fun k => (detects_addUsage_zero s.usage bucket (s.sweeps k)).trans (hcalm.sweeps k)⟩

/-- an hour that has not begun has no row yet -/
theorem runawayIn_future (hkept : Kept config s) {bucket : Int} (hbucket : s.hour < bucket) :
    runawayIn config s.usage bucket = false := by
  have hzero : tokensOf s.usage bucket = 0 := by
    refine tokensOf_eq_zero fun row hrow heq => ?_
    have := hkept.past row hrow
    omega
  rw [runawayIn, hzero]
  exact isRunawayDetected_of_lt (Nat.lt_of_lt_of_le Nat.zero_lt_one config.minPos)

theorem kept_unpause (hkept : Kept config s) (hsettled : Settled config s .unpause) :
    Kept config { s with row := some false, history := .unpaused :: s.history } where
  activations := ⟨trivial, hkept.activations⟩
  stays := rfl
  past := hkept.past
  recordings := hkept.recordings
  calm _ := by
    refine ⟨fun bucket hbucket => ?_, hsettled.2⟩
    rcases Int.lt_or_eq_of_le hbucket with hlt | heq
    · exact runawayIn_future hkept hlt
    · exact heq ▸ hsettled.1

theorem kept_activate (hkept : Kept config s) (hphase : s.sweeps k = .activating) :
    Kept config ({ s with row := some true, history := .activated :: s.history }.set k .ended) := by
  have hnot : quiet s.history = false := by
    rw [Bool.eq_false_iff]
    intro hquiet
    have hdetects := (hkept.calm hquiet).sweeps k
    rw [hphase] at hdetects
    cases hdetects
  have hkept' : Kept config { s with row := some true, history := .activated :: s.history } :=
    ⟨⟨⟨justified_of_not_quiet hnot, hkept.activations⟩, rfl⟩, hkept.past, hkept.recordings,
      fun hquiet => absurd hquiet (by rw [quiet, hnot]; exact Bool.false_ne_true)⟩
  exact hkept'.set fun _ => rfl

theorem kept_step (hkept : Kept config s) {a : Action} (hsettled : Settled config s a)
    (hstep : step config s a = some s') : Kept config s' := by
  cases a with
  | passTime hour =>
    cases hstep
    refine ⟨⟨hkept.activations, hkept.stays⟩, fun row hrow => (hkept.past row hrow).trans hsettled,
      fun c recording hc => (hkept.recordings c recording hc).trans hsettled, fun hquiet => ?_⟩
    have hcalm := hkept.calm hquiet
    exact ⟨fun bucket hbucket => hcalm.hours bucket (le_trans hsettled hbucket), hcalm.sweeps⟩
  | beginRecord c i o =>
    rw [KillSwitch.step] at hstep
    split at hstep
    next =>
      cases hstep
      refine ⟨⟨hkept.activations, hkept.stays⟩, hkept.past, fun j recording hj => ?_, fun hquiet =>
        ⟨(hkept.calm hquiet).hours, (hkept.calm hquiet).sweeps⟩⟩
      by_cases hjc : j = c
      · rw [hjc] at hj
        cases (Function.update_self c _ s.recordings).symm.trans hj
        exact le_refl s.hour
      · exact hkept.recordings j recording ((Function.update_of_ne hjc _ s.recordings).symm.trans hj)
    next => cases hstep
  | record c =>
    rw [KillSwitch.step] at hstep
    split at hstep
    next bucket i o hc =>
      cases hstep
      exact kept_record hkept hc
    next => cases hstep
  | unpause =>
    cases hstep
    exact kept_unpause hkept hsettled
  | checkRunaway k =>
    rw [KillSwitch.step] at hstep
    split at hstep
    next =>
      cases hstep
      exact hkept.set fun _ => rfl
    next => cases hstep
  | readActive k =>
    rw [KillSwitch.step] at hstep
    split at hstep
    next =>
      cases hstep
      refine hkept.set fun hcalm => ?_
      split
      · rfl
      · exact hcalm.hours s.hour (le_refl s.hour)
    next => cases hstep
  | readCurrent k =>
    rw [KillSwitch.step] at hstep
    split at hstep
    next bucket rows hphase =>
      cases hstep
      refine hkept.set fun hcalm => detects_afterRead s.usage ?_
      have hdetects := hcalm.sweeps k
      rwa [hphase] at hdetects
    next => cases hstep
  | readLookback k =>
    rw [KillSwitch.step] at hstep
    split at hstep
    next bucket current hphase =>
      cases hstep
      refine hkept.set fun hcalm => detects_afterRead s.usage ?_
      have hdetects := hcalm.sweeps k
      rwa [hphase] at hdetects
    next => cases hstep
  | activate k =>
    rw [KillSwitch.step] at hstep
    split at hstep
    next hphase =>
      cases hstep
      exact kept_activate hkept hphase
    next => cases hstep
  | throws k =>
    rw [KillSwitch.step] at hstep
    split at hstep
    next => cases hstep
    next => cases hstep
    next =>
      cases hstep
      exact hkept.set fun _ => rfl

theorem kept_init (config : BudgetConfig) (hour : Int) : Kept config (init hour) where
  activations := trivial
  stays := rfl
  past _ h := absurd h List.not_mem_nil
  recordings _ _ h := nomatch h
  calm h := nomatch h

end

/-! ## runs -/

theorem unpause_holds (config : BudgetConfig) (hour : Int) (as : List Action) (s : KillSwitch)
    (hsettled : Runs.Guarded (step config) (Settled config) (init hour) as)
    (hrun : Runs.run (step config) (init hour) as = some s) : UnpauseHolds s := by
  have hkept : Kept config s := Runs.run_inv_guarded (P := Kept config)
    (fun s a t hs ha hstep => kept_step hs ha hstep) as (init hour) s (kept_init config hour) hsettled hrun
  exact hkept.toUnpauseHolds

/-! ## an hour that stays the same, and one that has passed -/

/-- the sweep that an action is a step of -/
def Action.sweep : Action → Option SweepId
  | .passTime _ | .beginRecord .. | .record _ | .unpause => none
  | .checkRunaway k | .readActive k | .readCurrent k | .readLookback k | .activate k | .throws k => some k

theorem step_other {config : BudgetConfig} {s s' : KillSwitch} {a : Action} {k : SweepId}
    (hstep : step config s a = some s') (hk : a.sweep ≠ some k) : s'.sweeps k = s.sweeps k := by
  have hne : ∀ (j : SweepId) (phase : Phase), some j ≠ some k →
      Function.update s.sweeps j phase k = s.sweeps k :=
    fun j phase hj => Function.update_of_ne (fun he => hj (congrArg some he.symm)) phase s.sweeps
  cases a with
  | passTime hour | unpause =>
    cases hstep
    rfl
  | beginRecord c i o | record c =>
    rw [KillSwitch.step] at hstep
    split at hstep <;> cases hstep
    rfl
  | checkRunaway j | readActive j | readCurrent j | readLookback j | activate j | throws j =>
    rw [KillSwitch.step] at hstep
    split at hstep <;> cases hstep
    all_goals exact hne j _ hk

theorem one_le_thousand : 1 ≤ 1000 := by decide

/-- more than twice the average of a day, and at least a thousand tokens -/
def twiceTheDay : BudgetConfig := ⟨2, 24, 1000, one_le_thousand⟩

/-- one token in an hour, five thousand in the next, and a sweep -/
def runaway : List Action :=
  [.beginRecord 0 1 0, .record 0, .passTime 3600000, .beginRecord 1 5000 0, .record 1, .checkRunaway 1,
    .readActive 1, .readCurrent 1, .readLookback 1, .activate 1]

/-- the switch is unpaused in the hour of the activation, and the next sweep comes -/
def sameHour : List Action :=
  [.unpause, .checkRunaway 2, .readActive 2, .readCurrent 2, .readLookback 2, .activate 2]

theorem reactivated : ∃ s, Runs.run (step twiceTheDay) (init 0) (runaway ++ sameHour) = some s ∧
    ¬ UnpauseHolds s := by
  have hrun : (Runs.run (step twiceTheDay) (init 0) (runaway ++ sameHour)).map (fun s => s.history)
      = some [.activated, .unpaused, .activated, .recorded 5000, .recorded 1] := by decide +kernel
  obtain ⟨s, hs, hhistory⟩ := Option.map_eq_some_iff.mp hrun
  refine ⟨s, hs, fun hholds => ?_⟩
  have hactivations := hholds.activations
  rw [hhistory] at hactivations
  obtain ⟨tokens, -, hmem⟩ := hactivations.1 [] _ rfl
  cases hmem

/-- a check of `Settled` for the steps that are no unpause -/
def settledCheck (s : KillSwitch) : Action → Bool
  | .unpause => false
  | .passTime hour => s.hour ≤ hour
  | _ => true

theorem settled_of_check {config : BudgetConfig} {s : KillSwitch} {a : Action}
    (h : settledCheck s a = true) : Settled config s a := by
  cases a with
  | unpause => cases h
  | passTime hour =>
    have hle : s.hour ≤ hour := of_decide_eq_true h
    exact hle
  | _ => trivial

/-- two days later -/
def toNextDays : List Action := runaway ++ [.passTime 172800000]

theorem settled_nextDays {s : KillSwitch}
    (hrun : Runs.run (step twiceTheDay) (init 0) toNextDays = some s) :
    Settled twiceTheDay s .unpause := by
  have hsome : (Runs.run (step twiceTheDay) (init 0) toNextDays).map (fun s =>
      (runawayIn twiceTheDay s.usage s.hour, s.sweeps 1)) = some (false, .ended) := by decide +kernel
  rw [hrun, Option.map_some, Option.some.injEq, Prod.mk.injEq] at hsome
  refine ⟨hsome.1, fun k => ?_⟩
  by_cases hk : k = 1
  · rw [hk, hsome.2]
    rfl
  · have hidle : s.sweeps k = .idle :=
      Runs.run_inv_guarded (P := fun s => s.sweeps k = .idle)
        (fun s a t hs ha hstep => (step_other hstep ha).trans hs) toNextDays (init 0) s rfl
        (Runs.guarded_of_forall (G := fun a => a.sweep ≠ some k) toNextDays (init 0)
          (by simpa [toNextDays, runaway, Action.sweep] using Ne.symm hk)) hrun
    rw [hidle]
    rfl

theorem unpause_holds_nextDays : ∃ s, Runs.run (step twiceTheDay) (init 0)
      (toNextDays ++ .unpause :: [.checkRunaway 2, .readActive 2, .readCurrent 2, .readLookback 2])
      = some s ∧ s.sweeps 2 = .ended ∧ UnpauseHolds s := by
  have hrun : (Runs.run (step twiceTheDay) (init 0) (toNextDays ++ .unpause ::
      [.checkRunaway 2, .readActive 2, .readCurrent 2, .readLookback 2])).map (fun s => s.sweeps 2)
      = some .ended := by decide +kernel
  obtain ⟨s, hs, hended⟩ := Option.map_eq_some_iff.mp hrun
  refine ⟨s, hs, hended, unpause_holds twiceTheDay 0 _ s ?_ hs⟩
  refine (Runs.guarded_append _ _ _).mpr ⟨?_, fun t ht => ⟨settled_nextDays ht, fun u _ => ?_⟩⟩
  · exact Runs.guarded_of_checkAll (fun _ _ => settled_of_check) _ _ (by decide +kernel)
  · exact ⟨trivial, fun _ _ => ⟨trivial, fun _ _ => ⟨trivial, fun _ _ => ⟨trivial, fun _ _ => trivial⟩⟩⟩⟩

end Budget.Runaway
