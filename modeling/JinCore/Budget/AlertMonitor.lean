import JinCore.Js.Date
import JinCore.Lib.Runs
import Mathlib.Data.Rat.Defs
import Mathlib.Algebra.Order.Ring.Rat

/-!
# The alerts of the budget (`budget-alert.monitor.ts`, `budget-time.ts`)

Every five minutes the monitor looks at the kill switch and at the usage of the day.  The usage is
kept by the local date; the monitor has a marker of its own for the day.

* `todayLocalDate`, `dayMarker`   the local date, and the date of `toISOString`;
* `notifyThresholds`   the loop over the thresholds; `mem_notified`, `mem_emitted`;
* `Monitor.step`       one check, or a change of the usage;
* `FiresOnce`          a threshold is emitted at the first check of a day that reaches it, and only then;
* `Aligned`            the marker changes where the local date does;
* `fires_once`, `fires_twice`.
-/

namespace Budget.Alerts
open JsString JsDate

/-- a value of `number`, which is a fraction -/
abbrev Ratio := ℚ

/-- the double next to 0.8, and 1 -/
def dailyAlertThresholds : List Ratio := [3602879701896397 / 4503599627370496, 1]

/-! ## days -/

/-- `zone` is what the local time is ahead of UTC, in milliseconds -/
def todayLocalDate (zone : JsDate → Int) (now : JsDate) : JsString :=
  let localDay := (now.time + zone now) / 86400000
  let year := yearFromDay localDay
  let rest := monthDay (monthLengths year) (localDay - dayFromYear year).toNat
  lit (toString year) ++ lit "-" ++ ofChars (digits 2 (rest.1 + 1)) ++ lit "-"
    ++ ofChars (digits 2 (rest.2 + 1))

/-- `new Date().toISOString().slice(0, 10)` -/
def dayMarker (now : JsDate) : JsString := ⟨now.toISOString.units.take 10⟩

/-! ## the thresholds -/

structure ThresholdCrossed where
  ratio : Ratio
  threshold : Ratio
  deriving DecidableEq

/-- the loop over the thresholds: the ones that are notified after it, and the events -/
def notifyThresholds (ratio : Ratio) : List Ratio → List Ratio → List Ratio × List ThresholdCrossed
  | [], notified => (notified, [])
  | threshold :: rest, notified =>
    if ratio ≥ threshold ∧ threshold ∉ notified then
      let after := notifyThresholds ratio rest (threshold :: notified)
      (after.1, ⟨ratio, threshold⟩ :: after.2)
    else notifyThresholds ratio rest notified

section
variable {ratio threshold : Ratio} {thresholds notified : List Ratio}

theorem mem_notified : threshold ∈ (notifyThresholds ratio thresholds notified).1 ↔
    threshold ∈ notified ∨ threshold ∈ thresholds ∧ threshold ≤ ratio := by
  induction thresholds generalizing notified with
  | nil => simp [notifyThresholds]
  | cons first rest ih =>
    rw [notifyThresholds]
    split
    next hfirst =>
      rw [ih, List.mem_cons, List.mem_cons]
      constructor
      · rintro ((rfl | hmem) | ⟨hmem, hle⟩)
        · exact Or.inr ⟨Or.inl rfl, hfirst.1⟩
        · exact Or.inl hmem
        · exact Or.inr ⟨Or.inr hmem, hle⟩
      · rintro (hmem | ⟨rfl | hmem, hle⟩)
        · exact Or.inl (Or.inr hmem)
        · exact Or.inl (Or.inl rfl)
        · exact Or.inr ⟨hmem, hle⟩
    next hfirst =>
      rw [ih, List.mem_cons]
      constructor
      · rintro (hmem | ⟨hmem, hle⟩)
        · exact Or.inl hmem
        · exact Or.inr ⟨Or.inr hmem, hle⟩
      · rintro (hmem | ⟨rfl | hmem, hle⟩)
        · exact Or.inl hmem
        · exact Or.inl (by_contra fun hnot => hfirst ⟨hle, hnot⟩)
        · exact Or.inr ⟨hmem, hle⟩

theorem mem_emitted {event : ThresholdCrossed} :
    event ∈ (notifyThresholds ratio thresholds notified).2 ↔
      event.ratio = ratio ∧ event.threshold ∈ thresholds ∧ event.threshold ≤ ratio ∧
        event.threshold ∉ notified := by
  induction thresholds generalizing notified with
  | nil => simp [notifyThresholds]
  | cons first rest ih =>
    rw [notifyThresholds]
    split
    next hfirst =>
      rw [List.mem_cons, ih, List.mem_cons, List.mem_cons, not_or]
      constructor
      · rintro (rfl | ⟨hratio, hmem, hle, -, hnot⟩)
        · exact ⟨rfl, Or.inl rfl, hfirst.1, hfirst.2⟩
        · exact ⟨hratio, Or.inr hmem, hle, hnot⟩
      · rintro ⟨hratio, hmem, hle, hnot⟩
        by_cases heq : event.threshold = first
        · left
          cases event
          rw [ThresholdCrossed.mk.injEq]
          exact ⟨hratio, heq⟩
        · exact Or.inr ⟨hratio, hmem.resolve_left heq, hle, heq, hnot⟩
    next hfirst =>
      rw [ih, List.mem_cons]
      constructor
      · rintro ⟨hratio, hmem, hrest⟩
        exact ⟨hratio, Or.inr hmem, hrest⟩
      · rintro ⟨hratio, hmem, hle, hnot⟩
        refine ⟨hratio, hmem.resolve_left ?_, hle, hnot⟩
        rintro rfl
        exact hfirst ⟨hle, hnot⟩

/-- one run of the loop emits nothing twice -/
theorem nodup_emitted :
    ((notifyThresholds ratio thresholds notified).2.map ThresholdCrossed.threshold).Nodup := by
  induction thresholds generalizing notified with
  | nil => exact List.nodup_nil
  | cons first rest ih =>
    rw [notifyThresholds]
    split
    next =>
      rw [List.map_cons, List.nodup_cons]
      refine ⟨fun hmem => ?_, ih⟩
      obtain ⟨event, hevent, heq⟩ := List.mem_map.mp hmem
      exact (mem_emitted.mp hevent).2.2.2 (heq ▸ List.mem_cons_self)
    next => exact ih

end

/-! ## the monitor -/

structure KillSwitchStatus where
  active : Bool
  reason : Option JsString
  activatedAt : Option JsDate
  deriving DecidableEq

inductive Event where
  | killSwitchActivated (reason : Option JsString) (activatedAt : Option JsDate)
  | thresholdCrossed (event : ThresholdCrossed)
  deriving DecidableEq

/-- a check that got to the thresholds: the day whose usage it asked for, what it was told, and the
thresholds it emitted -/
structure Check where
  day : JsString
  ratio : Option Ratio
  emitted : List ThresholdCrossed
  deriving DecidableEq

structure Monitor where
  notifiedThresholdsToday : List Ratio
  lastResetDate : JsString
  lastKillSwitchActive : Bool
  /-- what has been emitted, oldest first -/
  events : List Event
  /-- the row of each local date -/
  usage : JsString → Ratio
  /-- newest first -/
  checks : List Check

inductive Action where
  | recordUsage (day : JsString) (ratio : Ratio)
  /-- the status of the kill switch, or none if it throws; the clock as the marker reads it and as
  `getDailyUsage` does; whether the read of the usage succeeds -/
  | check (status : Option KillSwitchStatus) (now : JsDate) (usageNow : JsDate) (read : Bool)

namespace Monitor
variable (zone : JsDate → Int)

def checkKillSwitch (s : Monitor) (status : KillSwitchStatus) : Monitor :=
  { s with
    events := if status.active ∧ !s.lastKillSwitchActive then
      s.events ++ [.killSwitchActivated status.reason status.activatedAt] else s.events
    lastKillSwitchActive := status.active }

/-- a new day by the marker forgets what was notified -/
def resetDay (s : Monitor) (today : JsString) : Monitor :=
  if today ≠ s.lastResetDate then { s with notifiedThresholdsToday := [], lastResetDate := today }
  else s

def checkDailyThresholds (s : Monitor) (now usageNow : JsDate) (read : Bool) : Monitor :=
  let s := s.resetDay (dayMarker now)
  let day := todayLocalDate zone usageNow
  if read then
    let ratio := s.usage day
    let after := notifyThresholds ratio dailyAlertThresholds s.notifiedThresholdsToday
    { s with
      notifiedThresholdsToday := after.1
      events := s.events ++ after.2.map .thresholdCrossed
      checks := ⟨day, some ratio, after.2⟩ :: s.checks }
  else { s with checks := ⟨day, none, []⟩ :: s.checks }

def step (s : Monitor) : Action → Option Monitor
  | .recordUsage day ratio =>
    some { s with usage := fun d => if d = day then ratio else s.usage d }
  | .check none _ _ _ => some s
  | .check (some status) now usageNow read =>
    some ((s.checkKillSwitch status).checkDailyThresholds zone now usageNow read)

def init : Monitor where
  notifiedThresholdsToday := []
  lastResetDate := lit ""
  lastKillSwitchActive := false
  events := []
  usage := fun _ => 0
  checks := []

end Monitor

/-! ## once a day -/

def Reached (check : Check) (threshold : Ratio) : Prop :=
  ∃ ratio, check.ratio = some ratio ∧ threshold ≤ ratio

/-- the check emits a threshold if it is the first of its day to reach it, and only then -/
def Fires (check : Check) (earlier : List Check) : Prop :=
  (check.emitted.map ThresholdCrossed.threshold).Nodup ∧
    ∀ threshold ∈ dailyAlertThresholds, threshold ∈ check.emitted.map ThresholdCrossed.threshold ↔
      Reached check threshold ∧ ∀ c ∈ earlier, c.day = check.day → ¬ Reached c threshold

def Event.threshold? : Event → Option ThresholdCrossed
  | .killSwitchActivated _ _ => none
  | .thresholdCrossed event => some event

structure FiresOnce (s : Monitor) : Prop where
  events : s.events.filterMap Event.threshold? = s.checks.reverse.flatMap Check.emitted
  fires : Runs.Each Fires s.checks

/-- the marker has changed since the check before exactly if the local date has, and a local date does
not come back -/
def Aligned (zone : JsDate → Int) (s : Monitor) : Action → Prop
  | .check (some _) now usageNow _ =>
    if dayMarker now = s.lastResetDate then
      s.checks.head?.map Check.day = some (todayLocalDate zone usageNow)
    else ∀ c ∈ s.checks, c.day ≠ todayLocalDate zone usageNow
  | _ => True

instance (zone : JsDate → Int) (s : Monitor) (a : Action) : Decidable (Aligned zone s a) := by
  unfold Aligned
  split <;> infer_instance

/-! ### the invariant -/

/-- a check of the day has reached the threshold -/
def ReachedOn (checks : List Check) (day : JsString) (threshold : Ratio) : Prop :=
  ∃ c ∈ checks, c.day = day ∧ Reached c threshold

structure Kept (s : Monitor) : Prop extends FiresOnce s where
  notified : ∀ day, s.checks.head?.map Check.day = some day → ∀ threshold ∈ dailyAlertThresholds,
    threshold ∈ s.notifiedThresholdsToday ↔ ReachedOn s.checks day threshold

section
variable {zone : JsDate → Int} {s s' : Monitor} {now usageNow : JsDate} {day : JsString}

theorem kept_checkKillSwitch (hkept : Kept s) (status : KillSwitchStatus) :
    Kept (s.checkKillSwitch status) where
  events := by
    show (if status.active ∧ !s.lastKillSwitchActive then
      s.events ++ [Event.killSwitchActivated status.reason status.activatedAt]
      else s.events).filterMap Event.threshold? = _
    split
    · rw [List.filterMap_append]
      exact (List.append_nil _).trans hkept.events
    · exact hkept.events
  fires := hkept.fires
  notified := hkept.notified

/-- after the reset, what is notified is what the day has reached -/
theorem mem_resetDay {read : Bool} {status : KillSwitchStatus} (hkept : Kept s)
    (haligned : Aligned zone s (.check (some status) now usageNow read)) {threshold : Ratio}
    (hmem : threshold ∈ dailyAlertThresholds) :
    threshold ∈ (s.resetDay (dayMarker now)).notifiedThresholdsToday ↔
      ReachedOn s.checks (todayLocalDate zone usageNow) threshold := by
  rw [Aligned] at haligned
  rw [Monitor.resetDay]
  by_cases hmarker : dayMarker now = s.lastResetDate
  · rw [if_pos hmarker] at haligned
    rw [if_neg (not_not_intro hmarker)]
    exact hkept.notified _ haligned threshold hmem
  · rw [if_neg hmarker] at haligned
    rw [if_pos hmarker]
    constructor
    · exact fun h => absurd h List.not_mem_nil
    · rintro ⟨c, hc, hday, -⟩
      exact absurd hday (haligned c hc)

theorem resetDay_checks (today : JsString) : (s.resetDay today).checks = s.checks := by
  rw [Monitor.resetDay]
  split <;> rfl

theorem resetDay_events (today : JsString) : (s.resetDay today).events = s.events := by
  rw [Monitor.resetDay]
  split <;> rfl

theorem resetDay_usage (today : JsString) : (s.resetDay today).usage = s.usage := by
  rw [Monitor.resetDay]
  split <;> rfl

theorem reachedOn_cons {check : Check} {checks : List Check} {threshold : Ratio}
    (hday : check.day = day) : ReachedOn (check :: checks) day threshold ↔
      Reached check threshold ∨ ReachedOn checks day threshold := by
  constructor
  · rintro ⟨c, hc, hcday, hreached⟩
    rcases List.mem_cons.mp hc with rfl | hc
    · exact Or.inl hreached
    · exact Or.inr ⟨c, hc, hcday, hreached⟩
  · rintro (hreached | ⟨c, hc, hcday, hreached⟩)
    · exact ⟨check, List.mem_cons_self, hday, hreached⟩
    · exact ⟨c, List.mem_cons_of_mem _ hc, hcday, hreached⟩

/-- a check that read no usage reaches nothing and emits nothing -/
theorem kept_unread (hkept : Kept s) {t : Monitor} (hchecks : t.checks = s.checks)
    (hevents : t.events = s.events)
    (hnotified : ∀ threshold ∈ dailyAlertThresholds,
      threshold ∈ t.notifiedThresholdsToday ↔ ReachedOn s.checks day threshold) :
    Kept { t with checks := ⟨day, none, []⟩ :: t.checks } := by
  have hnone : ∀ threshold, ¬ Reached ⟨day, none, []⟩ threshold := by
    rintro threshold ⟨ratio, hratio, -⟩
    cases hratio
  refine ⟨⟨?_, ?_⟩, fun day' hday' threshold hmem => ?_⟩
  · show t.events.filterMap Event.threshold? = ((⟨day, none, []⟩ : Check) :: t.checks).reverse.flatMap _
    rw [hevents, hchecks, hkept.events, List.reverse_cons, List.flatMap_append]
    exact (List.append_nil _).symm
  · show Runs.Each Fires (_ :: t.checks)
    rw [hchecks]
    refine ⟨⟨List.nodup_nil, fun threshold _ => ?_⟩, hkept.fires⟩
    constructor
    · exact fun h => absurd h List.not_mem_nil
    · exact fun h => absurd h.1 (hnone threshold)
  · have hday : day = day' := Option.some.inj hday'
    subst hday
    show _ ↔ ReachedOn (_ :: t.checks) day threshold
    rw [reachedOn_cons rfl, hchecks, or_iff_right (hnone threshold)]
    exact hnotified threshold hmem

/-- a check that read the usage -/
theorem kept_read (hkept : Kept s) {t : Monitor} (hchecks : t.checks = s.checks)
    (hevents : t.events = s.events) (ratio : Ratio)
    (hnotified : ∀ threshold ∈ dailyAlertThresholds,
      threshold ∈ t.notifiedThresholdsToday ↔ ReachedOn s.checks day threshold) :
    Kept { t with
      notifiedThresholdsToday :=
        (notifyThresholds ratio dailyAlertThresholds t.notifiedThresholdsToday).1
      events := t.events ++
        (notifyThresholds ratio dailyAlertThresholds t.notifiedThresholdsToday).2.map .thresholdCrossed
      checks := ⟨day, some ratio,
        (notifyThresholds ratio dailyAlertThresholds t.notifiedThresholdsToday).2⟩ :: t.checks } := by
  let emitted := (notifyThresholds ratio dailyAlertThresholds t.notifiedThresholdsToday).2
  have hreached : ∀ threshold, Reached ⟨day, some ratio, emitted⟩ threshold ↔ threshold ≤ ratio := by
    intro threshold
    constructor
    · rintro ⟨r, hr, hle⟩
      cases hr
      exact hle
    · exact fun hle => ⟨ratio, rfl, hle⟩
  refine ⟨⟨?_, ?_⟩, fun day' hday' threshold hmem => ?_⟩
  · show (t.events ++ emitted.map Event.thresholdCrossed).filterMap Event.threshold?
      = ((⟨day, some ratio, emitted⟩ : Check) :: t.checks).reverse.flatMap Check.emitted
    have hself : (emitted.map Event.thresholdCrossed).filterMap Event.threshold? = emitted := by
      rw [List.filterMap_map]
      exact List.filterMap_some
    rw [List.filterMap_append, hself, hevents, hchecks, hkept.events, List.reverse_cons,
      List.flatMap_append]
    congr 1
    exact (List.append_nil _).symm
  · show Runs.Each Fires (_ :: t.checks)
    rw [hchecks]
    refine ⟨⟨nodup_emitted, fun threshold hmem => ?_⟩, hkept.fires⟩
    -- what the loop emits is reached, and was not notified
    have hemitted : threshold ∈ emitted.map ThresholdCrossed.threshold ↔
        threshold ≤ ratio ∧ ¬ ReachedOn s.checks day threshold := by
      rw [← hnotified threshold hmem, List.mem_map]
      constructor
      · rintro ⟨event, hevent, rfl⟩
        exact (mem_emitted.mp hevent).2.2
      · rintro ⟨hle, hnot⟩
        exact ⟨⟨ratio, threshold⟩, mem_emitted.mpr ⟨rfl, hmem, hle, hnot⟩, rfl⟩
    have hearlier : ¬ ReachedOn s.checks day threshold ↔
        ∀ c ∈ s.checks, c.day = day → ¬ Reached c threshold := by
      constructor
      · exact fun hnot c hc hday hr => hnot ⟨c, hc, hday, hr⟩
      · rintro hall ⟨c, hc, hday, hr⟩
        exact hall c hc hday hr
    exact hemitted.trans (and_congr (hreached threshold).symm hearlier)
  · have hday : day = day' := Option.some.inj hday'
    subst hday
    show threshold ∈ (notifyThresholds ratio dailyAlertThresholds t.notifiedThresholdsToday).1 ↔
      ReachedOn (⟨day, some ratio, emitted⟩ :: t.checks) day threshold
    rw [reachedOn_cons rfl, hchecks, hreached, mem_notified, hnotified threshold hmem,
      and_iff_right hmem, or_comm]

theorem kept_step (hkept : Kept s) {a : Action} (haligned : Aligned zone s a)
    (hstep : Monitor.step zone s a = some s') : Kept s' := by
  cases a with
  | recordUsage day ratio =>
    cases hstep
    exact ⟨⟨hkept.events, hkept.fires⟩, hkept.notified⟩
  | check status now usageNow read =>
    cases status with
    | none =>
      cases hstep
      exact hkept
    | some status =>
      cases hstep
      have hswitch := kept_checkKillSwitch hkept status
      have haligned' : Aligned zone (s.checkKillSwitch status) (.check (some status) now usageNow read) :=
        haligned
      have hday := fun threshold (hmem : threshold ∈ dailyAlertThresholds) =>
        mem_resetDay hswitch haligned' hmem
      rw [Monitor.checkDailyThresholds]
      cases read with
      | false => exact kept_unread hswitch (resetDay_checks _) (resetDay_events _) hday
      | true => exact kept_read hswitch (resetDay_checks _) (resetDay_events _) _ hday

theorem kept_init : Kept Monitor.init where
  events := rfl
  fires := trivial
  notified _ h := nomatch h

end

/-! ## runs -/

theorem fires_once (zone : JsDate → Int) (as : List Action) (s : Monitor)
    (haligned : Runs.Guarded (Monitor.step zone) (Aligned zone) Monitor.init as)
    (hrun : Runs.run (Monitor.step zone) Monitor.init as = some s) : FiresOnce s := by
  have hkept : Kept s := Runs.run_inv_guarded (fun s a t hs ha hstep => kept_step hs ha hstep)
    as Monitor.init s kept_init haligned hrun
  exact hkept.toFiresOnce

/-- a marker is never the empty one that the monitor starts with -/
theorem dayMarker_ne_empty (now : JsDate) : dayMarker now ≠ lit "" := by
  intro h
  have hlength : (now.toISOString.units.take 10).length = 0 :=
    congrArg (fun marker => marker.units.length) h
  have hunits : now.isoChars.length ≤ now.toISOString.units.length := length_le_units now.isoChars
  have hiso := length_isoChars now
  rw [List.length_take] at hlength
  omega

/-- the first check is aligned -/
theorem aligned_first (zone : JsDate → Int) (status : KillSwitchStatus) (now usageNow : JsDate)
    (read : Bool) : Aligned zone Monitor.init (.check (some status) now usageNow read) := by
  have hne : dayMarker now ≠ Monitor.init.lastResetDate := dayMarker_ne_empty now
  rw [Aligned, if_neg hne]
  exact fun c hc => absurd hc List.not_mem_nil

theorem before_valid :
    (-8640000000000000 : Int) ≤ 1767311880000 ∧ (1767311880000 : Int) ≤ 8640000000000000 := by
  decide

theorem after_valid :
    (-8640000000000000 : Int) ≤ 1767312180000 ∧ (1767312180000 : Int) ≤ 8640000000000000 := by
  decide

/-- 2026-01-01T23:58Z and five minutes later -/
def beforeMidnight : JsDate := ⟨1767311880000, before_valid⟩
def afterMidnight : JsDate := ⟨1767312180000, after_valid⟩

def notPaused : KillSwitchStatus := ⟨false, none, none⟩

/-- the usage of the first of January is at nine tenths for two checks -/
def twoChecks : List Action :=
  [.recordUsage (lit "2026-01-01") (9 / 10), .check (some notPaused) beforeMidnight beforeMidnight true,
    .check (some notPaused) afterMidnight afterMidnight true]

theorem fires_once_utc :
    ∃ s, Runs.run (Monitor.step fun _ => 0) Monitor.init twoChecks = some s ∧ FiresOnce s := by
  have hrun : (Runs.run (Monitor.step fun _ => 0) Monitor.init twoChecks).isSome = true := rfl
  obtain ⟨s, hs⟩ := Option.isSome_iff_exists.mp hrun
  exact ⟨s, hs, fires_once _ twoChecks s
    (Runs.guarded_of_checkAll (c := fun s a => decide (Aligned (fun _ => 0) s a))
      (fun _ _ => of_decide_eq_true) _ _ (by decide)) hs⟩

/-- `America/Lima` -/
def lima : JsDate → Int := fun _ => -18000000

/-- both checks are in the evening of the first of January, and UTC changes its date between them -/
theorem fires_twice :
    ∃ s, Runs.run (Monitor.step lima) Monitor.init twoChecks = some s ∧ ¬ FiresOnce s := by
  let day := lit "2026-01-01"
  let emitted : List ThresholdCrossed := [⟨9 / 10, 3602879701896397 / 4503599627370496⟩]
  have hrun : (Runs.run (Monitor.step lima) Monitor.init twoChecks).map (fun s => s.checks)
      = some [⟨day, some (9 / 10), emitted⟩, ⟨day, some (9 / 10), emitted⟩] := by decide +kernel
  obtain ⟨s, hs, hchecks⟩ := Option.map_eq_some_iff.mp hrun
  refine ⟨s, hs, fun honce => ?_⟩
  have hfires := honce.fires
  rw [hchecks] at hfires
  have hsecond := (hfires.1.2 (3602879701896397 / 4503599627370496) List.mem_cons_self).mp
    List.mem_cons_self
  obtain ⟨ratio, hratio, hle⟩ := hsecond.1
  exact hsecond.2 _ List.mem_cons_self rfl ⟨ratio, hratio, hle⟩

end Budget.Alerts
