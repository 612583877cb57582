import JinCore.Autonomy.Steps

/-!
# What a change of mode without an approval does to the protection

* `NeverLaxer`        a request leaves the mode at most as permissive as it would be without it;
* `erase_run`         the same schedule without the labels of the request;
* `Requesting`, `requesting_step`   what a request has read when it writes;
* `Safe`, `safe_step` the mode after a request to `supervised`;
* `probes`            tool calls that the circuit breaker counts in `auto` but not in `semi-auto`;
* `never_laxer_iff`   the request is never laxer exactly when it asks for `supervised`, or comes after
                      its own expiry;
* `semi_auto_outlasts_auto`   one hour of `auto` becomes a day of `semi-auto`.
-/

namespace Autonomy
open JsString Common Tools Hitl Runs

/-- labels whose clocks go from one instant to another -/
def Clocked : Int → List AutonomyLabel → Int → Prop
  | u, [], t => u ≤ t
  | u, l :: ls, t => u ≤ l.now ∧ Clocked l.now ls t

/-- an applied request leaves the mode at every later instant at most as permissive as it would be
in the same schedule without the request: whatever tool calls and expiries run in between -/
def NeverLaxer (service : AutonomyService) (s₀ : AutonomySystem) (id : CallId)
    (ls : List AutonomyLabel) (reply : Reply) : Prop :=
  ∀ ls' t a b mode expiresAt, (∀ l ∈ ls', Background s₀ id l) → Clocked reply.now ls' t →
    run (step service) s₀ (ls ++ .go id reply :: ls') = some a →
    a.pc id = .done (.returned (.applied mode expiresAt)) →
    run (step service) s₀ ((ls ++ .go id reply :: ls').filter fun l => l.id ≠ id) = some b →
    autonomyOrdinal (modeAt a t) ≤ autonomyOrdinal (modeAt b t)

section
variable {service : AutonomyService} {s s' t : AutonomySystem} {id : CallId} {reply : Reply}
  {row : Option AutonomyRow} {l : AutonomyLabel}

/-! ## the same schedule without a request -/

/-- a request that has not come to its update -/
def Pc.unwritten : Pc → Bool
  | .idle | .request _ (.getState _) | .request _ (.write _ (.readPrevious _))
  | .request _ (.write _ (.auditBefore _ _)) | .request _ (.write _ (.update _ _)) => true
  | _ => false

theorem toPc_unwritten {π : Type} {f : π → Pc} (hf : ∀ pc, (f pc).unwritten = false)
    (next : Next π) : (next.toPc f).unwritten = false := by
  cases next with
  | goto pc => exact hf pc
  | finish outcome => rfl

theorem request_unwritten {input : ModeChangeInput} {pc : RequestPc}
    (ht : ((requestModeChange service row id input reply pc).next.toPc (.request input)).unwritten
      = true) :
    (Pc.request input pc).unwritten = true ∧
      (requestModeChange service row id input reply pc).row = row := by
  cases pc with
  | getState now =>
    refine ⟨rfl, ?_⟩
    simp only [requestModeChange]
    split
    · split <;> rfl
    · rfl
  | createPending hours =>
    simp only [requestModeChange] at ht
    split at ht <;> cases ht
  | write hours pc =>
    cases pc with
    | readPrevious now =>
      refine ⟨rfl, ?_⟩
      simp only [requestModeChange, writeState]
      split <;> rfl
    | auditBefore now previous => exact ⟨rfl, rfl⟩
    | update now previous =>
      simp only [requestModeChange, writeState, Move.map] at ht
      split at ht <;> cases ht
    | auditAfter now previous => cases ht

theorem go_unwritten (ht : ((s.go service id reply).pc id).unwritten = true) :
    (s.pc id).unwritten = true ∧ (s.go service id reply).row = s.row := by
  unfold AutonomySystem.go at ht ⊢
  cases hpc : s.pc id with
  | idle => exact ⟨rfl, rfl⟩
  | done outcome =>
    simp only [hpc] at ht
    cases ht
  | request input pc =>
    simp only [hpc, apply_pc_self] at ht
    exact request_unwritten ht
  | relax decision tool pc =>
    simp only [hpc, apply_pc_self] at ht
    rw [toPc_unwritten (fun _ => rfl)] at ht
    cases ht
  | approved payload pc =>
    simp only [hpc, apply_pc_self] at ht
    rw [toPc_unwritten (fun _ => rfl)] at ht
    cases ht
  | expire now pc =>
    simp only [hpc, apply_pc_self] at ht
    rw [toPc_unwritten (fun _ => rfl)] at ht
    cases ht

/-- until its update a request changes nothing -/
theorem unwritten_step (hl : l.id = id) (h : step service s l = some t)
    (ht : (t.pc id).unwritten = true) : (s.pc id).unwritten = true ∧ SameBut id s t := by
  subst hl
  cases l with
  | begin i op now =>
    obtain ⟨hi, rfl⟩ := step_begin h
    have hu : (s.pc i).unwritten = true := by
      rw [hi]
      rfl
    exact ⟨hu, rfl, fun j hj => if_neg hj⟩
  | go i reply =>
    cases h
    obtain ⟨hu, hrow⟩ := go_unwritten ht
    exact ⟨hu, hrow, fun j hj => go_pc_other hj⟩

/-- what a request has read and others have done is the same run without the request -/
theorem erase_run (id : CallId) {ls : List AutonomyLabel} :
    ∀ {s t : AutonomySystem}, run (step service) s ls = some t → (t.pc id).unwritten = true →
      (s.pc id).unwritten = true ∧
        ∃ t', run (step service) s (ls.filter fun l => l.id ≠ id) = some t' ∧ SameBut id t t' := by
  induction ls with
  | nil =>
    intro s t h ht
    cases h
    exact ⟨ht, s, rfl, rfl, fun _ _ => rfl⟩
  | cons l ls ih =>
    intro s t h ht
    obtain ⟨u, hu, hrest⟩ := run_cons_some.mp h
    obtain ⟨huw, t', ht', hsame⟩ := ih hrest ht
    by_cases hl : l.id = id
    · obtain ⟨hsw, hsu⟩ := unwritten_step hl hu huw
      refine ⟨hsw, ?_⟩
      rw [List.filter_cons_of_neg (by simpa using hl)]
      obtain ⟨v, hv, hvt⟩ := SameBut.run (fun l hl => by simpa using (List.mem_filter.mp hl).2)
        (⟨hsu.row.symm, fun i hi => (hsu.pc i hi).symm⟩ : SameBut id u s) ht'
      exact ⟨v, hv, hvt.row.trans hsame.row, fun i hi => (hvt.pc i hi).trans (hsame.pc i hi)⟩
    · have hsw : (s.pc id).unwritten = true := by
        rw [← step_pc_other hu (Ne.symm hl)]
        exact huw
      refine ⟨hsw, t', ?_, hsame⟩
      rw [List.filter_cons_of_pos (by simpa using hl)]
      exact run_cons_some.mpr ⟨u, hu, ht'⟩

/-! ## what a request has read -/

/-- a request that writes goes to `supervised`, or has read `auto` and goes to `semi-auto` -/
def RequestFact (config : AutonomyConfig) (input : ModeChangeInput) (row : Option AutonomyRow) :
    RequestPc → Prop
  | .write _ (.auditAfter _ _) => True
  | .write hours _ => input.mode = .supervised ∨
      (input.mode = .semiAuto ∧ hours = clampHours input.hours (config.limitsFor input.mode) ∧
        ∀ r, row = some r → r.mode ≠ .semiAuto)
  | _ => True

theorem RequestFact.decays {config : AutonomyConfig} {input : ModeChangeInput}
    {row' : Option AutonomyRow} {pc : RequestPc} (hf : RequestFact config input row pc)
    (hd : Decays row row') : RequestFact config input row' pc := by
  have hrow : (∀ r, row = some r → r.mode ≠ .semiAuto) → ∀ r, row' = some r → r.mode ≠ .semiAuto := by
    intro h r' hr'
    obtain ⟨r, hr, hm | ⟨hm, _⟩⟩ := hd r' hr'
    · rw [hm]
      decide
    · rw [hm]
      exact h r hr
  cases pc with
  | write hours pc =>
    cases pc with
    | auditAfter now previous => trivial
    | _ => exact hf.imp id fun ⟨hm, hh, hr⟩ => ⟨hm, hh, hrow hr⟩
  | _ => trivial

theorem requestFact_goto {input : ModeChangeInput} {pc pc' : RequestPc}
    (hf : RequestFact service.config input row pc)
    (hn : (requestModeChange service row id input reply pc).next = .goto pc') :
    RequestFact service.config input (requestModeChange service row id input reply pc).row pc' := by
  cases pc with
  | getState now =>
    simp only [requestModeChange] at hn ⊢
    split at hn
    next hok =>
      rw [if_pos hok]
      split at hn
      next => cases hn; trivial
      next hdual =>
        rw [if_neg hdual]
        cases hn
        rw [Bool.not_eq_true] at hdual
        rcases requiresDualConfirm_eq_false.mp hdual with hm | ⟨hcur, hm⟩
        · exact Or.inl hm
        · right
          have hhours : (if input.mode = .supervised then 0
              else clampHours input.hours (service.config.limitsFor input.mode))
              = clampHours input.hours (service.config.limitsFor input.mode) := by
            rw [hm]
            rfl
          refine ⟨hm, hhours, fun r hr => ?_⟩
          change row = some r at hr
          rw [hr, getState_some_mode] at hcur
          split at hcur
          · cases hcur
          · rw [hcur]
            decide
    next => cases hn
  | createPending hours =>
    simp only [requestModeChange] at hn
    split at hn <;> cases hn
  | write hours pc =>
    cases pc with
    | readPrevious now =>
      simp only [requestModeChange, writeState, Move.map] at hn ⊢
      split at hn
      next hok =>
        rw [if_pos hok]
        cases hn
        exact hf
      next => cases hn
    | auditBefore now previous =>
      simp only [requestModeChange, writeState, Move.map] at hn ⊢
      split at hn
      next =>
        cases hn
        exact hf
      next => cases hn
    | update now previous =>
      simp only [requestModeChange, writeState, Move.map] at hn
      split at hn
      next =>
        cases hn
        trivial
      next => cases hn
    | auditAfter now previous => cases hn

/-- the facts of a run in which, but for one request, only the background moves -/
structure Requesting (service : AutonomyService) (s₀ : AutonomySystem) (id : CallId)
    (s : AutonomySystem) : Prop where
  quiet : Quiet s₀ id s
  fact : ∀ input pc, s.pc id = .request input pc → RequestFact service.config input s.row pc

theorem requesting_step {s₀ : AutonomySystem} (s : AutonomySystem) (l : AutonomyLabel)
    (t : AutonomySystem) (hs : Requesting service s₀ id s) (hl : Background s₀ id l)
    (h : step service s l = some t) : Requesting service s₀ id t := by
  obtain ⟨hquiet, hdecays⟩ := quiet_step hs.quiet hl h
  refine ⟨hquiet, fun input pc' ht => ?_⟩
  by_cases hli : l.id = id
  · cases l with
    | begin i op now =>
      obtain ⟨_, rfl⟩ := step_begin h
      change i = id at hli
      rw [← hli, show (s.set i (.start now op)).pc i = .start now op from if_pos rfl] at ht
      cases op with
      | requestModeChange input' => cases hl
      | applyApprovedChange payload => cases hl
      | _ => cases ht
    | go i reply =>
      cases h
      change i = id at hli
      subst hli
      obtain ⟨pc, hpc, hn, hrow⟩ := request_of_go ht
      rw [hrow]
      exact requestFact_goto (hs.fact input pc hpc) hn
  · rw [step_pc_other h (Ne.symm hli)] at ht
    exact (hs.fact input pc' ht).decays (hdecays hli)

/-! ## a request whose update is done -/

/-- a request that has come to its audit, or has ended -/
def Pc.written : Pc → Bool
  | .done _ | .request _ (.write _ (.auditAfter _ _)) => true
  | _ => false

theorem go_written (hw : (s.pc id).written = true) :
    ((s.go service id reply).pc id).written = true ∧ (s.go service id reply).row = s.row := by
  unfold AutonomySystem.go
  cases hpc : s.pc id with
  | done outcome =>
    simp only [hpc, and_true]
    rfl
  | request input pc =>
    rw [hpc] at hw
    cases pc with
    | write hours pc =>
      cases pc with
      | auditAfter now previous =>
        simp only [apply_pc_self]
        exact ⟨rfl, rfl⟩
      | _ => cases hw
    | _ => cases hw
  | _ =>
    rw [hpc] at hw
    cases hw

/-- after a request to `supervised`, or one that has expired, the mode stays `supervised` -/
structure Safe (s₀ : AutonomySystem) (id : CallId) (u : Int) (s : AutonomySystem) : Prop where
  quiet : Quiet s₀ id s
  written : (s.pc id).written = true
  spent : Spent u s.row

theorem safe_step {s₀ : AutonomySystem} {u : Int} (s : AutonomySystem) (l : AutonomyLabel)
    (t : AutonomySystem) (hs : Safe s₀ id u s) (hl : Background s₀ id l)
    (h : step service s l = some t) : Safe s₀ id u t := by
  obtain ⟨hquiet, hdecays⟩ := quiet_step hs.quiet hl h
  by_cases hli : l.id = id
  · cases l with
    | begin i op now =>
      obtain ⟨hi, _⟩ := step_begin h
      have hw := hs.written
      rw [← hli, AutonomyLabel.id, hi] at hw
      cases hw
    | go i reply =>
      cases h
      change i = id at hli
      subst hli
      obtain ⟨hw, hrow⟩ : ((s.go service i reply).pc i).written = true ∧
          (s.go service i reply).row = s.row := go_written hs.written
      exact ⟨hquiet, hw, hrow ▸ hs.spent⟩
  · have hw : (t.pc id).written = true := by
      rw [step_pc_other h (Ne.symm hli)]
      exact hs.written
    exact ⟨hquiet, hw, hs.spent.decays (hdecays hli)⟩

theorem Clocked.le {ls : List AutonomyLabel} : ∀ {u t : Int}, Clocked u ls t → u ≤ t := by
  induction ls with
  | nil => exact fun h => h
  | cons l ls ih => exact fun h => h.1.trans (ih h.2)

theorem clocked_const {u : Int} {ls : List AutonomyLabel} (h : ∀ l ∈ ls, l.now = u) :
    Clocked u ls u := by
  induction ls with
  | nil => exact le_refl u
  | cons l ls ih =>
    have hl := h l List.mem_cons_self
    refine ⟨hl.ge, ?_⟩
    rw [hl]
    exact ih fun x hx => h x (List.mem_cons_of_mem _ hx)

/-! ## tool calls that only `auto` counts -/

def sendEmail : Option ToolDefinition := getToolDefinition (lit "sendEmail")

def sendEmailDecision : HitlDecision := ⟨lit "", lit "sendEmail", .confirm, 1, false, none⟩

def okAt (i : CallId) (u : Int) (uuid : RequestId) : AutonomyLabel := .go i ⟨u, .ok, uuid⟩

/-- one call of a tool that `semi-auto` guards, from its begin to its end -/
def probe (u : Int) (uuid : RequestId) (i : CallId) : List AutonomyLabel :=
  .begin i (.relax sendEmailDecision sendEmail) u :: List.replicate 5 (okAt i u uuid)

def probes (u : Int) (uuid : RequestId) (m k : Nat) : List AutonomyLabel :=
  (List.range k).flatMap fun j => probe u uuid (m + j)

theorem sendEmail_guarded : sendEmail.map ToolDefinition.guardedInSemiAuto = some true ∧
    sendEmail.map ToolDefinition.humanDecision = some false := by decide

theorem relaxDecision_sendEmail (mode : AutonomyMode) :
    (relaxDecision sendEmailDecision mode sendEmail).relaxedBy.isSome = decide (mode = .auto) := by
  obtain ⟨hg, hh⟩ := sendEmail_guarded
  cases mode with
  | supervised => rfl
  | semiAuto => simp [relaxDecision, sendEmailDecision, hh, hg]
  | auto => simp [relaxDecision, sendEmailDecision, hh]

/-- the labels lead to a row, and move no call but one -/
def Leads (service : AutonomyService) (s : AutonomySystem) (i : CallId) (ls : List AutonomyLabel)
    (row : Option AutonomyRow) : Prop :=
  ∃ t, run (step service) s ls = some t ∧ t.row = row ∧ ∀ j, j ≠ i → t.pc j = s.pc j

theorem leads_begin {i : CallId} {op : Op} {u : Int} {ls : List AutonomyLabel}
    (hi : s.pc i = .idle) (h : Leads service (s.set i (.start u op)) i ls row) :
    Leads service s i (.begin i op u :: ls) row := by
  obtain ⟨t, ht, hrow, hpc⟩ := h
  refine ⟨t, run_cons_some.mpr ⟨_, ?_, ht⟩, hrow, fun j hj => (hpc j hj).trans (if_neg hj)⟩
  simp only [step, hi]

section
variable {i : CallId} {u : Int} {uuid : RequestId} {decision : HitlDecision}
  {tool : Option ToolDefinition} {pc : RelaxPc} {r : Option AutonomyRow}

/-- one statement of a tool call -/
theorem go_relax (hpc : s.pc i = .relax decision tool pc) : s.go service i reply
    = s.apply i (.relax decision tool) (relax service s.row i decision tool reply pc) := by
  unfold AutonomySystem.go
  rw [hpc]

theorem leads_goto {ls : List AutonomyLabel} {m : Move RelaxPc}
    (hpc : s.pc i = .relax decision tool pc)
    (hm : relax service s.row i decision tool ⟨u, .ok, uuid⟩ pc = m)
    (h : Leads service (s.apply i (.relax decision tool) m) i ls r) :
    Leads service s i (okAt i u uuid :: ls) r := by
  obtain ⟨t, ht, hrow, hother⟩ := h
  refine ⟨t, run_cons_some.mpr ⟨_, rfl, ?_⟩, hrow,
    fun j hj => (hother j hj).trans (apply_pc_other _ _ hj)⟩
  rw [go_relax hpc, hm]
  exact ht

/-- a call that has ended stands still however often it is scheduled -/
theorem leads_finish {m : Move RelaxPc} {outcome : Outcome Result}
    (hpc : s.pc i = .relax decision tool pc)
    (hm : relax service s.row i decision tool ⟨u, .ok, uuid⟩ pc = m)
    (hn : m.next = .finish outcome) (n : Nat) :
    Leads service s i (List.replicate (n + 1) (okAt i u uuid)) m.row := by
  let t := s.apply i (.relax decision tool) m
  have hdone : t.pc i = .done outcome := by
    rw [apply_pc_self, hn]
    rfl
  have hstay : ∀ n, run (step service) t (List.replicate n (okAt i u uuid)) = some t := by
    intro n
    induction n with
    | zero => rfl
    | succ n ih =>
      refine run_cons_some.mpr ⟨t, ?_, ih⟩
      show some (t.go service i ⟨u, .ok, uuid⟩) = some t
      unfold AutonomySystem.go
      rw [hdone]
  refine ⟨t, run_cons_some.mpr ⟨t, ?_, hstay n⟩, rfl, fun j hj => apply_pc_other _ _ hj⟩
  show some (s.go service i ⟨u, .ok, uuid⟩) = some t
  rw [go_relax hpc, hm]

end

/-- the circuit breaker reads the previous mode, updates the row and audits -/
theorem leads_breaker {i : CallId} {u : Int} {uuid : RequestId} {decision : HitlDecision}
    {tool : Option ToolDefinition} (hpc : s.pc i = .relax decision tool (.write (.readPrevious u))) :
    Leads service s i (List.replicate 3 (okAt i u uuid)) (s.row.map (circuitBreaker.setMode u)) := by
  let previous := (getState s.row u).mode
  refine leads_goto (m := ⟨s.row, .goto (.write (.update u previous)), []⟩) hpc rfl ?_
  refine leads_goto (m := ⟨s.row.map (circuitBreaker.setMode u),
    .goto (.write (.auditAfter u previous)), []⟩) (apply_pc_self _ _) rfl ?_
  exact leads_finish (m := ⟨s.row.map (circuitBreaker.setMode u),
    .finish (.returned (.decision decision)), _⟩) (apply_pc_self _ _) rfl rfl 0

/-- a probe outside `auto` only reads -/
theorem probe_quiet {i : CallId} {u : Int} {uuid : RequestId} (hi : s.pc i = .idle)
    (hm : modeAt s u ≠ .auto) : Leads service s i (probe u uuid i) s.row := by
  have hnone := relaxDecision_sendEmail (getState s.row u).mode
  rw [show decide ((getState s.row u).mode = .auto) = false from decide_eq_false hm,
    Option.isSome_eq_false_iff, Option.isNone_iff_eq_none] at hnone
  refine leads_begin hi (leads_finish
    (m := ⟨s.row, .finish (.returned (.decision sendEmailDecision)), []⟩) (if_pos rfl) ?_ rfl 4)
  show relax service s.row i _ _ _ _ = _
  simp only [relax, if_true, hnone]

/-- a probe in `auto` counts, and trips the circuit breaker when the count is too high -/
theorem probe_counted {i : CallId} {u : Int} {uuid : RequestId} {r : AutonomyRow}
    (hi : s.pc i = .idle) (hr : s.row = some r) (hm : modeAt s u = .auto) :
    Leads service s i (probe u uuid i)
      (some (if (r.bump u).relaxedCount > service.config.maxRelaxedActionsPerHour then
        circuitBreaker.setMode u (r.bump u) else r.bump u)) := by
  have hsome := relaxDecision_sendEmail (getState s.row u).mode
  rw [show decide ((getState s.row u).mode = .auto) = true from decide_eq_true hm,
    Option.isSome_iff_exists] at hsome
  obtain ⟨by_, hby⟩ := hsome
  let relaxed := (relaxDecision sendEmailDecision (getState s.row u).mode sendEmail).decision
  refine leads_begin hi (leads_goto (m := ⟨s.row, .goto (.bump relaxed), []⟩) (if_pos rfl) ?_ ?_)
  · show relax service s.row i _ _ _ _ = _
    simp only [relax, if_true, hby]
    rfl
  by_cases hc : (r.bump u).relaxedCount > service.config.maxRelaxedActionsPerHour
  · rw [if_pos hc]
    refine leads_goto (m := ⟨some (r.bump u), .goto (.write (.readPrevious u)), []⟩)
      (apply_pc_self _ _) ?_ (leads_breaker (apply_pc_self _ _))
    show relax service s.row i _ _ _ _ = _
    simp only [relax, bumpRelaxedCounter, hr, Option.map_some, Option.getD_some, if_pos hc]
  · rw [if_neg hc]
    refine leads_finish (m := ⟨some (r.bump u), .finish (.returned (.decision relaxed)), []⟩)
      (apply_pc_self _ _) ?_ rfl 3
    show relax service s.row i _ _ _ _ = _
    simp only [relax, bumpRelaxedCounter, hr, Option.map_some, Option.getD_some, if_neg hc]

theorem probes_succ (u : Int) (uuid : RequestId) (m k : Nat) :
    probes u uuid m (k + 1) = probes u uuid m k ++ probe u uuid (m + k) := by
  simp [probes, List.range_succ]

theorem mem_probes {u : Int} {uuid : RequestId} {m k : Nat} {l : AutonomyLabel}
    (h : l ∈ probes u uuid m k) : ∃ i, m ≤ i ∧ (l = .begin i (.relax sendEmailDecision sendEmail) u ∨
      l = okAt i u uuid) := by
  obtain ⟨j, _, hl⟩ := List.mem_flatMap.mp h
  refine ⟨m + j, by omega, ?_⟩
  rcases List.mem_cons.mp hl with h | h
  · exact Or.inl h
  · exact Or.inr (List.eq_of_mem_replicate h)

/-- one probe after the other, each by a call that has not begun yet -/
theorem probes_run (service : AutonomyService) (u : Int) (uuid : RequestId) {m : Nat}
    {P : Nat → Option AutonomyRow → Prop}
    (hm : ∀ j, m ≤ j → s.pc j = .idle) (h0 : P 0 s.row)
    (hstep : ∀ k i (t : AutonomySystem), t.pc i = .idle → P k t.row →
      ∃ row, Leads service t i (probe u uuid i) row ∧ P (k + 1) row) (k : Nat) :
    ∃ t, run (step service) s (probes u uuid m k) = some t ∧ P k t.row ∧
      ∀ j : Nat, j < m ∨ m + k ≤ j → t.pc j = s.pc j := by
  induction k with
  | zero => exact ⟨s, rfl, h0, fun _ _ => rfl⟩
  | succ k ih =>
    obtain ⟨t, ht, hp, hpc⟩ := ih
    have hi : t.pc (m + k) = .idle :=
      (hpc _ (Or.inr (Nat.le_refl _))).trans (hm _ (Nat.le_add_right _ _))
    obtain ⟨row, ⟨t', ht', hrow, hpc'⟩, hp'⟩ := hstep k (m + k) t hi hp
    refine ⟨t', ?_, hrow ▸ hp', fun j hj => ?_⟩
    · rw [probes_succ]
      exact run_append_some.mpr ⟨t, ht, ht'⟩
    · have hne : j ≠ m + k := by omega
      rw [hpc' j hne, hpc j (by omega)]

/-- after `k` probes in `auto` the breaker has tripped, or the counter stands at `k` at least -/
def Tripping (max : Nat) (u : Int) (k : Nat) (row : Option AutonomyRow) : Prop :=
  ∃ r, row = some r ∧ (r.mode = .supervised ∨
    (r.mode = .auto ∧ r.isExpired u = false ∧ k ≤ r.relaxedCount ∧
      (k = 0 ∨ (r.relaxedCount ≤ max ∧ u - hourMs ≤ r.windowStartedAt))))

theorem isExpired_bump (r : AutonomyRow) (u now : Int) :
    (r.bump u).isExpired now = r.isExpired now ∧ (r.bump u).mode = r.mode := by
  unfold AutonomyRow.bump
  split <;> exact ⟨rfl, rfl⟩

theorem bump_count {max k : Nat} {u : Int} {r : AutonomyRow} (hk : k ≤ r.relaxedCount)
    (hw : k = 0 ∨ (r.relaxedCount ≤ max ∧ u - hourMs ≤ r.windowStartedAt)) :
    k + 1 ≤ (r.bump u).relaxedCount ∧ u - hourMs ≤ (r.bump u).windowStartedAt := by
  have hhour : 0 < hourMs := by decide
  unfold AutonomyRow.bump
  split
  next hlt =>
    rcases hw with rfl | ⟨_, hw⟩
    · have hwindow : u - hourMs ≤ u := by omega
      exact ⟨Nat.le_refl _, hwindow⟩
    · omega
  next hlt =>
    have hwindow : u - hourMs ≤ r.windowStartedAt := by omega
    exact ⟨Nat.add_le_add_right hk 1, hwindow⟩

theorem tripping_step {u : Int} {uuid : RequestId} (k : Nat) (i : CallId) (t : AutonomySystem)
    (hi : t.pc i = .idle) (ht : Tripping service.config.maxRelaxedActionsPerHour u k t.row) :
    ∃ row, Leads service t i (probe u uuid i) row ∧
      Tripping service.config.maxRelaxedActionsPerHour u (k + 1) row := by
  obtain ⟨r, hr, hm | ⟨hm, hx, hk, hw⟩⟩ := ht
  · refine ⟨_, probe_quiet hi ?_, r, hr, Or.inl hm⟩
    rw [modeAt, hr, getState_some_mode, hm, ite_self]
    decide
  · have hauto : modeAt t u = .auto := by
      rw [modeAt, hr, getState_some_mode, hx]
      exact hm
    obtain ⟨hcount, hwindow⟩ := bump_count hk hw
    obtain ⟨hx', hm'⟩ := isExpired_bump r u u
    refine ⟨_, probe_counted hi hr hauto, _, rfl, ?_⟩
    split
    next => exact Or.inl rfl
    next hc =>
      exact Or.inr ⟨hm'.trans hm, hx'.trans hx, hcount, Or.inr ⟨Nat.le_of_not_lt hc, hwindow⟩⟩

/-! ## fresh calls -/

theorem row_of_run {ls : List AutonomyLabel} {seed : Int}
    (h : run (step service) (.init seed) ls = some s) : s.row.isSome = true := by
  refine run_inv (P := fun s => s.row.isSome = true) (fun s l t hs ht => ?_) ls _ _ rfl h
  cases l with
  | begin i op now =>
    obtain ⟨_, rfl⟩ := step_begin ht
    exact hs
  | go i reply =>
    cases ht
    exact go_move.isSome.trans hs

theorem idle_from_of_run {ls : List AutonomyLabel} {seed : Int}
    (h : run (step service) (.init seed) ls = some s) : ∃ m, ∀ j, m ≤ j → s.pc j = .idle := by
  refine run_inv (P := fun s => ∃ m, ∀ j, m ≤ j → s.pc j = .idle) (fun s l t hs ht => ?_) ls _ _
    ⟨0, fun _ _ => rfl⟩ h
  obtain ⟨m, hm⟩ := hs
  refine ⟨max m (l.id + 1), fun j hj => ?_⟩
  rw [step_pc_other ht (Nat.ne_of_gt ((Nat.le_max_right _ _).trans hj))]
  exact hm j ((Nat.le_max_left _ _).trans hj)

/-! ## the update of a request -/

section
variable {input : ModeChangeInput} {hours now : Int} {previous : AutonomyMode}

/-- the statement that changes the mode -/
theorem go_update (service : AutonomyService)
    (hpc : s.pc id = .request input (.write hours (.update now previous)))
    (hok : reply.fate = .ok) :
    (s.go service id reply).row = s.row.map
        ((restrictiveChange input.mode input.requestedBy .downgrade hours).setMode now) ∧
      (s.go service id reply).pc id = .request input (.write hours (.auditAfter now previous)) := by
  unfold AutonomySystem.go
  rw [hpc]
  constructor
  · simp only [AutonomySystem.apply, requestModeChange, writeState, Move.map, hok, Fate.applies]
    rfl
  · rw [apply_pc_self]
    simp only [requestModeChange, writeState, Move.map, hok]
    rfl

theorem setMode_isExpired (r : AutonomyRow) (u : Int) :
    ((restrictiveChange input.mode input.requestedBy .downgrade hours).setMode now r).isExpired u
      = (decide (input.mode = .supervised) || decide (now + hours * hourMs ≤ u)) := by
  unfold AutonomyRow.isExpired WriteInput.setMode WriteInput.expiresAt restrictiveChange
  by_cases hm : input.mode = .supervised
  · simp [hm]
  · simp [hm]

/-- a request to `supervised`, or one that comes after its expiry, is safe whatever follows -/
theorem safe_after (hs : Quiet s₀ id s)
    (hpc : s.pc id = .request input (.write hours (.update now previous))) (hok : reply.fate = .ok)
    (hcond : input.mode = .supervised ∨ now + hours * hourMs ≤ reply.now) :
    Safe s₀ id reply.now (s.go service id reply) := by
  obtain ⟨hrow, hpc'⟩ := go_update service hpc hok
  have hquiet : Quiet s₀ id (s.go service id reply) := by
    intro i hi hb
    rw [go_pc_other hi]
    exact hs i hi hb
  have hwritten : ((s.go service id reply).pc id).written = true := by
    rw [hpc']
    rfl
  refine ⟨hquiet, hwritten, fun r hr => ?_⟩
  rw [hrow] at hr
  obtain ⟨r₀, _, rfl⟩ := Option.map_eq_some_iff.mp hr
  right
  rw [setMode_isExpired]
  rcases hcond with h | h <;> simp [h]

/-- without the request the probes leave `supervised` behind -/
theorem probes_supervised (service : AutonomyService) (uuid : RequestId) {u : Int} {m : Nat}
    {r : AutonomyRow} (hm : ∀ j, m ≤ j → s.pc j = .idle) (hr : s.row = some r)
    (hmode : r.mode ≠ .semiAuto) :
    ∃ t, run (step service) s (probes u uuid m (service.config.maxRelaxedActionsPerHour + 1))
      = some t ∧ modeAt t u = .supervised := by
  by_cases hauto : modeAt s u = .auto
  · -- in `auto` every probe counts, so that one of them trips the breaker
    have h0 : Tripping service.config.maxRelaxedActionsPerHour u 0 s.row := by
      rw [modeAt, hr, getState_some_mode] at hauto
      split at hauto
      · cases hauto
      next hx => exact ⟨r, hr, Or.inr ⟨hauto, Bool.eq_false_iff.mpr hx, Nat.zero_le _, Or.inl rfl⟩⟩
    obtain ⟨t, ht, ⟨r', hr', hcase⟩, _⟩ := probes_run service u uuid hm h0 tripping_step _
    refine ⟨t, ht, ?_⟩
    rw [modeAt, hr', getState_some_mode]
    rcases hcase with hsup | ⟨_, _, hk, hw⟩
    · rw [hsup, ite_self]
    · omega
  · have hquiet : ∀ (k : Nat) i (t : AutonomySystem), t.pc i = .idle → t.row = s.row →
        ∃ row, Leads service t i (probe u uuid i) row ∧ row = s.row := by
      intro k i t hi hrow
      refine ⟨_, probe_quiet hi ?_, hrow⟩
      rw [modeAt, hrow]
      exact hauto
    obtain ⟨t, ht, hrow, _⟩ := probes_run service u uuid (P := fun _ row => row = s.row) hm rfl
      hquiet (service.config.maxRelaxedActionsPerHour + 1)
    refine ⟨t, ht, ?_⟩
    rw [modeAt, hr, getState_some_mode] at hauto
    rw [modeAt, hrow, hr, getState_some_mode]
    split
    · rfl
    next hx =>
      rw [if_neg hx] at hauto
      cases hmode' : r.mode with
      | supervised => rfl
      | semiAuto => exact absurd hmode' hmode
      | auto => exact absurd hmode' hauto

/-- with the request the mode is `semi-auto`, which the probes do not count -/
theorem probes_semiAuto (service : AutonomyService) (uuid : RequestId) {u : Int} {m : Nat}
    (hm : ∀ j, m ≤ j → s.pc j = .idle) (hmode : modeAt s u = .semiAuto) (k : Nat) :
    ∃ t, run (step service) s (probes u uuid m k) = some t ∧ modeAt t u = .semiAuto ∧
      ∀ j : Nat, j < m → t.pc j = s.pc j := by
  have hsame : ∀ t : AutonomySystem, t.row = s.row → modeAt t u = .semiAuto := by
    intro t hrow
    rw [modeAt, hrow]
    exact hmode
  have hquiet : ∀ (k : Nat) i (t : AutonomySystem), t.pc i = .idle → t.row = s.row →
      ∃ row, Leads service t i (probe u uuid i) row ∧ row = s.row := by
    intro k i t hi hrow
    refine ⟨_, probe_quiet hi ?_, hrow⟩
    rw [hsame t hrow]
    decide
  obtain ⟨t, ht, hrow, hpc⟩ := probes_run service u uuid (P := fun _ row => row = s.row) hm rfl
    hquiet k
  exact ⟨t, ht, hsame t hrow, fun j hj => hpc j (Or.inl hj)⟩

/-- a request to `semi-auto` whose update comes before its expiry -/
theorem not_neverLaxer {s₀ b : AutonomySystem} {ls : List AutonomyLabel} {r : AutonomyRow} {m : Nat}
    (hs : run (step service) s₀ ls = some s)
    (hb : run (step service) s₀ (ls.filter fun l => l.id ≠ id) = some b) (hsame : SameBut id s b)
    (hm₀ : ∀ j, m ≤ j → s₀.pc j = .idle) (hm : ∀ j, m ≤ j → s.pc j = .idle) (hid : id < m)
    (hpc : s.pc id = .request input (.write hours (.update now previous))) (hok : reply.fate = .ok)
    (hr : s.row = some r) (hmode : r.mode ≠ .semiAuto) (hinput : input.mode = .semiAuto)
    (hlt : reply.now < now + hours * hourMs) : ¬ NeverLaxer service s₀ id ls reply := by
  intro hnever
  let u := reply.now
  let count := service.config.maxRelaxedActionsPerHour + 1
  have hne : ∀ j, m ≤ j → j ≠ id := fun j hj => Nat.ne_of_gt (Nat.lt_of_lt_of_le hid hj)
  -- with the request
  obtain ⟨hrow, hpc'⟩ := go_update service hpc hok
  let a₁ := s.go service id reply
  let a₂ := a₁.go service id ⟨u, .ok, reply.uuid⟩
  have hwritten : (a₁.pc id).written = true := by
    rw [hpc']
    rfl
  have hrow₂ : a₂.row = a₁.row := (go_written hwritten).2
  have hpc₂ : a₂.pc id = .done (.returned (.applied input.mode
      ((restrictiveChange input.mode input.requestedBy .downgrade hours).expiresAt now))) := by
    show (a₁.go service id _).pc id = _
    unfold AutonomySystem.go
    rw [hpc', apply_pc_self]
    rfl
  have hsemi : modeAt a₂ u = .semiAuto := by
    rw [modeAt, hrow₂, hrow, hr, Option.map_some, getState_some_mode, setMode_isExpired, hinput,
      if_neg (by simpa using hlt)]
    rfl
  have hidle₂ : ∀ j, m ≤ j → a₂.pc j = .idle := fun j hj => by
    rw [go_pc_other (hne j hj), go_pc_other (hne j hj)]
    exact hm j hj
  obtain ⟨a, ha, hamode, hapc⟩ := probes_semiAuto service reply.uuid hidle₂ hsemi count
  -- without it
  obtain ⟨b', hb', hbmode⟩ := probes_supervised service reply.uuid (s := b) (u := u)
    (fun j hj => (hsame.pc j (hne j hj)).trans (hm j hj)) (hsame.row.trans hr) hmode
  have hprobes : ∀ l ∈ probes u reply.uuid m count, l.id ≠ id := by
    intro l hl
    obtain ⟨j, hj, rfl | rfl⟩ := mem_probes hl <;> exact hne j hj
  have hfilter : (probes u reply.uuid m count).filter (fun l => l.id ≠ id)
      = probes u reply.uuid m count :=
    List.filter_eq_self.mpr fun l hl => by simpa using hprobes l hl
  have hle := hnever (okAt id u reply.uuid :: probes u reply.uuid m count) u a b' _ _ ?_ ?_ ?_
    ((hapc id hid).trans hpc₂) ?_
  · rw [hamode, hbmode] at hle
    exact absurd hle (by decide)
  · intro l hl
    rcases List.mem_cons.mp hl with rfl | hl
    · exact Or.inl rfl
    · obtain ⟨j, hj, rfl | rfl⟩ := mem_probes hl
      · rfl
      · refine Or.inr ?_
        rw [hm₀ j hj]
        rfl
  · refine clocked_const fun l hl => ?_
    rcases List.mem_cons.mp hl with rfl | hl
    · rfl
    · obtain ⟨j, _, rfl | rfl⟩ := mem_probes hl <;> rfl
  · exact run_append_some.mpr ⟨s, hs, run_cons_some.mpr ⟨a₁, rfl, run_cons_some.mpr ⟨a₂, rfl, ha⟩⟩⟩
  · rw [List.filter_append, List.filter_cons_of_neg (by simp [AutonomyLabel.id]),
      List.filter_cons_of_neg (by simp [AutonomyLabel.id, okAt]), hfilter]
    exact run_append_some.mpr ⟨b, hb, hb'⟩

end

end

/-- **Lower protection without an approval.**  Take any reachable state, a request made in it, and
any run of the tool calls and expiries up to the update of the request.  The request leaves the mode
at every later instant at most as permissive as the same schedule without it if and only if it asks
for `supervised`, or its update comes when the mode that it sets has expired already. -/
theorem never_laxer_iff (service : AutonomyService) (seed : Int) (ls₀ : List AutonomyLabel)
    (s₀ : AutonomySystem) (h₀ : run (step service) (.init seed) ls₀ = some s₀) (id : CallId)
    (input : ModeChangeInput) (n₀ : Int) (ls : List AutonomyLabel) (s : AutonomySystem)
    (h : run (step service) s₀ (.begin id (.requestModeChange input) n₀ :: ls) = some s)
    (hls : ∀ l ∈ ls, Background s₀ id l) (hours now : Int) (previous : AutonomyMode)
    (hpc : s.pc id = .request input (.write hours (.update now previous))) (reply : Reply)
    (hok : reply.fate = .ok) :
    NeverLaxer service s₀ id (.begin id (.requestModeChange input) n₀ :: ls) reply ↔
      input.mode = .supervised ∨
        now + clampHours input.hours (service.config.limitsFor input.mode) * hourMs ≤ reply.now := by
  obtain ⟨s₁, hs₁, hrun⟩ := run_cons_some.mp h
  obtain ⟨hidle, rfl⟩ := step_begin hs₁
  have hstart : Requesting service s₀ id (s₀.set id (.request input (.getState n₀))) := by
    refine ⟨fun i hi hb => ?_, fun input' pc hp => ?_⟩
    · rw [show (s₀.set id (.request input (.getState n₀))).pc i = s₀.pc i from if_neg hi]
      exact hb
    · rw [show (s₀.set id (.request input (.getState n₀))).pc id = .request input (.getState n₀)
        from if_pos rfl] at hp
      cases hp
      trivial
  have hreq := run_inv_guarded requesting_step ls _ _ hstart (guarded_of_forall ls _ hls) hrun
  have hfact : input.mode = .supervised ∨ (input.mode = .semiAuto ∧
      hours = clampHours input.hours (service.config.limitsFor input.mode) ∧
        ∀ r, s.row = some r → r.mode ≠ .semiAuto) := hreq.fact input _ hpc
  constructor
  · intro hnever
    by_contra hcond
    rw [not_or] at hcond
    obtain ⟨hinput, hhours, hmode⟩ := hfact.resolve_left hcond.1
    obtain ⟨m₀, hm₀⟩ := idle_from_of_run h₀
    obtain ⟨m₁, hm₁⟩ := idle_from_of_run (run_append_some.mpr ⟨s₀, h₀, h⟩)
    obtain ⟨r, hr⟩ := Option.isSome_iff_exists.mp (row_of_run (run_append_some.mpr ⟨s₀, h₀, h⟩))
    have hunwritten : (s.pc id).unwritten = true := by
      rw [hpc]
      rfl
    obtain ⟨_, b, hb, hsame⟩ := erase_run id h hunwritten
    refine not_neverLaxer (m := max (max m₀ m₁) (id + 1)) h hb hsame (fun j hj => hm₀ j ?_)
      (fun j hj => hm₁ j ?_) (Nat.le_max_right _ _) hpc hok hr (hmode r hr) hinput ?_ hnever
    · exact ((Nat.le_max_left _ _).trans (Nat.le_max_left _ _)).trans hj
    · exact ((Nat.le_max_right _ _).trans (Nat.le_max_left _ _)).trans hj
    · rw [hhours]
      exact not_le.mp hcond.2
  · intro hcond ls' t a b mode expiresAt hls' hclock ha _ _
    obtain ⟨s', hs', hafter⟩ := run_append_some.mp ha
    rw [h, Option.some.injEq] at hs'
    subst hs'
    obtain ⟨a₁, ha₁, hrest⟩ := run_cons_some.mp hafter
    cases ha₁
    have hsafe : Safe s₀ id reply.now (s.go service id reply) := by
      refine safe_after hreq.quiet hpc hok ?_
      rcases hcond with hc | hc
      · exact Or.inl hc
      · refine hfact.imp (fun hm => hm) fun hf => ?_
        rw [hf.2.1]
        exact hc
    have hlast := run_inv_guarded safe_step ls' _ _ hsafe (guarded_of_forall ls' _ hls') hrest
    rw [modeAt_of_spent hlast.spent hclock.le]
    exact Nat.zero_le _

/-! ## one hour of `auto` -/

def sampleService : AutonomyService := ⟨.default, fun text => text⟩

/-- call 0 applies an approved hour of `auto` at time 0 -/
def approvedHour : List AutonomyLabel :=
  .begin 0 (.applyApprovedChange (some ⟨.auto, 1, sampleRequest.text, by decide⟩)) 0 ::
    List.replicate 3 (okAt 0 0 sampleRequest)

/-- call 1 asks for a mode and comes to its update -/
def request (mode : AutonomyMode) : List AutonomyLabel :=
  [.begin 1 (.requestModeChange ⟨mode, none, lit "owner:api"⟩) 10, okAt 1 10 sampleRequest,
    okAt 1 10 sampleRequest]

theorem never_laxer_supervised :
    ∃ s₀, run (step sampleService) (.init 0) approvedHour = some s₀ ∧
      NeverLaxer sampleService s₀ 1 (request .supervised) ⟨20, .ok, sampleRequest⟩ := by
  obtain ⟨s, hs, hpc⟩ := Option.map_eq_some_iff.mp (show
    (run (step sampleService) (.init 0) (approvedHour ++ request .supervised)).map (fun s => s.pc 1)
      = some (.request ⟨.supervised, none, lit "owner:api"⟩ (.write 0 (.update 10 .auto))) from rfl)
  obtain ⟨s₀, h₀, h⟩ := run_append_some.mp hs
  refine ⟨s₀, h₀, (never_laxer_iff sampleService 0 approvedHour s₀ h₀ 1 _ 10 _ s h (fun l hl => ?_)
    0 10 .auto hpc _ rfl).mpr (Or.inl rfl)⟩
  simp only [List.mem_cons, List.not_mem_nil, or_false, or_self] at hl
  rw [hl]
  exact Or.inl rfl

/-- two hours after one hour of `auto` was approved, the day of `semi-auto` is in force -/
theorem semi_auto_outlasts_auto :
    ∃ s₀, run (step sampleService) (.init 0) approvedHour = some s₀ ∧
      ¬ NeverLaxer sampleService s₀ 1 (request .semiAuto) ⟨20, .ok, sampleRequest⟩ := by
  let last : List AutonomyLabel := [okAt 1 20 sampleRequest, okAt 1 30 sampleRequest]
  obtain ⟨a, ha, hmode⟩ := Option.map_eq_some_iff.mp (show
    (run (step sampleService) (.init 0) (approvedHour ++ (request .semiAuto ++ last))).map
      (fun a => (a.pc 1, modeAt a 7200000)) = some
        (.done (.returned (.applied .semiAuto (some 86400010))), .semiAuto) from rfl)
  obtain ⟨s₀, h₀, ha⟩ := run_append_some.mp ha
  have hexpired : (run (step sampleService) (.init 0) approvedHour).map (fun s => modeAt s 7200000)
      = some .supervised := rfl
  rw [h₀, Option.map_some, Option.some.injEq] at hexpired
  rw [Prod.mk.injEq] at hmode
  refine ⟨s₀, h₀, fun hnever => ?_⟩
  have hle := hnever [okAt 1 30 sampleRequest] 7200000 a s₀ _ _ (fun l hl => ?_) ?_ ha hmode.1 rfl
  · rw [hmode.2, hexpired] at hle
    exact absurd hle (by decide)
  · rw [List.mem_singleton.mp hl]
    exact Or.inl rfl
  · exact ⟨by decide, show (30 : Int) ≤ 7200000 by decide⟩

end Autonomy
