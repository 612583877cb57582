import JinCore.Autonomy.Protection

/-!
# The circuit breaker (`autonomy.service.ts`, `relax`)

A relaxed action is counted after the mode is read, and the breaker writes `supervised` after the
action is counted; the write also resets the counter and its window.

* `returnsRelaxed`, `breaks`   the labels that return a relaxed decision, and that trip the breaker;
* `OneWindow`                  the labels of tool calls and of the expiry in one window;
* `BreakerBound`               at most the configured number of relaxed actions, none after a trip;
* `Settled`                    the mode is written while no call is about to count an action;
* `go_effect`                  what a statement of a tool call or of the expiry can do;
* `circuit_breaker_bound`      runs of settled writes keep the bound.
-/

namespace Autonomy
open JsString Common Tools Hitl Runs

/-- a call that has read a relaxed mode and has not counted its action yet -/
def Pc.counting : Pc → Bool
  | .relax _ _ (.bump _) => true
  | _ => false

/-- a call in front of the update of the breaker -/
def Pc.breaking : Pc → Bool
  | .relax _ _ (.write (.update _ _)) => true
  | _ => false

/-- a call in front of the update of the expiry -/
def Pc.expiring : Pc → Bool
  | .expire _ (.write (.update _ _)) => true
  | _ => false

/-- the label returns another decision than the one that was asked about -/
def returnsRelaxed (service : AutonomyService) (s : AutonomySystem) : AutonomyLabel → Bool
  | .begin _ _ _ => false
  | .go id reply =>
    match s.pc id, (s.go service id reply).pc id with
    | .relax decision _ _, .done (.returned (.decision d)) => decide (d ≠ decision)
    | _, _ => false

/-- the breaker writes `supervised` -/
def breaks (s : AutonomySystem) : AutonomyLabel → Bool
  | .begin _ _ _ => false
  | .go id reply => (s.pc id).breaking && reply.fate.applies

/-- the breaker or the expiry writes `supervised` -/
def endsMode (s : AutonomySystem) : AutonomyLabel → Bool
  | .begin _ _ _ => false
  | .go id reply => ((s.pc id).breaking || (s.pc id).expiring) && reply.fate.applies

/-- the labels of one window of the counter, without a change of mode by the owner -/
structure OneWindow (windowStartedAt : Int) (s : AutonomySystem) (l : AutonomyLabel) : Prop where
  background : match l with
    | .begin _ op _ => op.background = true
    | .go id _ => (s.pc id).background = true
  window : l.now - hourMs ≤ windowStartedAt

/-- the mode is written while no call stands between reading a relaxed mode and counting -/
def Settled (s : AutonomySystem) (l : AutonomyLabel) : Prop :=
  endsMode s l = true → ∀ i, (s.pc i).counting = false

/-- at most the configured number of calls returns a relaxed decision, and none after a trip -/
structure BreakerBound (service : AutonomyService) (s : AutonomySystem) (ls : List AutonomyLabel) :
    Prop where
  bound : count (step service) (returnsRelaxed service) s ls
    ≤ service.config.maxRelaxedActionsPerHour
  tripped : ∀ pre l post u v, ls = pre ++ l :: post → run (step service) s pre = some u →
    breaks u l = true → step service u l = some v →
    count (step service) (returnsRelaxed service) v post = 0

section
variable {service : AutonomyService} {s t : AutonomySystem} {id : CallId} {reply : Reply}
  {row : Option AutonomyRow} {w : Int}

/-! ## what a statement can do -/

/-- the statement of a tool call or of the expiry leaves the row, counts in it or ends the mode -/
inductive Effect (service : AutonomyService) (s : AutonomySystem) (id : CallId) (reply : Reply)
    (t : AutonomySystem) : Prop
  | leaves (hrow : t.row = s.row) (hret : returnsRelaxed service s (.go id reply) = false)
      (hcount : (t.pc id).counting = true → ∃ r, s.row = some r ∧ r.mode ≠ .supervised)
  | counts (hpc : (s.pc id).counting = true)
      (hrow : t.row = s.row.map (AutonomyRow.bump reply.now))
      (hret : returnsRelaxed service s (.go id reply) = true → ∀ r, s.row = some r →
        (r.bump reply.now).relaxedCount ≤ service.config.maxRelaxedActionsPerHour)
      (hcount : (t.pc id).counting = false)
  | ends (hend : endsMode s (.go id reply) = true)
      (hrow : ∀ r, t.row = some r → r.mode = .supervised)
      (hret : returnsRelaxed service s (.go id reply) = false)
      (hcount : (t.pc id).counting = false)

theorem counting_toPc {π : Type} {f : π → Pc} (hf : ∀ pc, (f pc).counting = false) (next : Next π) :
    (next.toPc f).counting = false := by
  cases next with
  | goto pc => exact hf pc
  | finish outcome => rfl

theorem returnsRelaxed_eq_false
    (h : ∀ decision tool pc d, s.pc id = .relax decision tool pc →
      (s.go service id reply).pc id = .done (.returned (.decision d)) → d = decision) :
    returnsRelaxed service s (.go id reply) = false := by
  simp only [returnsRelaxed]
  split
  next decision tool pc d hpc hd => exact decide_eq_false (not_not.mpr (h _ _ _ _ hpc hd))
  next => rfl

/-- only a mode that is not `supervised` relaxes a decision -/
theorem mode_of_relaxedBy {decision : HitlDecision} {tool : Option ToolDefinition} {now : Int}
    {by_ : JsString}
    (h : (relaxDecision decision (getState row now).mode tool).relaxedBy = some by_) :
    ∃ r, row = some r ∧ r.mode ≠ .supervised := by
  have hmode : (getState row now).mode ≠ .supervised := by
    intro hm
    rw [hm] at h
    cases h
  cases row with
  | none => exact absurd rfl hmode
  | some r =>
    refine ⟨r, rfl, fun hr => hmode ?_⟩
    rw [getState_some_mode, hr, ite_self]

theorem go_apply {π : Type} {f : π → Pc} {m : Move π}
    (h : s.go service id reply = s.apply id f m) :
    (s.go service id reply).row = m.row ∧ (s.go service id reply).pc id = m.next.toPc f := by
  rw [h]
  exact ⟨rfl, apply_pc_self f m⟩

theorem relax_apply (service : AutonomyService) (reply : Reply) {decision : HitlDecision}
    {tool : Option ToolDefinition} {pc : RelaxPc} (hpc : s.pc id = .relax decision tool pc) :
    (s.go service id reply).row = (relax service s.row id decision tool reply pc).row ∧
      (s.go service id reply).pc id
        = (relax service s.row id decision tool reply pc).next.toPc (.relax decision tool) :=
  go_apply (go_relax hpc)

/-! ### the update of the mode -/

section
variable {input : WriteInput} {result : Option Int → Result} {pc : WritePc}

/-- a `writeState` leaves the row, or stands in front of its update and applies it -/
theorem writeState_row (service : AutonomyService) (row : Option AutonomyRow) (id : CallId)
    (reply : Reply) (input : WriteInput) (result : Option Int → Result) (pc : WritePc) :
    (writeState service row id input result reply pc).row = row ∨
      ∃ now previous, pc = .update now previous ∧ reply.fate.applies = true ∧
        (writeState service row id input result reply pc).row = row.map (input.setMode now) := by
  cases pc with
  | readPrevious now =>
    left
    simp only [writeState]
    split <;> rfl
  | update now previous =>
    by_cases ha : reply.fate.applies = true
    · exact Or.inr ⟨now, previous, rfl, ha, by simp only [writeState, if_pos ha]⟩
    · left
      simp only [writeState, if_neg ha]
  | auditBefore now previous => exact Or.inl rfl
  | auditAfter now previous => exact Or.inl rfl

/-- a `writeState` that ends returns what its caller returns -/
theorem writeState_returned {ρ : Result}
    (h : (writeState service row id input result reply pc).next = .finish (.returned ρ)) :
    ∃ expiresAt, ρ = result expiresAt := by
  cases pc with
  | readPrevious now =>
    simp only [writeState] at h
    split at h
    · cases h
    · cases h
  | auditBefore now previous =>
    simp only [writeState] at h
    split at h
    · cases h
    · cases h
  | update now previous =>
    simp only [writeState] at h
    split at h
    · split at h
      · cases h
        exact ⟨_, rfl⟩
      · cases h
    · cases h
  | auditAfter now previous =>
    cases h
    exact ⟨_, rfl⟩

end

theorem mode_of_setMode {input : WriteInput} {now : Int} (hmode : input.mode = .supervised) :
    ∀ r, row.map (input.setMode now) = some r → r.mode = .supervised := by
  intro r hr
  obtain ⟨r₀, _, rfl⟩ := Option.map_eq_some_iff.mp hr
  exact hmode

/-! ### the calls -/

/-- the outcome of a tool call that has not been relaxed -/
theorem unrelaxed {decision : HitlDecision} {tool : Option ToolDefinition} {pc : RelaxPc}
    (hpc : s.pc id = .relax decision tool pc)
    (h : ∀ d, (relax service s.row id decision tool reply pc).next
      = .finish (.returned (.decision d)) → d = decision) :
    returnsRelaxed service s (.go id reply) = false := by
  refine returnsRelaxed_eq_false fun decision' tool' pc' d hpc' hd => ?_
  rw [hpc] at hpc'
  cases hpc'
  rw [(go_apply (go_relax hpc)).2] at hd
  cases hn : (relax service s.row id decision tool reply pc).next with
  | goto pc' =>
    rw [hn] at hd
    cases hd
  | finish outcome =>
    rw [hn] at hd
    cases hd
    exact h d hn

/-- a tool call that ends and leaves the row -/
theorem effect_finish {decision : HitlDecision} {tool : Option ToolDefinition} {pc : RelaxPc}
    (outcome : Outcome Result) (hpc : s.pc id = .relax decision tool pc)
    (hm : relax service s.row id decision tool reply pc = ⟨s.row, .finish outcome, []⟩)
    (ho : ∀ d, outcome = .returned (.decision d) → d = decision) :
    Effect service s id reply (s.go service id reply) := by
  obtain ⟨hrow, hnext⟩ := relax_apply service reply hpc
  rw [hm] at hrow hnext
  refine .leaves hrow (unrelaxed hpc fun d hd => ?_) fun hc => ?_
  · rw [hm] at hd
    exact ho d (Next.finish.inj hd)
  · rw [hnext] at hc
    cases hc

theorem relax_effect {decision : HitlDecision} {tool : Option ToolDefinition} {pc : RelaxPc}
    (hpc : s.pc id = .relax decision tool pc) :
    Effect service s id reply (s.go service id reply) := by
  obtain ⟨hrow, hnext⟩ := relax_apply service reply hpc
  cases pc with
  | getState now =>
    by_cases hok : reply.fate = .ok
    · cases hby : (relaxDecision decision (getState s.row now).mode tool).relaxedBy with
      | none =>
        refine effect_finish (.returned (.decision decision)) hpc ?_ fun d hd => ?_
        · simp only [relax, if_pos hok, hby]
        · cases hd
          rfl
      | some by_ =>
        have hm : (relax service s.row id decision tool reply (.getState now)).row = s.row := by
          simp only [relax, if_pos hok, hby]
        refine .leaves (hrow.trans hm) (unrelaxed hpc fun d hd => ?_) fun _ => mode_of_relaxedBy hby
        simp only [relax, if_pos hok, hby] at hd
        cases hd
    · refine effect_finish .failed hpc ?_ fun d hd => ?_
      · simp only [relax, if_neg hok]
      · cases hd
  | bump relaxed =>
    have hcounting : (s.pc id).counting = true := by
      rw [hpc]
      rfl
    cases hfate : reply.fate with
    | lost =>
      refine effect_finish .failed hpc ?_ fun d hd => ?_
      · simp only [relax, hfate]
      · cases hd
    | applied =>
      have hm : relax service s.row id decision tool reply (.bump relaxed)
          = ⟨s.row.map (AutonomyRow.bump reply.now), .finish .failed, []⟩ := by
        simp only [relax, hfate, bumpRelaxedCounter]
      rw [hm] at hrow hnext
      have hret : returnsRelaxed service s (.go id reply) = false := by
        refine unrelaxed hpc fun d hd => ?_
        rw [hm] at hd
        cases hd
      refine .counts hcounting hrow (fun h => ?_) ?_
      · rw [hret] at h
        cases h
      · rw [hnext]
        rfl
    | ok =>
      by_cases hc : (bumpRelaxedCounter s.row reply.now).1 > service.config.maxRelaxedActionsPerHour
      · have hm : relax service s.row id decision tool reply (.bump relaxed)
            = ⟨s.row.map (AutonomyRow.bump reply.now),
              .goto (.write (.readPrevious reply.now)), []⟩ := by
          simp only [relax, hfate, if_pos hc]
          rfl
        rw [hm] at hrow hnext
        have hret : returnsRelaxed service s (.go id reply) = false := by
          refine unrelaxed hpc fun d hd => ?_
          rw [hm] at hd
          cases hd
        refine .counts hcounting hrow (fun h => ?_) ?_
        · rw [hret] at h
          cases h
        · rw [hnext]
          rfl
      · have hm : relax service s.row id decision tool reply (.bump relaxed)
            = ⟨s.row.map (AutonomyRow.bump reply.now), .finish (.returned (.decision relaxed)), []⟩ := by
          simp only [relax, hfate, if_neg hc]
          rfl
        rw [hm] at hrow hnext
        refine .counts hcounting hrow (fun _ r hr => ?_) ?_
        · rw [hr] at hc
          exact Nat.le_of_not_lt hc
        · rw [hnext]
          rfl
  | write pc =>
    have hret : returnsRelaxed service s (.go id reply) = false := by
      refine unrelaxed hpc fun d hd => ?_
      cases hn : (writeState service s.row id circuitBreaker (fun _ => .decision decision) reply
        pc).next with
      | goto pc' =>
        simp only [relax, Move.map, hn] at hd
        cases hd
      | finish outcome =>
        simp only [relax, Move.map, hn] at hd
        cases hd
        obtain ⟨_, hd⟩ := writeState_returned hn
        cases hd
        rfl
    have hcount : ((s.go service id reply).pc id).counting = false := by
      rw [hnext]
      show ((Next.map RelaxPc.write _).toPc _).counting = false
      cases (writeState service s.row id circuitBreaker (fun _ => .decision decision) reply pc).next <;>
        rfl
    rcases writeState_row service s.row id reply circuitBreaker (fun _ => .decision decision) pc with
      hsame | ⟨now, previous, rfl, happ, hset⟩
    · refine .leaves (hrow.trans hsame) hret fun hc => ?_
      rw [hcount] at hc
      cases hc
    · refine .ends ?_ (fun r hr => ?_) hret hcount
      · simp only [endsMode, hpc, happ]
        rfl
      · rw [hrow] at hr
        exact mode_of_setMode rfl r (hset ▸ hr)

/-- the expiry -/
theorem expire_effect {now : Int} {pc : ExpirePc} (hpc : s.pc id = .expire now pc) :
    Effect service s id reply (s.go service id reply) := by
  have hgo : s.go service id reply
      = s.apply id (.expire now) (expireIfNeeded service s.row id now reply pc) := by
    simp only [AutonomySystem.go, hpc]
  obtain ⟨hrow, hnext⟩ := go_apply hgo
  have hret : returnsRelaxed service s (.go id reply) = false := by
    refine returnsRelaxed_eq_false fun decision tool pc' d hpc' _ => ?_
    rw [hpc] at hpc'
    cases hpc'
  have hcount : ((s.go service id reply).pc id).counting = false := by
    rw [hnext]
    exact counting_toPc (fun _ => rfl) _
  have hleaves (hsame : (expireIfNeeded service s.row id now reply pc).row = s.row) :
      Effect service s id reply (s.go service id reply) := by
    refine .leaves (hrow.trans hsame) hret fun hc => ?_
    rw [hcount] at hc
    cases hc
  cases pc with
  | select =>
    refine hleaves ?_
    simp only [expireIfNeeded]
    split
    · split
      · rfl
      · split
        · rfl
        · split <;> rfl
    · rfl
  | write pc =>
    rcases writeState_row service s.row id reply expiry (fun _ => .ok) pc with
      hsame | ⟨_, previous, rfl, happ, hset⟩
    · exact hleaves hsame
    · refine .ends ?_ (fun r hr => ?_) hret hcount
      · simp only [endsMode, hpc, happ]
        rfl
      · rw [hrow] at hr
        exact mode_of_setMode rfl r (hset ▸ hr)

theorem go_effect (service : AutonomyService) (reply : Reply) (hb : (s.pc id).background = true) :
    Effect service s id reply (s.go service id reply) := by
  cases hpc : s.pc id with
  | relax decision tool pc => exact relax_effect hpc
  | expire now pc => exact expire_effect hpc
  | request input pc =>
    rw [hpc] at hb
    cases hb
  | approved payload pc =>
    rw [hpc] at hb
    cases hb
  | idle =>
    have hgo : s.go service id reply = s := by simp only [AutonomySystem.go, hpc]
    rw [hgo]
    refine .leaves rfl (returnsRelaxed_eq_false fun _ _ _ _ h => ?_) fun hc => ?_
    · rw [hpc] at h
      cases h
    · rw [hpc] at hc
      cases hc
  | done outcome =>
    have hgo : s.go service id reply = s := by simp only [AutonomySystem.go, hpc]
    rw [hgo]
    refine .leaves rfl (returnsRelaxed_eq_false fun _ _ _ _ h => ?_) fun hc => ?_
    · rw [hpc] at h
      cases h
    · rw [hpc] at hc
      cases hc

/-! ## the allowance -/

/-- the window stands while the mode is relaxed, and nobody counts once it is `supervised` -/
def Braked (w : Int) (s : AutonomySystem) : Prop :=
  ∃ r, s.row = some r ∧ ((r.mode ≠ .supervised ∧ r.windowStartedAt = w) ∨
    (r.mode = .supervised ∧ ∀ i, (s.pc i).counting = false))

/-- the relaxed decisions that may still be returned -/
def allowance (max : Nat) (s : AutonomySystem) : Nat :=
  match s.row with
  | none => 0
  | some r => if r.mode = .supervised then 0 else max - r.relaxedCount

theorem allowance_supervised {max : Nat} (h : ∀ r, s.row = some r → r.mode = .supervised) :
    allowance max s = 0 := by
  unfold allowance
  split
  next => rfl
  next r hr => rw [if_pos (h r hr)]

theorem allowance_congr {max : Nat} (h : t.row = s.row) : allowance max t = allowance max s := by
  unfold allowance
  rw [h]

/-- inside the window a bump adds one -/
theorem bump_inside {r : AutonomyRow} {now : Int} (h : now - hourMs ≤ r.windowStartedAt) :
    r.bump now = { r with relaxedCount := r.relaxedCount + 1 } := by
  unfold AutonomyRow.bump
  rw [if_neg (by omega)]

/-- nobody has come to count -/
theorem counting_step (h : ∀ i, (s.pc i).counting = false)
    (hid : ((s.go service id reply).pc id).counting = false) (i : CallId) :
    ((s.go service id reply).pc i).counting = false := by
  by_cases hi : i = id
  · rw [hi]
    exact hid
  · rw [go_pc_other hi]
    exact h i

theorem braked_step {l : AutonomyLabel} (hs : Braked w s) (hl : OneWindow w s l ∧ Settled s l)
    (h : step service s l = some t) :
    Braked w t ∧ (returnsRelaxed service s l).toNat
      + allowance service.config.maxRelaxedActionsPerHour t
      ≤ allowance service.config.maxRelaxedActionsPerHour s := by
  obtain ⟨⟨hback, hwindow⟩, hsettled⟩ := hl
  obtain ⟨r, hr, hmode⟩ := hs
  cases l with
  | begin i op now =>
    obtain ⟨hidle, rfl⟩ := step_begin h
    have hstart : (Pc.start now op).counting = false := by
      cases op with
      | applyApprovedChange payload => cases payload <;> rfl
      | _ => rfl
    constructor
    · refine ⟨r, hr, hmode.imp_right fun ⟨hm, hc⟩ => ⟨hm, fun j => ?_⟩⟩
      show (if j = i then Pc.start now op else s.pc j).counting = false
      split
      · exact hstart
      · exact hc j
    · rw [show allowance _ (s.set i (.start now op)) = allowance _ s from allowance_congr rfl]
      show 0 + _ ≤ _
      omega
  | go i reply =>
    cases h
    cases go_effect service reply hback with
    | leaves hrow hret hcount =>
      have hself (hm : r.mode = .supervised) :
          ((s.go service i reply).pc i).counting = false := by
        rw [Bool.eq_false_iff]
        intro hci
        obtain ⟨r', hr', hm'⟩ := hcount hci
        rw [hr, Option.some.injEq] at hr'
        exact hm' (hr' ▸ hm)
      constructor
      · exact ⟨r, hrow.trans hr, hmode.imp_right fun ⟨hm, hc⟩ => ⟨hm, counting_step hc (hself hm)⟩⟩
      · rw [allowance_congr hrow, hret]
        show 0 + _ ≤ _
        omega
    | counts hpc hrow hret hcount =>
      rcases hmode with ⟨hm, hw⟩ | ⟨_, hc⟩
      · have hbump : r.bump reply.now = { r with relaxedCount := r.relaxedCount + 1 } :=
          bump_inside (hw ▸ hwindow)
        rw [hr, Option.map_some, hbump] at hrow
        refine ⟨⟨_, hrow, Or.inl ⟨hm, hw⟩⟩, ?_⟩
        have hs0 : allowance service.config.maxRelaxedActionsPerHour s
            = service.config.maxRelaxedActionsPerHour - r.relaxedCount := by
          simp only [allowance, hr, if_neg hm]
        have ht0 : allowance service.config.maxRelaxedActionsPerHour (s.go service i reply)
            = service.config.maxRelaxedActionsPerHour - (r.relaxedCount + 1) := by
          simp only [allowance, hrow, if_neg hm]
        rw [hs0, ht0]
        cases hb : returnsRelaxed service s (.go i reply) with
        | false =>
          show 0 + _ ≤ _
          omega
        | true =>
          have hle := hret hb r hr
          rw [hbump] at hle
          have hle' : r.relaxedCount + 1 ≤ service.config.maxRelaxedActionsPerHour := hle
          show 1 + _ ≤ _
          omega
      · rw [hc i] at hpc
        cases hpc
    | ends hend hrow hret hcount =>
      have hsome : ((s.go service i reply).row).isSome = true := by
        rw [go_move.isSome, hr]
        rfl
      obtain ⟨r', hr'⟩ := Option.isSome_iff_exists.mp hsome
      refine ⟨⟨r', hr', Or.inr ⟨hrow r' hr', counting_step (hsettled hend) hcount⟩⟩, ?_⟩
      rw [allowance_supervised hrow, hret]
      exact Nat.zero_le _

/-- the breaker leaves the mode at `supervised` -/
theorem supervised_of_breaks {l : AutonomyLabel} (hl : OneWindow w s l) (hb : breaks s l = true)
    (h : step service s l = some t) : ∀ r, t.row = some r → r.mode = .supervised := by
  cases l with
  | begin i op now => cases hb
  | go i reply =>
    cases h
    obtain ⟨hpc, happ⟩ := Bool.and_eq_true_iff.mp hb
    cases hs : s.pc i with
    | relax decision tool pc =>
      rw [hs] at hpc
      cases pc with
      | write pc =>
        cases pc with
        | update now previous =>
          obtain ⟨hrow, _⟩ := relax_apply service reply hs
          rw [hrow]
          simp only [relax, writeState, Move.map, if_pos happ]
          exact mode_of_setMode rfl
        | _ => cases hpc
      | _ => cases hpc
    | _ =>
      rw [hs] at hpc
      cases hpc

end

/-- **Circuit breaker.**  From a relaxed mode with a counter at zero, in one window and without a
change of mode by the owner: as long as the mode is written while no call stands between reading it
and counting, at most the configured number of calls is relaxed, and none after the breaker. -/
theorem circuit_breaker_bound (service : AutonomyService) (s : AutonomySystem) (r : AutonomyRow)
    (hr : s.row = some r) (hmode : r.mode ≠ .supervised) (hcount : r.relaxedCount = 0)
    (ls : List AutonomyLabel) (t : AutonomySystem) (h : run (step service) s ls = some t)
    (hls : Guarded (step service) (fun s l => OneWindow r.windowStartedAt s l ∧ Settled s l) s ls) :
    BreakerBound service s ls := by
  have hs : Braked r.windowStartedAt s := ⟨r, hr, Or.inl ⟨hmode, rfl⟩⟩
  constructor
  · have hle : count (step service) (returnsRelaxed service) s ls
        + allowance service.config.maxRelaxedActionsPerHour t
        ≤ allowance service.config.maxRelaxedActionsPerHour s :=
      count_add_le (fun _ _ _ => braked_step) ls s t hs hls h
    have hall : allowance service.config.maxRelaxedActionsPerHour s
        = service.config.maxRelaxedActionsPerHour := by
      simp only [allowance, hr, if_neg hmode, hcount, Nat.sub_zero]
    omega
  · intro pre l post u v heq hu hb hv
    subst heq
    obtain ⟨hpre, hpost⟩ := (guarded_append s pre (l :: post)).mp hls
    obtain ⟨hl, hrest⟩ := (guarded_cons_some hv).mp (hpost u hu)
    have hu' : Braked r.windowStartedAt u :=
      run_inv_guarded (fun s l t hs hl ht => (braked_step hs hl ht).1) pre s u hs hpre hu
    have hv' := (braked_step hu' hl hv).1
    obtain ⟨u', hu'', ht⟩ := run_append_some.mp h
    rw [hu, Option.some.injEq] at hu''
    subst hu''
    obtain ⟨v', hv'', ht⟩ := run_cons_some.mp ht
    rw [hv, Option.some.injEq] at hv''
    subst hv''
    have hle : count (step service) (returnsRelaxed service) v post
        + allowance service.config.maxRelaxedActionsPerHour t
        ≤ allowance service.config.maxRelaxedActionsPerHour v :=
      count_add_le (fun _ _ _ => braked_step) post v t hv' hrest ht
    rw [allowance_supervised (supervised_of_breaks hl.1 hb hv)] at hle
    omega

/-! ## three calls and a limit of one -/

def oneWindowCheck (w : Int) (s : AutonomySystem) (l : AutonomyLabel) : Bool :=
  (match l with
    | .begin _ op _ => op.background
    | .go id _ => (s.pc id).background) && decide (l.now - hourMs ≤ w)

theorem oneWindow_of_check {w : Int} {s : AutonomySystem} {l : AutonomyLabel}
    (h : oneWindowCheck w s l = true) : OneWindow w s l := by
  obtain ⟨hb, hw⟩ := Bool.and_eq_true_iff.mp h
  refine ⟨?_, of_decide_eq_true hw⟩
  cases l with
  | begin id op now => exact hb
  | go id reply => exact hb

/-- the calls from `m` on have not begun, and of those below it none is about to count -/
theorem guarded_of_check {service : AutonomyService} {w : Int} (m : Nat) (ls : List AutonomyLabel) :
    ∀ s : AutonomySystem, (∀ j, m ≤ j → s.pc j = .idle) →
      (ls.all fun l => decide (l.id < m)) = true →
      checkAll (step service) (fun s l => oneWindowCheck w s l &&
        (!endsMode s l || (List.range m).all fun i => !(s.pc i).counting)) s ls = true →
      Guarded (step service) (fun s l => OneWindow w s l ∧ Settled s l) s ls := by
  induction ls with
  | nil => exact fun _ _ _ _ => trivial
  | cons l ls ih =>
    intro s hidle hid h
    obtain ⟨hl, hrest⟩ := Bool.and_eq_true_iff.mp h
    obtain ⟨hwindow, hsettled⟩ := Bool.and_eq_true_iff.mp hl
    obtain ⟨hlt, hids⟩ := Bool.and_eq_true_iff.mp hid
    refine ⟨⟨oneWindow_of_check hwindow, fun hend i => ?_⟩,
      fun t ht => ih t (fun j hj => ?_) hids ?_⟩
    · rw [hend] at hsettled
      by_cases hi : i < m
      · simpa using List.all_eq_true.mp hsettled i (List.mem_range.mpr hi)
      · rw [hidle i (Nat.le_of_not_lt hi)]
        rfl
    · rw [step_pc_other ht (Nat.ne_of_gt ((of_decide_eq_true hlt).trans_le hj))]
      exact hidle j hj
    · rw [ht] at hrest
      exact hrest

def tightService : AutonomyService :=
  ⟨{ AutonomyConfig.default with maxRelaxedActionsPerHour := 1, max_pos := by decide },
    fun text => text⟩

/-- an hour of `auto` from time 0 -/
def autoRow : AutonomyRow :=
  ⟨.auto, some hourMs, lit "owner:dual-confirm", some sampleRequest.text, 0, 0, 0⟩

def autoState : AutonomySystem := ⟨some autoRow, fun _ => .idle, []⟩

/-- the calls begin and read the mode -/
def reads (ids : List CallId) : List AutonomyLabel :=
  ids.map (fun i => .begin i (.relax sendEmailDecision sendEmail) 1)
    ++ ids.map fun i => okAt i 1 sampleRequest

/-- call 0 counts, call 1 counts and trips the breaker -/
def trip : List AutonomyLabel := [0, 1, 1, 1].map fun i => okAt i 2 sampleRequest

theorem circuit_breaker_bound_trip :
    BreakerBound tightService autoState (reads [0, 1] ++ trip ++ reads [2]) := by
  obtain ⟨t, ht⟩ := Option.isSome_iff_exists.mp (show
    (run (step tightService) autoState (reads [0, 1] ++ trip ++ reads [2])).isSome = true from rfl)
  exact circuit_breaker_bound tightService autoState autoRow rfl (by decide) rfl _ t ht
    (guarded_of_check 3 _ _ (fun _ _ => rfl) rfl (by decide))

/-- call 2 has read `auto` before the breaker wrote `supervised`, and counts from zero after it -/
theorem breaker_overrun :
    (run (step tightService) autoState (reads [0, 1, 2] ++ trip ++ [okAt 2 3 sampleRequest])).isSome
        = true ∧
      Guarded (step tightService) (OneWindow autoRow.windowStartedAt) autoState
        (reads [0, 1, 2] ++ trip ++ [okAt 2 3 sampleRequest]) ∧
      ¬ BreakerBound tightService autoState
        (reads [0, 1, 2] ++ trip ++ [okAt 2 3 sampleRequest]) := by
  refine ⟨rfl, guarded_of_checkAll (fun _ _ => oneWindow_of_check) _ _ (by decide), fun h => ?_⟩
  have hcount : count (step tightService) (returnsRelaxed tightService) autoState
      (reads [0, 1, 2] ++ trip ++ [okAt 2 3 sampleRequest]) = 2 := by decide
  have hle := h.bound
  rw [hcount] at hle
  exact absurd hle (by decide)

end Autonomy
