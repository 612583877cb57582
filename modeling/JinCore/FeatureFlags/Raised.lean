import JinCore.FeatureFlags.Reload

/-!
# An override that has been raised (`feature-flags.service.ts`, `applyApprovedOverride`)

An approval carries the level it was created with, and its executor writes that level whatever has
been reloaded since.

* `FlagsOp`, `stepOp`            reloads that return and executions, one after the other;
* `ProposedBelow`                an approval is asked for a level below the static one only;
* `raised_override_sticks_iff`   a raised level stays in force exactly until such an approval of its
                                 tool is executed.
-/

namespace FeatureFlags
open JsString Common Tools Hitl Runs

/-! ## sequences of reloads and executions -/

inductive FlagsOp where
  | reload (id : CallId) (nextConfig : FeatureFlagsConfig) (replies : List Reply)
  | execute (id : CallId) (payload : FeatureFlagHitlOverridePayload) (reply : Reply)

def FlagsOp.labels : FlagsOp → List FlagsLabel
  | .reload id nextConfig replies => .reload id (some nextConfig) :: replies.map (.go id)
  | .execute id payload reply => [.execute id payload, .go id reply]

/-- a reload has returned; an execution may have failed or been applied without an answer -/
def FlagsOp.ended (s : FlagsSystem) : FlagsOp → Bool
  | .reload id _ _ =>
    match s.pc id with
    | .done (.returned _) => true
    | _ => false
  | .execute _ _ _ => true

/-- the execution of an approval that writes the override of a tool -/
def FlagsOp.executes (toolName : JsString) : FlagsOp → Bool
  | .reload _ _ _ => false
  | .execute _ payload reply => decide (payload.targetTool = toolName) && reply.fate.applies

def FlagsOp.isExecution : FlagsOp → Bool
  | .reload _ _ _ => false
  | .execute _ _ _ => true

/-- an operation from its first statement to its end -/
def stepOp (sha256 : JsString → JsString) (s : FlagsSystem) (op : FlagsOp) : Option FlagsSystem :=
  (run (step sha256) s op.labels).bind fun t => if op.ended t then some t else none

theorem stepOp_some {sha256 : JsString → JsString} {s t : FlagsSystem} {op : FlagsOp} :
    stepOp sha256 s op = some t ↔ run (step sha256) s op.labels = some t ∧ op.ended t = true := by
  unfold stepOp
  rw [Option.bind_eq_some_iff]
  constructor
  · rintro ⟨u, hu, ht⟩
    split at ht
    next hend =>
      cases ht
      exact ⟨hu, hend⟩
    next => cases ht
  · rintro ⟨ht, hend⟩
    exact ⟨t, ht, if_pos hend⟩

/-! ## what an approval asks for -/

/-- the approvals that have been asked for, and those about to be, are below the static level -/
structure ProposedBelow (s : FlagsSystem) : Prop where
  told : ∀ payload ∈ s.history.filterMap Event.payload, IsBelow payload.targetTool payload.newLevel
  pcs : ∀ i nextConfig toolName level rest,
    s.pc i = .reload nextConfig (.createPending toolName level rest) → IsBelow toolName level

section
variable {s t u : FlagsSystem} {id : CallId} {sha256 : JsString → JsString} {reply : Reply}
  {nextConfig : FeatureFlagsConfig}

theorem proposedBelow_init (config : FeatureFlagsConfig) : ProposedBelow (.init config) :=
  ⟨nofun, nofun⟩

theorem ProposedBelow.set (h : ProposedBelow s) {pc : Pc}
    (hpc : ∀ nextConfig toolName level rest,
      pc = .reload nextConfig (.createPending toolName level rest) → IsBelow toolName level) :
    ProposedBelow (s.set id pc) := by
  refine ⟨h.told, fun i nextConfig toolName level rest hi => ?_⟩
  by_cases hid : i = id
  · exact hpc nextConfig toolName level rest ((if_pos hid).symm.trans hi)
  · exact h.pcs i nextConfig toolName level rest ((if_neg hid).symm.trans hi)

/-- a state with one more event -/
theorem ProposedBelow.told_cons (h : ProposedBelow s) {e : Event} (hhist : t.history = e :: s.history)
    (hpcs : t.pc = s.pc)
    (he : ∀ payload, e.payload = some payload → IsBelow payload.targetTool payload.newLevel) :
    ProposedBelow t := by
  refine ⟨fun payload hmem => ?_, fun i => hpcs ▸ h.pcs i⟩
  rw [hhist] at hmem
  obtain ⟨e', he', hp⟩ := List.mem_filterMap.mp hmem
  rcases List.mem_cons.mp he' with rfl | he'
  · exact he payload hp
  · exact h.told payload (List.mem_filterMap.mpr ⟨e', he', hp⟩)

theorem ProposedBelow.reconcile (h : ProposedBelow s) (nextConfig : FeatureFlagsConfig)
    (entries : List (JsString × HitlLevel)) : ProposedBelow (s.reconcile id nextConfig entries) := by
  induction entries with
  | nil =>
    have hdone : ProposedBelow (s.set id (.done (.returned ()))) :=
      h.set fun _ _ _ _ heq => by cases heq
    exact hdone.told_cons rfl rfl fun _ he => by cases he
  | cons entry entries ih =>
    obtain ⟨toolName, level⟩ := entry
    rw [FlagsSystem.reconcile]
    split
    · exact ih
    · exact h.set fun _ _ _ _ heq => by cases heq

theorem ProposedBelow.reload (h : ProposedBelow s) {pc : ReloadPc}
    (hpc : s.pc id = .reload nextConfig pc) :
    ProposedBelow (s.reload sha256 id nextConfig reply pc) := by
  cases pc with
  | select toolName level rest =>
    simp only [FlagsSystem.reload]
    split
    · split
      · exact h.reconcile nextConfig rest
      · split
        next => exact h.reconcile nextConfig rest
        next tool htool =>
          refine h.set fun nextConfig' toolName' level' rest' heq => ?_
          split at heq
          next => cases heq
          next hlt =>
            cases heq
            exact ⟨tool, htool, Nat.lt_of_not_le hlt⟩
    · exact h.set fun _ _ _ _ heq => by cases heq
  | upsert toolName level rest =>
    have h' : ProposedBelow (if reply.fate.applies then
        s.write ⟨toolName, level, reply.now, systemApprover⟩ (.raised toolName level) else s) := by
      split
      · exact h.told_cons rfl rfl fun _ he => by cases he
      · exact h
    simp only [FlagsSystem.reload]
    split
    · exact h'.reconcile nextConfig rest
    · exact h'.set fun _ _ _ _ heq => by cases heq
  | createPending toolName level rest =>
    have h' : ∀ input, ProposedBelow (if reply.fate.applies then
        s.tell (.proposed input ⟨toolName, level⟩) else s) := by
      intro input
      split
      · refine h.told_cons rfl rfl fun payload hp => ?_
        cases hp
        exact h.pcs id nextConfig toolName level rest hpc
      · exact h
    simp only [FlagsSystem.reload]
    split
    · exact (h' _).reconcile nextConfig rest
    · exact (h' _).set fun _ _ _ _ heq => by cases heq

theorem proposedBelow_step (s : FlagsSystem) (l : FlagsLabel) (t : FlagsSystem)
    (h : ProposedBelow s) (ht : step sha256 s l = some t) : ProposedBelow t := by
  cases l with
  | reload id nextConfig =>
    simp only [step] at ht
    split at ht
    · cases ht
      exact h.reconcile _ _
    · cases ht
      exact h.set fun _ _ _ _ heq => by cases heq
    · cases ht
  | execute id payload =>
    simp only [step] at ht
    split at ht
    · split at ht
      · cases ht
        exact h.set fun _ _ _ _ heq => by cases heq
      · cases ht
    · cases ht
  | go id reply =>
    simp only [step] at ht
    split at ht
    next => cases ht
    next => cases ht
    next nextConfig pc hpc =>
      cases ht
      exact h.reload hpc
    next payload hpc =>
      cases ht
      refine ProposedBelow.set ?_ fun _ _ _ _ heq => by cases heq
      split
      · exact h.told_cons rfl rfl fun _ he => by cases he
      · exact h
  | boot config =>
    cases ht
    refine ⟨h.told, fun i nextConfig toolName level rest hi => ?_⟩
    simp only at hi
    split at hi <;> cases hi

/-! ## one operation -/

/-- a reload that returns -/
theorem reload_returned {id : CallId} {replies : List Reply}
    (h : stepOp sha256 s (.reload id nextConfig replies) = some t) :
    t.config = nextConfig ∧
      ∀ toolName, rowLevel t.overrides toolName = target s.overrides nextConfig toolName := by
  obtain ⟨h, hend⟩ := stepOp_some.mp h
  have hidle : s.pc id = .idle := by
    obtain ⟨u, hu, -⟩ := run_cons_some.mp h
    simp only [step] at hu
    split at hu
    · assumption
    · assumption
    · cases hu
  have hs := reloading_run hidle h
  simp only [FlagsOp.ended] at hend
  split at hend
  next hpc =>
    rw [hpc] at hs
    exact hs
  next => cases hend

/-- an execution writes the level of its approval, which a reload has asked for -/
theorem execute_ended {id : CallId} {payload : FeatureFlagHitlOverridePayload}
    (h : stepOp sha256 s (.execute id payload reply) = some t) :
    payload ∈ s.history.filterMap Event.payload ∧ t.config = s.config ∧
      ∀ toolName, rowLevel t.overrides toolName
        = if (FlagsOp.execute id payload reply).executes toolName then some payload.newLevel
          else rowLevel s.overrides toolName := by
  obtain ⟨u, hu, h⟩ := run_cons_some.mp (stepOp_some.mp h).1
  obtain ⟨v, hv, h⟩ := run_cons_some.mp h
  cases h
  simp only [step] at hu
  split at hu
  next =>
    split at hu
    next hmem =>
      cases hu
      simp only [step, set_pc] at hv
      cases hv
      refine ⟨hmem, ?_, fun toolName => ?_⟩
      · simp only [FlagsSystem.applyApprovedOverride]
        split <;> rfl
      · cases ha : reply.fate.applies with
        | false =>
          simp only [FlagsSystem.applyApprovedOverride, FlagsOp.executes, ha, Bool.and_false,
            Bool.false_eq_true, if_false]
          rfl
        | true =>
          simp only [FlagsSystem.applyApprovedOverride, FlagsOp.executes, ha, Bool.and_true, if_true,
            decide_eq_true_eq]
          show ((upsert s.overrides _) toolName).map _ = _
          by_cases hname : payload.targetTool = toolName
          · rw [if_pos hname, upsert, if_pos hname.symm]
            rfl
          · rw [if_neg hname, upsert, if_neg (Ne.symm hname)]
            rfl
    next => cases hu
  next => cases hu

/-! ## after the last reload -/

theorem proposedBelow_stepOp (s : FlagsSystem) (op : FlagsOp) (t : FlagsSystem)
    (hs : ProposedBelow s) (h : stepOp sha256 s op = some t) : ProposedBelow t :=
  run_inv proposedBelow_step op.labels s t hs (stepOp_some.mp h).1

/-- after executions the row of a tool holds what it held, or a level below the static one -/
theorem executions_row (toolName : JsString) {executions : List FlagsOp} (hs : ProposedBelow s)
    (hexec : ∀ op ∈ executions, op.isExecution = true)
    (h : run (stepOp sha256) s executions = some t) :
    t.config = s.config ∧
      ((∀ op ∈ executions, op.executes toolName = false) ∧
          rowLevel t.overrides toolName = rowLevel s.overrides toolName ∨
        (∃ op ∈ executions, op.executes toolName = true) ∧
          ∃ level, rowLevel t.overrides toolName = some level ∧ IsBelow toolName level) := by
  induction executions generalizing s with
  | nil =>
    cases h
    exact ⟨rfl, Or.inl ⟨nofun, rfl⟩⟩
  | cons op executions ih =>
    obtain ⟨u, hu, hrest⟩ := run_cons_some.mp h
    cases op with
    | reload id nextConfig replies =>
      have := hexec _ List.mem_cons_self
      cases this
    | execute id payload reply =>
      obtain ⟨hmem, hconfig, hrow⟩ := execute_ended hu
      obtain ⟨hconfig', hlast⟩ := ih (proposedBelow_stepOp s _ u hs hu)
        (fun op hop => hexec op (List.mem_cons_of_mem _ hop)) hrest
      refine ⟨hconfig'.trans hconfig, ?_⟩
      rcases hlast with ⟨hnone, hkept⟩ | ⟨⟨op, hop, hexecutes⟩, hbelow⟩
      · rw [hkept, hrow toolName]
        cases he : (FlagsOp.execute id payload reply).executes toolName with
        | false =>
          refine Or.inl ⟨fun op hop => ?_, if_neg Bool.false_ne_true⟩
          rcases List.mem_cons.mp hop with rfl | hop
          · exact he
          · exact hnone op hop
        | true =>
          have hname : payload.targetTool = toolName :=
            of_decide_eq_true (Bool.and_eq_true_iff.mp he).1
          exact Or.inr ⟨⟨_, List.mem_cons_self, he⟩, payload.newLevel, if_pos rfl,
            hname ▸ hs.told payload hmem⟩
      · exact Or.inr ⟨⟨op, List.mem_cons_of_mem _ hop, hexecutes⟩, hbelow⟩

end

/-- **A raised override.**  After the last reload of a sequence of reloads and executions, a level it
declares at or above the static level is in force exactly as long as it is the static level or no
approval of the tool has been executed since. -/
theorem raised_override_sticks_iff (sha256 : JsString → JsString) (config nextConfig : FeatureFlagsConfig)
    (before executions : List FlagsOp) (id : CallId) (replies : List Reply)
    (hexec : ∀ op ∈ executions, op.isExecution = true) (s : FlagsSystem)
    (h : run (stepOp sha256) (.init config) (before ++ .reload id nextConfig replies :: executions)
      = some s)
    (tool : ToolDefinition) (htool : tool ∈ toolRegistry) (level : HitlLevel)
    (hd : nextConfig.declared tool.name = some level)
    (hle : hitlLevelOrdinal tool.hitlLevel ≤ hitlLevelOrdinal level) :
    effectiveLevel s.config s.overrides tool = level ↔
      level = tool.hitlLevel ∨ ∀ op ∈ executions, op.executes tool.name = false := by
  have hregistered := getToolDefinition_of_mem htool
  obtain ⟨u, hu, hrest⟩ := run_append_some.mp h
  obtain ⟨v, hv, hs⟩ := run_cons_some.mp hrest
  obtain ⟨hconfig, hrows⟩ := reload_returned hv
  have hu' : ProposedBelow u :=
    run_inv proposedBelow_stepOp before _ u (proposedBelow_init config) hu
  have hv' : ProposedBelow v := proposedBelow_stepOp u _ v hu' hv
  have hrow : rowLevel v.overrides tool.name = some level := by
    rw [hrows tool.name, target_raised hd ⟨tool, hregistered, hle⟩]
  obtain ⟨hconfig', hlast⟩ := executions_row tool.name hv' hexec hs
  rw [effectiveLevel_eq, hconfig', hconfig, hd]
  rcases hlast with ⟨hnone, hkept⟩ | ⟨⟨op, hop, hexecutes⟩, low, hlow, tool', htool', hlt⟩
  · rw [hkept, hrow]
    simp only [if_true]
    exact ⟨fun _ => Or.inr hnone, fun _ => trivial⟩
  · -- the row is below the static level, so that the static level counts
    rw [hregistered, Option.some.injEq] at htool'
    subst htool'
    have hne : low ≠ level := by
      rintro rfl
      omega
    rw [hlow]
    simp only [Option.some.injEq, if_neg hne]
    constructor
    · exact fun heq => Or.inl heq.symm
    · rintro (heq | hnone)
      · exact heq.symm
      · have := hnone op hop
        rw [hexecutes] at this
        cases this

/-! ## an approval of an earlier reload -/

def answered : List Reply := List.replicate 2 ⟨1, .ok, sampleRequest⟩

/-- `auto` is asked for, and then `confirm` declared for the same tool -/
def loweredAndRaised : List FlagsOp :=
  [.reload 0 (declaring .auto) answered, .reload 1 (declaring .confirm) answered]

/-- the executor of the approval of `auto` -/
def staleApproval : FlagsOp := .execute 2 ⟨createCalendarEvent.name, .auto⟩ ⟨2, .ok, sampleRequest⟩

theorem raised_override_confirm :
    ∃ s, run (stepOp fun text => text) (.init .empty) loweredAndRaised = some s ∧
      effectiveLevel s.config s.overrides createCalendarEvent = .confirm := by
  obtain ⟨s, hs⟩ := Option.isSome_iff_exists.mp (show
    (run (stepOp fun text => text) (.init .empty) loweredAndRaised).isSome = true from rfl)
  exact ⟨s, hs, (raised_override_sticks_iff _ .empty (declaring .confirm)
    [.reload 0 (declaring .auto) answered] [] 1 answered nofun s hs createCalendarEvent
    (.tail _ (.head _)) .confirm rfl (by decide)).mpr (Or.inr nofun)⟩

/-- the approval is executed after `confirm` was declared: the tool is back at `notify` -/
theorem raised_override_lost :
    (run (stepOp fun text => text) (.init .empty) (loweredAndRaised ++ [staleApproval])).map
        (fun s => (s.config, effectiveLevel s.config s.overrides createCalendarEvent))
      = some (declaring .confirm, .notify) := rfl

end FeatureFlags
