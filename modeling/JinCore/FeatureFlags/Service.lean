import JinCore.Hitl.Pending
import JinCore.Js.Json
import JinCore.Lib.Runs

/-!
# Feature flags (`feature-flags.service.ts`)

The configuration is in memory, the overrides of HITL levels are a table.  A reload goes through the
declared overrides statement by statement; an approved override is written by its executor.

* `FeatureFlagsConfig`, `declared`   the overrides that the YAML declares;
* `reload`, `applyApprovedOverride`  the calls, up to their next statement;
* `FlagsSystem`, `step`              the configuration, the table, the calls and what has happened;
* `resolveEffectiveLevel`            an override counts where the table agrees with the YAML;
* `Written`                          every row is the last write of its tool, and a write below the
                                     static level is an executed approval; `written_step`.
-/

namespace FeatureFlags
open JsString Common Tools Hitl Runs

/-! ## configuration and table -/

/-- the overrides of `config/feature-flags.yaml`, one for a name -/
structure FeatureFlagsConfig where
  hitlOverrides : List (JsString × HitlLevel)
  nodup : (hitlOverrides.map Prod.fst).Nodup
  deriving DecidableEq

def FeatureFlagsConfig.empty : FeatureFlagsConfig := ⟨[], List.nodup_nil⟩

/-- `config.hitlOverrides[toolName]` -/
def FeatureFlagsConfig.declared (config : FeatureFlagsConfig) (toolName : JsString) :
    Option HitlLevel :=
  (config.hitlOverrides.find? fun entry => entry.1 = toolName).map Prod.snd

/-- a row of `feature_flag_hitl_overrides` -/
structure OverrideRow where
  toolName : JsString
  level : HitlLevel
  approvedAt : Int
  approver : JsString
  deriving DecidableEq

abbrev Overrides := JsString → Option OverrideRow

/-- the insert that updates on conflict -/
def upsert (overrides : Overrides) (row : OverrideRow) : Overrides :=
  fun toolName => if toolName = row.toolName then some row else overrides toolName

def systemApprover : JsString := lit "system:configmap-reload"

def ownerApprover : JsString := lit "owner:dual-confirm"

def featureFlagHitlOverrideToolName : JsString := lit "featureFlagHitlOverride"

structure FeatureFlagHitlOverridePayload where
  targetTool : JsString
  newLevel : HitlLevel
  deriving DecidableEq

/-- `JSON.stringify` of the payload -/
def FeatureFlagHitlOverridePayload.json (payload : FeatureFlagHitlOverridePayload) : JsString :=
  Json.stringify [(lit "targetTool", some payload.targetTool),
    (lit "newLevel", some payload.newLevel.text)]

/-- the `dual-confirm` that an override below the static level waits for -/
def FeatureFlagHitlOverridePayload.pendingInput (payload : FeatureFlagHitlOverridePayload)
    (sha256 : JsString → JsString) (requestId : RequestId) : CreatePendingApprovalInput where
  requestId := requestId
  toolName := featureFlagHitlOverrideToolName
  level := .dualConfirm
  inputsHash := sha256 payload.json
  planSummary := some (lit "Bajar hitlLevel de \"" ++ payload.targetTool ++ lit "\" a \""
    ++ payload.newLevel.text ++ lit "\" vía feature flag (config/feature-flags.yaml).")
  payload := some payload.json
  actor := some (lit "system:feature-flags")
  externalInputsSummary := none

/-! ## the calls -/

inductive Event where
  /-- a reload has written an override at or above the static level -/
  | raised (toolName : JsString) (level : HitlLevel)
  /-- a reload has created the approval of an override below it -/
  | proposed (input : CreatePendingApprovalInput) (payload : FeatureFlagHitlOverridePayload)
  /-- the executor of such an approval has written the override -/
  | executed (id : CallId) (payload : FeatureFlagHitlOverridePayload)
  | reloaded (config : FeatureFlagsConfig)
  deriving DecidableEq

/-- how a statement ended, when, and the random uuid the call may draw -/
structure Reply where
  now : Int
  fate : Fate
  uuid : RequestId

/-- where a reload stands, in front of which statement of which entry -/
inductive ReloadPc where
  | select (toolName : JsString) (level : HitlLevel) (rest : List (JsString × HitlLevel))
  | upsert (toolName : JsString) (level : HitlLevel) (rest : List (JsString × HitlLevel))
  | createPending (toolName : JsString) (level : HitlLevel) (rest : List (JsString × HitlLevel))

inductive Pc where
  | idle
  | reload (nextConfig : FeatureFlagsConfig) (pc : ReloadPc)
  | apply (payload : FeatureFlagHitlOverridePayload)
  | done (outcome : Outcome Unit)

/-- the configuration, the table and the calls -/
structure FlagsSystem where
  config : FeatureFlagsConfig
  overrides : Overrides
  pc : CallId → Pc
  /-- newest first -/
  history : List Event

def FlagsSystem.init (config : FeatureFlagsConfig) : FlagsSystem :=
  ⟨config, fun _ => none, fun _ => .idle, []⟩

def FlagsSystem.set (s : FlagsSystem) (id : CallId) (pc : Pc) : FlagsSystem :=
  { s with pc := fun i => if i = id then pc else s.pc i }

def FlagsSystem.tell (s : FlagsSystem) (e : Event) : FlagsSystem :=
  { s with history := e :: s.history }

def FlagsSystem.write (s : FlagsSystem) (row : OverrideRow) (e : Event) : FlagsSystem :=
  { s with overrides := upsert s.overrides row, history := e :: s.history }

/-- the entries that are left: a tool that is not registered is skipped, and after the last one the
new configuration is in force -/
def FlagsSystem.reconcile (s : FlagsSystem) (id : CallId) (nextConfig : FeatureFlagsConfig) :
    List (JsString × HitlLevel) → FlagsSystem
  | [] => { s.set id (.done (.returned ())) with
      config := nextConfig, history := .reloaded nextConfig :: s.history }
  | (toolName, level) :: rest =>
    match getToolDefinition toolName with
    | none => s.reconcile id nextConfig rest
    | some _ => s.set id (.reload nextConfig (.select toolName level rest))

/-- one statement of a reload -/
def FlagsSystem.reload (s : FlagsSystem) (sha256 : JsString → JsString) (id : CallId)
    (nextConfig : FeatureFlagsConfig) (reply : Reply) : ReloadPc → FlagsSystem
  | .select toolName level rest =>
    if reply.fate = .ok then
      if (s.overrides toolName).map OverrideRow.level = some level then
        s.reconcile id nextConfig rest
      else
        match getToolDefinition toolName with
        | none => s.reconcile id nextConfig rest
        | some tool =>
          s.set id (.reload nextConfig
            (if hitlLevelOrdinal level ≥ hitlLevelOrdinal tool.hitlLevel then
              .upsert toolName level rest
            else .createPending toolName level rest))
    else s.set id (.done .failed)
  | .upsert toolName level rest =>
    let s' := if reply.fate.applies then
      s.write ⟨toolName, level, reply.now, systemApprover⟩ (.raised toolName level) else s
    if reply.fate = .ok then s'.reconcile id nextConfig rest else s'.set id (.done .failed)
  | .createPending toolName level rest =>
    let payload : FeatureFlagHitlOverridePayload := ⟨toolName, level⟩
    let s' := if reply.fate.applies then
      s.tell (.proposed (payload.pendingInput sha256 reply.uuid) payload) else s
    if reply.fate = .ok then s'.reconcile id nextConfig rest else s'.set id (.done .failed)

/-- the statement of the executor -/
def FlagsSystem.applyApprovedOverride (s : FlagsSystem) (id : CallId) (reply : Reply)
    (payload : FeatureFlagHitlOverridePayload) : FlagsSystem :=
  let s' := if reply.fate.applies then
    s.write ⟨payload.targetTool, payload.newLevel, reply.now, ownerApprover⟩ (.executed id payload)
    else s
  s'.set id (.done (if reply.fate = .ok then .returned () else .failed))

inductive FlagsLabel where
  /-- `none` is a file that does not load -/
  | reload (id : CallId) (nextConfig : Option FeatureFlagsConfig)
  /-- an approved override is executed, with the payload of its pending row -/
  | execute (id : CallId) (payload : FeatureFlagHitlOverridePayload)
  | go (id : CallId) (reply : Reply)
  /-- the process starts again and loads a configuration -/
  | boot (config : FeatureFlagsConfig)

def Event.payload : Event → Option FeatureFlagHitlOverridePayload
  | .proposed _ payload => some payload
  | _ => none

/-- an executor runs with the payload of an approval that a reload has created -/
def step (sha256 : JsString → JsString) (s : FlagsSystem) : FlagsLabel → Option FlagsSystem
  | .reload id nextConfig =>
    match s.pc id, nextConfig with
    | .idle, some nextConfig => some (s.reconcile id nextConfig nextConfig.hitlOverrides)
    | .idle, none => some (s.set id (.done .failed))
    | _, _ => none
  | .execute id payload =>
    match s.pc id with
    | .idle =>
      if payload ∈ s.history.filterMap Event.payload then some (s.set id (.apply payload)) else none
    | _ => none
  | .go id reply =>
    match s.pc id with
    | .idle | .done _ => none
    | .reload nextConfig pc => some (s.reload sha256 id nextConfig reply pc)
    | .apply payload => some (s.applyApprovedOverride id reply payload)
  | .boot config => some { s with
      config := config
      pc := fun i => match s.pc i with
        | .idle => .idle
        | _ => .done .failed }

/-! ## the effective level -/

/-- an override counts where the row holds exactly what the YAML declares -/
def resolveEffectiveLevel (config : FeatureFlagsConfig) (overrides : Overrides)
    (baseline : HitlDecision) : HitlDecision :=
  match config.declared baseline.toolName with
  | none => baseline
  | some declaredOverride =>
    match overrides baseline.toolName with
    | none => baseline
    | some row =>
      if row.level ≠ declaredOverride then baseline
      else
        { baseline with
          level := row.level
          approvalsRequired :=
            if row.level = .dualConfirm then 2 else if row.level = .confirm then 1 else 0
          notifyAfterExecution := decide (row.level = .notify) }

/-! ## who has written a row -/

/-- the override of a tool that an event writes, and the approver it writes with it -/
def Event.override (toolName : JsString) : Event → Option (HitlLevel × JsString)
  | .raised tool level => if toolName = tool then some (level, systemApprover) else none
  | .executed _ payload =>
    if toolName = payload.targetTool then some (payload.newLevel, ownerApprover) else none
  | _ => none

/-- the last write of the override of a tool -/
def lastOverride (toolName : JsString) (h : List Event) : Option (HitlLevel × JsString) :=
  h.findSome? (Event.override toolName)

/-- the level is at or above the static level of the tool -/
def NotBelow (toolName : JsString) (level : HitlLevel) : Prop :=
  ∃ tool, getToolDefinition toolName = some tool ∧
    hitlLevelOrdinal tool.hitlLevel ≤ hitlLevelOrdinal level

def Proposed (payload : FeatureFlagHitlOverridePayload) (h : List Event) : Prop :=
  ∃ input, .proposed input payload ∈ h

def PcFact (h : List Event) : Pc → Prop
  | .reload _ (.upsert toolName level _) => NotBelow toolName level
  | .apply payload => Proposed payload h
  | _ => True

/-- every row is the last write of its tool; a reload writes nothing below the static level, and an
executor only what a reload has proposed -/
structure Written (s : FlagsSystem) : Prop where
  rows : ∀ toolName, (s.overrides toolName).map (fun row => (row.level, row.approver))
    = lastOverride toolName s.history
  raised : ∀ toolName level, .raised toolName level ∈ s.history → NotBelow toolName level
  executed : ∀ id payload, .executed id payload ∈ s.history → Proposed payload s.history
  pcs : ∀ id, PcFact s.history (s.pc id)

section
variable {s t : FlagsSystem} {id : CallId} {h : List Event} {sha256 : JsString → JsString}
  {payload : FeatureFlagHitlOverridePayload}

theorem Proposed.cons (hp : Proposed payload h) (e : Event) : Proposed payload (e :: h) := by
  obtain ⟨input, hmem⟩ := hp
  exact ⟨input, List.mem_cons_of_mem _ hmem⟩

theorem PcFact.cons {pc : Pc} (hf : PcFact h pc) (e : Event) : PcFact (e :: h) pc := by
  cases pc with
  | reload nextConfig pc => cases pc <;> exact hf
  | apply payload => exact Proposed.cons hf e
  | _ => trivial

/-- an event that writes nothing -/
theorem Written.tell (hw : Written s) {e : Event} (he : ∀ toolName, e.override toolName = none) :
    Written (s.tell e) := by
  refine ⟨fun toolName => ?_, fun toolName level hmem => ?_, fun i payload hmem => ?_,
    fun i => (hw.pcs i).cons e⟩
  · show _ = List.findSome? _ (e :: s.history)
    rw [List.findSome?_cons, he toolName]
    exact hw.rows toolName
  · rcases List.mem_cons.mp hmem with rfl | hmem
    · have := he toolName
      rw [Event.override, if_pos rfl] at this
      cases this
    · exact hw.raised toolName level hmem
  · rcases List.mem_cons.mp hmem with rfl | hmem
    · have := he payload.targetTool
      rw [Event.override, if_pos rfl] at this
      cases this
    · exact (hw.executed i payload hmem).cons e

theorem Written.set (hw : Written s) {pc : Pc} (hf : PcFact s.history pc) :
    Written (s.set id pc) := by
  refine ⟨hw.rows, hw.raised, hw.executed, fun i => ?_⟩
  show PcFact s.history (if i = id then pc else s.pc i)
  split
  · exact hf
  · exact hw.pcs i

/-- an event that writes the row -/
theorem Written.write (hw : Written s) {row : OverrideRow} {e : Event}
    (he : ∀ toolName, e.override toolName
      = if toolName = row.toolName then some (row.level, row.approver) else none)
    (hraised : ∀ toolName level, e = .raised toolName level → NotBelow toolName level)
    (hexecuted : ∀ i payload, e = .executed i payload → Proposed payload s.history) :
    Written (s.write row e) := by
  refine ⟨fun toolName => ?_, fun toolName level hmem => ?_, fun i payload hmem => ?_,
    fun i => (hw.pcs i).cons e⟩
  · show Option.map _ (if toolName = row.toolName then some row else s.overrides toolName)
      = List.findSome? _ (e :: s.history)
    rw [List.findSome?_cons, he toolName]
    split
    · rfl
    · exact hw.rows toolName
  · rcases List.mem_cons.mp hmem with heq | hmem
    · exact hraised toolName level heq.symm
    · exact hw.raised toolName level hmem
  · rcases List.mem_cons.mp hmem with heq | hmem
    · exact (hexecuted i payload heq.symm).cons e
    · exact (hw.executed i payload hmem).cons e

theorem Written.reconcile (hw : Written s) (nextConfig : FeatureFlagsConfig)
    (entries : List (JsString × HitlLevel)) : Written (s.reconcile id nextConfig entries) := by
  induction entries with
  | nil =>
    have hdone : Written (s.set id (.done (.returned ()))) := hw.set trivial
    have h := hdone.tell (e := .reloaded nextConfig) fun _ => rfl
    exact ⟨h.rows, h.raised, h.executed, h.pcs⟩
  | cons entry entries ih =>
    obtain ⟨toolName, level⟩ := entry
    rw [FlagsSystem.reconcile]
    split
    · exact ih
    · exact hw.set trivial

theorem Written.reload (hw : Written s) {nextConfig : FeatureFlagsConfig} {pc : ReloadPc}
    (hpc : s.pc id = .reload nextConfig pc) (reply : Reply) :
    Written (s.reload sha256 id nextConfig reply pc) := by
  cases pc with
  | select toolName level rest =>
    rw [FlagsSystem.reload]
    split
    · split
      · exact hw.reconcile nextConfig rest
      · split
        next => exact hw.reconcile nextConfig rest
        next tool htool =>
          refine hw.set ?_
          split
          next hle => exact ⟨tool, htool, hle⟩
          next => trivial
    · exact hw.set trivial
  | upsert toolName level rest =>
    have hs' : Written (if reply.fate.applies then
        s.write ⟨toolName, level, reply.now, systemApprover⟩ (.raised toolName level) else s) := by
      split
      · refine hw.write (fun _ => rfl) (fun toolName' level' he => ?_) fun _ _ he => nomatch he
        cases he
        have hf := hw.pcs id
        rw [hpc] at hf
        exact hf
      · exact hw
    simp only [FlagsSystem.reload]
    split
    · exact hs'.reconcile nextConfig rest
    · exact hs'.set trivial
  | createPending toolName level rest =>
    have hs' : ∀ e : Event, (∀ toolName, e.override toolName = none) →
        Written (if reply.fate.applies then s.tell e else s) := by
      intro e he
      split
      · exact hw.tell he
      · exact hw
    simp only [FlagsSystem.reload]
    split
    · exact (hs' _ fun _ => rfl).reconcile nextConfig rest
    · exact (hs' _ fun _ => rfl).set trivial

theorem Written.apply (hw : Written s) (hpc : s.pc id = .apply payload) (reply : Reply) :
    Written (s.applyApprovedOverride id reply payload) := by
  refine Written.set ?_ trivial
  split
  · refine hw.write (fun _ => rfl) (fun _ _ he => nomatch he) fun i payload' he => ?_
    cases he
    have hf := hw.pcs id
    rw [hpc] at hf
    exact hf
  · exact hw

end

theorem written_init (config : FeatureFlagsConfig) : Written (.init config) :=
  ⟨fun _ => rfl, fun _ _ h => (nomatch h), fun _ _ h => (nomatch h), fun _ => trivial⟩

theorem written_step (sha256 : JsString → JsString) (s : FlagsSystem) (l : FlagsLabel)
    (t : FlagsSystem) (hw : Written s) (h : step sha256 s l = some t) : Written t := by
  cases l with
  | reload id nextConfig =>
    simp only [step] at h
    split at h
    · cases h
      exact hw.reconcile _ _
    · cases h
      exact hw.set trivial
    · cases h
  | execute id payload =>
    simp only [step] at h
    split at h
    · split at h
      next hmem =>
        cases h
        refine hw.set ?_
        obtain ⟨e, he, hp⟩ := List.mem_filterMap.mp hmem
        cases e with
        | proposed input payload' =>
          cases hp
          exact ⟨input, he⟩
        | _ => cases hp
      next => cases h
    · cases h
  | go id reply =>
    simp only [step] at h
    split at h
    next => cases h
    next => cases h
    next nextConfig pc hpc =>
      cases h
      exact hw.reload hpc reply
    next payload hpc =>
      cases h
      exact hw.apply hpc reply
  | boot config =>
    cases h
    refine ⟨hw.rows, hw.raised, hw.executed, fun id => ?_⟩
    show PcFact s.history (match s.pc id with
      | .idle => Pc.idle
      | _ => .done .failed)
    split <;> trivial

/-- a row below the static level of its tool was written last by the executor of an approval that a
reload has created -/
theorem executed_of_below {sha256 : JsString → JsString} {config : FeatureFlagsConfig}
    {ls : List FlagsLabel} {s : FlagsSystem} (h : run (step sha256) (.init config) ls = some s)
    {toolName : JsString} {row : OverrideRow} (hrow : s.overrides toolName = some row)
    {tool : ToolDefinition} (htool : getToolDefinition toolName = some tool)
    (hlt : hitlLevelOrdinal row.level < hitlLevelOrdinal tool.hitlLevel) :
    row.approver = ownerApprover ∧ ∃ post id pre,
      s.history = post ++ .executed id ⟨toolName, row.level⟩ :: pre ∧
        (∀ e ∈ post, e.override toolName = none) ∧
        Proposed ⟨toolName, row.level⟩ s.history := by
  have hw := run_inv (written_step sha256) ls _ _ (written_init config) h
  have hlast := hw.rows toolName
  rw [hrow, Option.map_some] at hlast
  obtain ⟨post, e, pre, hsplit, he, hpost⟩ := List.findSome?_eq_some_iff.mp hlast.symm
  have hmem : e ∈ s.history := by
    rw [hsplit]
    exact List.mem_append_right _ List.mem_cons_self
  cases e with
  | raised tool' level =>
    simp only [Event.override] at he
    split at he
    next heq =>
      subst heq
      rw [Option.some.injEq, Prod.mk.injEq] at he
      obtain ⟨tool'', htool', hle⟩ := hw.raised _ _ hmem
      rw [htool, Option.some.injEq] at htool'
      rw [he.1, ← htool'] at hle
      omega
    next => cases he
  | executed id payload =>
    simp only [Event.override] at he
    split at he
    next heq =>
      rw [Option.some.injEq, Prod.mk.injEq] at he
      obtain ⟨tool', level⟩ := payload
      have hp : (⟨toolName, row.level⟩ : FeatureFlagHitlOverridePayload) = ⟨tool', level⟩ := by
        rw [heq, ← he.1]
      rw [hp]
      exact ⟨he.2.symm, post, id, pre, hsplit, hpost, hw.executed _ _ hmem⟩
    next => cases he
  | proposed input payload => cases he
  | reloaded config => cases he

end FeatureFlags
