import JinCore.Autonomy.Steps
import JinCore.FeatureFlags.Service

/-!
# The effective HITL level (`classifier.ts`, `hitl-policy.service.ts`)

* `classifyToolCall`      the static level of the registry, or an error;
* `relaxed`, `relax_returned`   what `relax` returns, as a function of the two rows it has met;
* `decide`                the three layers: the registry, the overrides, the autonomy mode;
* `decide_sound`          what may lower a level, and who has approved it.
-/

namespace HitlPolicy
open JsString Common Tools Hitl FeatureFlags Autonomy Runs

def unknownToolError (toolName : JsString) : JinError where
  message := lit "Tool no registrada en el HITL registry: \"" ++ toolName ++ lit "\""
  code := lit "HITL_UNKNOWN_TOOL"
  httpStatus := some 400

/-- the inputs do not count -/
def classifyToolCall {ι : Type} (requestId toolName : JsString) (_inputs : ι) :
    Except JinError HitlDecision :=
  match getToolDefinition toolName with
  | none => .error (unknownToolError toolName)
  | some tool => .ok
    { requestId := requestId
      toolName := tool.name
      level := tool.hitlLevel
      approvalsRequired := approvalsRequiredFor tool.hitlLevel
      notifyAfterExecution := tool.hitlLevel = .notify
      relaxedBy := none }

/-- a row and the time at which it is met -/
structure Sight where
  row : Option AutonomyRow
  now : Int

/-- what `relax` returns: `read` is what `getState` has met, `counted` what the counter has -/
def relaxed (config : AutonomyConfig) (read counted : Sight) (decision : HitlDecision)
    (tool : Option ToolDefinition) : HitlDecision :=
  let result := relaxDecision decision (getState read.row read.now).mode tool
  match result.relaxedBy with
  | none => decision
  | some _ =>
    if (bumpRelaxedCounter counted.row counted.now).1 > config.maxRelaxedActionsPerHour then decision
    else result.decision

def decide {ι : Type} (config : AutonomyConfig) (flags : FeatureFlagsConfig) (overrides : Overrides)
    (read counted : Sight) (requestId toolName : JsString) (inputs : ι) :
    Except JinError HitlDecision :=
  match classifyToolCall requestId toolName inputs with
  | .error e => .error e
  | .ok staticDecision =>
    let flagged := resolveEffectiveLevel flags overrides staticDecision
    if flagged.level ≠ staticDecision.level then .ok flagged
    else .ok (relaxed config read counted flagged (getToolDefinition toolName))

/-! ## what a call of `relax` returns -/

/-- the row at some point of a run -/
def Seen (service : AutonomyService) (seed : Int) (ls : List AutonomyLabel)
    (row : Option AutonomyRow) : Prop :=
  ∃ pre post s, ls = pre ++ post ∧ run (Autonomy.step service) (.init seed) pre = some s ∧ s.row = row

def RelaxFact (service : AutonomyService) (seed : Int) (ls : List AutonomyLabel)
    (decision : HitlDecision) (tool : Option ToolDefinition) : RelaxPc → Prop
  | .getState _ => True
  | .bump d => ∃ (read : Sight) (by_ : JsString), Seen service seed ls read.row ∧
      relaxDecision decision (getState read.row read.now).mode tool = ⟨d, some by_⟩
  | .write _ => ∃ read counted : Sight, Seen service seed ls read.row ∧
      Seen service seed ls counted.row ∧ relaxed service.config read counted decision tool = decision

/-- what holds where a call of `relax` goes on, and of what it returns -/
def RelaxNext (service : AutonomyService) (seed : Int) (ls : List AutonomyLabel)
    (decision : HitlDecision) (tool : Option ToolDefinition) : Autonomy.Next RelaxPc → Prop
  | .goto pc => RelaxFact service seed ls decision tool pc
  | .finish (.returned (.decision d)) => ∃ read counted, Seen service seed ls read.row ∧
      Seen service seed ls counted.row ∧ d = relaxed service.config read counted decision tool
  | .finish _ => True

section
variable {service : AutonomyService} {seed : Int} {ls : List AutonomyLabel} {s : AutonomySystem}
  {row : Option AutonomyRow} {decision : HitlDecision} {tool : Option ToolDefinition}

theorem Seen.append (h : Seen service seed ls row) (ls' : List AutonomyLabel) :
    Seen service seed (ls ++ ls') row := by
  obtain ⟨pre, post, s, rfl, hs, hrow⟩ := h
  exact ⟨pre, post ++ ls', s, List.append_assoc _ _ _, hs, hrow⟩

theorem seen_last (h : run (Autonomy.step service) (.init seed) ls = some s) :
    Seen service seed ls s.row :=
  ⟨ls, [], s, (List.append_nil ls).symm, h, rfl⟩

theorem RelaxFact.append {pc : RelaxPc} (h : RelaxFact service seed ls decision tool pc)
    (ls' : List AutonomyLabel) : RelaxFact service seed (ls ++ ls') decision tool pc := by
  cases pc with
  | getState now => trivial
  | bump d =>
    obtain ⟨read, by_, hseen, hd⟩ := h
    exact ⟨read, by_, hseen.append ls', hd⟩
  | write pc =>
    obtain ⟨read, counted, hread, hcounted, hd⟩ := h
    exact ⟨read, counted, hread.append ls', hcounted.append ls', hd⟩

/-- a statement of `relax` -/
theorem relax_next (id : CallId) (reply : Autonomy.Reply) {pc : RelaxPc}
    (hs : run (Autonomy.step service) (.init seed) ls = some s)
    (hf : RelaxFact service seed ls decision tool pc) :
    RelaxNext service seed ls decision tool
      (relax service s.row id decision tool reply pc).next := by
  have hseen := seen_last hs
  cases pc with
  | getState now =>
    simp only [relax]
    split
    · split
      next hnone =>
        refine ⟨⟨s.row, now⟩, ⟨s.row, now⟩, hseen, hseen, ?_⟩
        simp only [relaxed, hnone]
      next by_ hby => exact ⟨⟨s.row, now⟩, by_, hseen, by rw [← hby]⟩
    · trivial
  | bump relaxedDecision =>
    obtain ⟨read, by_, hread, hd⟩ := hf
    have hvalue : relaxed service.config read ⟨s.row, reply.now⟩ decision tool
        = if (bumpRelaxedCounter s.row reply.now).1 > service.config.maxRelaxedActionsPerHour then
          decision else relaxedDecision := by
      simp only [relaxed, hd]
    simp only [relax]
    split
    · trivial
    · trivial
    · split
      next hc => exact ⟨read, ⟨s.row, reply.now⟩, hread, hseen, by rw [hvalue, if_pos hc]⟩
      next hc => exact ⟨read, ⟨s.row, reply.now⟩, hread, hseen, by rw [hvalue, if_neg hc]⟩
  | write pc =>
    -- the circuit breaker has tripped: the call keeps what it has read
    cases pc with
    | readPrevious now =>
      simp only [relax, writeState, Move.map]
      split
      · exact hf
      · trivial
    | auditBefore now previous =>
      simp only [relax, writeState, Move.map]
      split
      · exact hf
      · trivial
    | update now previous =>
      simp only [relax, writeState, Move.map]
      split
      · exact hf
      · trivial
    | auditAfter now previous =>
      obtain ⟨read, counted, hread, hcounted, hd⟩ := hf
      exact ⟨read, counted, hread, hcounted, hd.symm⟩

theorem relaxFact_run (ls : List AutonomyLabel) : ∀ (s : AutonomySystem),
    run (Autonomy.step service) (.init seed) ls = some s → ∀ id decision tool pc,
      s.pc id = .relax decision tool pc → RelaxFact service seed ls decision tool pc := by
  induction ls using List.reverseRecOn with
  | nil =>
    intro s hs id decision tool pc hpc
    cases hs
    cases hpc
  | append_singleton ls l ih =>
    intro t ht id decision tool pc hpc
    obtain ⟨s, hs, hlast⟩ := run_append_some.mp ht
    obtain ⟨t', hstep, hnil⟩ := run_cons_some.mp hlast
    cases hnil
    apply RelaxFact.append
    by_cases hl : id = l.id
    · cases l with
      | begin i op now =>
        obtain ⟨_, rfl⟩ := step_begin hstep
        change id = i at hl
        rw [hl, show (s.set i (.start now op)).pc i = .start now op from if_pos rfl] at hpc
        cases op with
        | relax decision' tool' =>
          cases hpc
          trivial
        | applyApprovedChange payload => cases payload <;> cases hpc
        | _ => cases hpc
      | go i reply =>
        cases hstep
        change id = i at hl
        subst hl
        obtain ⟨pc', hpc', hn⟩ := relax_of_go hpc
        have hnext := relax_next id reply hs (ih s hs id decision tool pc' hpc')
        rw [hn] at hnext
        exact hnext
    · rw [step_pc_other hstep hl] at hpc
      exact ih s hs id decision tool pc hpc

/-- **What `relax` returns.**  The decision of a call that ends in a run is `relaxed` of two rows of
the run. -/
theorem relax_returned (hs : run (Autonomy.step service) (.init seed) ls = some s) {id : CallId}
    {pc : RelaxPc} (hpc : s.pc id = .relax decision tool pc) {reply : Autonomy.Reply}
    {d : HitlDecision} (hd : (s.go service id reply).pc id = .done (.returned (.decision d))) :
    ∃ read counted, Seen service seed ls read.row ∧ Seen service seed ls counted.row ∧
      d = relaxed service.config read counted decision tool := by
  have hnext := relax_next id reply hs (relaxFact_run ls s hs id decision tool pc hpc)
  unfold AutonomySystem.go at hd
  rw [hpc, apply_pc_self] at hd
  generalize (relax service s.row id decision tool reply pc).next = n at hd hnext
  cases n with
  | goto pc' => cases hd
  | finish outcome =>
    cases hd
    exact hnext

end

/-! ## what may lower a level -/

/-- the YAML declares the level and the row holds it, written last by the executor of an approval -/
structure LoweredByOverride (flags : FeatureFlagsConfig) (s : FlagsSystem) (toolName : JsString)
    (level : HitlLevel) : Prop where
  declared : flags.declared toolName = some level
  row : ∃ row, s.overrides toolName = some row ∧ row.level = level ∧ row.approver = ownerApprover
  executed : ∃ post id pre, s.history = post ++ .executed id ⟨toolName, level⟩ :: pre ∧
    ∀ e ∈ post, e.override toolName = none
  proposed : Proposed ⟨toolName, level⟩ s.history

/-- a mode that has not expired makes a `notify` of a `confirm` that no override has changed -/
structure LoweredByMode (read : Sight) (tool : ToolDefinition) (flagged level : HitlLevel) :
    Prop where
  static : tool.hitlLevel = .confirm
  flagged : flagged = .confirm
  level : level = .notify
  mode : ∃ row expiresAt, read.row = some row ∧ (row.mode = .semiAuto ∨ row.mode = .auto) ∧
    row.expiresAt = some expiresAt ∧ read.now < expiresAt ∧
    (row.mode = .semiAuto → tool.guardedInSemiAuto = false)
  human : tool.humanDecision = false

section
variable {read : Sight} {toolName requestId : JsString} {decision : HitlDecision}

theorem agrees_classify {ι : Type} {inputs : ι}
    (h : classifyToolCall requestId toolName inputs = .ok decision) :
    ∃ tool, getToolDefinition toolName = some tool ∧ decision.toolName = toolName ∧
      decision.level = tool.hitlLevel ∧ decision.Agrees := by
  unfold classifyToolCall at h
  split at h
  next => cases h
  next tool htool =>
    cases h
    exact ⟨tool, htool, name_of_getToolDefinition htool, rfl, rfl, rfl⟩

/-- an override changes the level only to what both the YAML and the row say -/
theorem resolveEffectiveLevel_cases (flags : FeatureFlagsConfig) (overrides : Overrides)
    (baseline : HitlDecision) (hb : baseline.Agrees) :
    (resolveEffectiveLevel flags overrides baseline).Agrees ∧
      (resolveEffectiveLevel flags overrides baseline = baseline ∨
        ∃ row, overrides baseline.toolName = some row ∧
          flags.declared baseline.toolName = some row.level ∧
          (resolveEffectiveLevel flags overrides baseline).level = row.level) := by
  unfold resolveEffectiveLevel
  split
  next => exact ⟨hb, Or.inl rfl⟩
  next declaredOverride hdeclared =>
    split
    next => exact ⟨hb, Or.inl rfl⟩
    next row hrow =>
      split
      next => exact ⟨hb, Or.inl rfl⟩
      next heq =>
        rw [not_not] at heq
        refine ⟨⟨?_, rfl⟩, Or.inr ⟨row, hrow, by rw [hdeclared, heq], rfl⟩⟩
        show (if row.level = .dualConfirm then 2 else if row.level = .confirm then 1 else 0) = _
        cases row.level <;> rfl

/-- a mode in force is that of a row that has not expired -/
theorem mode_in_force (hm : (getState read.row read.now).mode ≠ .supervised) :
    ∃ row expiresAt, read.row = some row ∧ (getState read.row read.now).mode = row.mode ∧
      row.expiresAt = some expiresAt ∧ read.now < expiresAt := by
  cases hrow : read.row with
  | none =>
    rw [hrow] at hm
    exact absurd rfl hm
  | some row =>
    rw [hrow, getState_some_mode] at hm
    rw [getState_some_mode]
    split at hm
    next => exact absurd rfl hm
    next hx =>
      cases he : row.expiresAt with
      | none =>
        unfold AutonomyRow.isExpired at hx
        rw [he] at hx
        exact absurd rfl hx
      | some expiresAt =>
        unfold AutonomyRow.isExpired at hx
        rw [he] at hx
        have hnot : ¬ row.isExpired read.now = true := by
          unfold AutonomyRow.isExpired
          rw [he]
          exact hx
        refine ⟨row, expiresAt, rfl, if_neg hnot, he, ?_⟩
        simpa using hx

/-- `relax` leaves a decision, or lowers it as the mode allows -/
theorem relaxed_cases (config : AutonomyConfig) (read counted : Sight) (decision : HitlDecision)
    (tool : ToolDefinition) :
    relaxed config read counted decision (some tool) = decision ∨
      (decision.level = .confirm ∧ (relaxed config read counted decision (some tool)).Agrees ∧
        (relaxed config read counted decision (some tool)).level = .notify ∧
        (tool.hitlLevel = .confirm → LoweredByMode read tool decision.level .notify)) := by
  unfold relaxed
  rcases relaxDecision_cases decision (getState read.row read.now).mode (some tool) with
    h | ⟨hmode, hlevel, hhuman, hguarded, d, by_, h, _, hd, hagrees⟩
  · left
    simp only [h]
  · simp only [h]
    split
    · exact Or.inl rfl
    · refine Or.inr ⟨hlevel, hagrees, hd, fun hstatic => ⟨hstatic, hlevel, rfl, ?_, ?_⟩⟩
      · obtain ⟨row, expiresAt, hrow, hrm, he, hlt⟩ := mode_in_force hmode
        rw [hrm] at hmode hguarded
        refine ⟨row, expiresAt, hrow, ?_, he, hlt, fun hs => ?_⟩
        · cases hm : row.mode with
          | supervised => exact absurd hm hmode
          | semiAuto => exact Or.inl rfl
          | auto => exact Or.inr rfl
        · simpa using hguarded hs
      · simpa using hhuman

end

/-- **The effective level is sound.**  Whatever reloads, approvals and restarts have come before
the configuration is read and before the row is, and whatever the autonomy row is: `decide` fails
only for a name that is not registered, and otherwise its decision agrees with its level, which is
below the static level only by an executed approval of exactly that override or by a mode that has
not expired and does not guard the tool. -/
theorem decide_sound (sha256 : JsString → JsString) (config₀ : FeatureFlagsConfig)
    (ls₁ ls₂ : List FlagsLabel) (s₁ s₂ : FlagsSystem)
    (h₁ : run (FeatureFlags.step sha256) (.init config₀) ls₁ = some s₁)
    (h₂ : run (FeatureFlags.step sha256) s₁ ls₂ = some s₂) (config : AutonomyConfig)
    (read counted : Sight) (requestId toolName : JsString) {ι : Type} (inputs : ι) :
    match decide config s₁.config s₂.overrides read counted requestId toolName inputs with
    | .error e => getToolDefinition toolName = none ∧ e = unknownToolError toolName
    | .ok d => ∃ tool staticDecision, getToolDefinition toolName = some tool ∧
        classifyToolCall requestId toolName inputs = .ok staticDecision ∧ d.Agrees ∧
        (hitlLevelOrdinal d.level < hitlLevelOrdinal tool.hitlLevel →
          LoweredByOverride s₁.config s₂ toolName d.level ∨
          LoweredByMode read tool
            (resolveEffectiveLevel s₁.config s₂.overrides staticDecision).level d.level) := by
  unfold decide
  cases hstatic : classifyToolCall requestId toolName inputs with
  | error e =>
    unfold classifyToolCall at hstatic
    split at hstatic
    next hnone =>
      cases hstatic
      exact ⟨hnone, rfl⟩
    next => cases hstatic
  | ok staticDecision =>
    obtain ⟨tool, htool, hname, hlevel, hagrees⟩ := agrees_classify hstatic
    obtain ⟨hflagged, hcases⟩ := resolveEffectiveLevel_cases s₁.config s₂.overrides staticDecision
      hagrees
    simp only
    by_cases hne : (resolveEffectiveLevel s₁.config s₂.overrides staticDecision).level
        ≠ staticDecision.level
    · rw [if_pos hne]
      refine ⟨tool, staticDecision, htool, rfl, hflagged, fun hlt => Or.inl ?_⟩
      rcases hcases with heq | ⟨row, hrow, hdeclared, hl⟩
      · rw [heq] at hne
        exact absurd rfl hne
      · rw [hname] at hrow hdeclared
        rw [hl] at hlt ⊢
        obtain ⟨happrover, post, id, pre, hsplit, hpost, hproposed⟩ :=
          executed_of_below (run_append_some.mpr ⟨s₁, h₁, h₂⟩) hrow htool hlt
        exact ⟨hdeclared, ⟨row, hrow, rfl, happrover⟩, ⟨post, id, pre, hsplit, hpost⟩, hproposed⟩
    · rw [if_neg hne, htool]
      rw [not_not] at hne
      rcases relaxed_cases config read counted
        (resolveEffectiveLevel s₁.config s₂.overrides staticDecision) tool with
        heq | ⟨hconfirm, hrelaxed, hnotify, hmode⟩
      · rw [heq]
        refine ⟨tool, staticDecision, rfl, rfl, hflagged, fun hlt => ?_⟩
        rw [hne, hlevel] at hlt
        exact absurd hlt (lt_irrefl _)
      · refine ⟨tool, staticDecision, rfl, rfl, hrelaxed, fun _ => Or.inr ?_⟩
        rw [hnotify]
        exact hmode (hlevel.symm.trans (hne.symm.trans hconfirm))

/-! ## an approved override -/

def sampleFlags : FeatureFlagsConfig where
  hitlOverrides := [(lit "sendEmail", .notify)]
  nodup := List.nodup_singleton _

def done (id : CallId) : FlagsLabel := .go id ⟨0, .ok, sampleRequest⟩

def sampleDecision : HitlDecision := ⟨sampleRequest.text, lit "sendEmail", .notify, 0, true, none⟩

/-- a reload proposes the override, its executor writes the row -/
theorem decide_sound_approved :
    ∃ s₁ s₂, run (FeatureFlags.step fun text => text) (.init .empty)
        [.reload 0 (some sampleFlags), done 0, done 0] = some s₁ ∧
      run (FeatureFlags.step fun text => text) s₁
        [.execute 1 ⟨lit "sendEmail", .notify⟩, done 1] = some s₂ ∧
      decide .default s₁.config s₂.overrides ⟨none, 0⟩ ⟨none, 0⟩ sampleRequest.text
        (lit "sendEmail") () = .ok sampleDecision ∧
      LoweredByOverride s₁.config s₂ (lit "sendEmail") .notify := by
  obtain ⟨s₁, h₁, hconfig⟩ := Option.map_eq_some_iff.mp (show
    (run (FeatureFlags.step fun text => text) (.init .empty)
      [.reload 0 (some sampleFlags), done 0, done 0]).map (fun s => s.config)
      = some sampleFlags from rfl)
  obtain ⟨s₂, h, hdecide⟩ := Option.map_eq_some_iff.mp (show
    (run (FeatureFlags.step fun text => text) (.init .empty)
      ([.reload 0 (some sampleFlags), done 0, done 0] ++
        [.execute 1 ⟨lit "sendEmail", .notify⟩, done 1])).map (fun s =>
        decide .default sampleFlags s.overrides ⟨none, 0⟩ ⟨none, 0⟩ sampleRequest.text
          (lit "sendEmail") ()) = some (.ok sampleDecision) from rfl)
  obtain ⟨s₁', h₁', h₂⟩ := run_append_some.mp h
  rw [h₁, Option.some.injEq] at h₁'
  subst h₁'
  rw [← hconfig] at hdecide
  refine ⟨s₁, s₂, h₁, h₂, hdecide, ?_⟩
  have hsound := decide_sound (fun text => text) .empty _ _ s₁ s₂ h₁ h₂ .default ⟨none, 0⟩
    ⟨none, 0⟩ sampleRequest.text (lit "sendEmail") ()
  rw [hdecide] at hsound
  obtain ⟨tool, staticDecision, htool, _, _, hlower⟩ := hsound
  have hlevel : tool.hitlLevel = .confirm := by
    have : (getToolDefinition (lit "sendEmail")).map ToolDefinition.hitlLevel = some .confirm :=
      rfl
    rw [htool] at this
    exact Option.some.inj this
  have hbelow : hitlLevelOrdinal .notify < hitlLevelOrdinal tool.hitlLevel := by
    rw [hlevel]
    decide
  rcases hlower hbelow with hoverride | hmode
  · exact hoverride
  · obtain ⟨row, _, hrow, _⟩ := hmode.mode
    cases hrow

end HitlPolicy
