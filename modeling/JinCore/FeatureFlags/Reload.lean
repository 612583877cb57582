import JinCore.HitlPolicy.Service
import JinCore.Lib.Table

/-!
# A reload on its way (`feature-flags.service.ts`, `reload`)

The rows are written entry by entry, the configuration is swapped after the last one, and an
override counts only where the two agree.

* `effectiveLevel`           the level of a tool, between the static level and the two sources;
* `target`                   the level of every row once a reload has been through;
* `Reloading`                where one reload stands; `reloading_run`: every run of it stays there;
* `NeverWeakens`             what the callers of `resolveEffectiveLevel` see meanwhile;
* `Undisturbed`              no row that the reload writes counts in the old configuration;
* `reload_never_weakens_iff` the protection holds on the way exactly then.
-/

namespace FeatureFlags
open JsString Common Tools Hitl HitlPolicy Runs

/-! ## the level of a tool -/

def staticDecision (tool : ToolDefinition) : HitlDecision where
  requestId := lit ""
  toolName := tool.name
  level := tool.hitlLevel
  approvalsRequired := approvalsRequiredFor tool.hitlLevel
  notifyAfterExecution := decide (tool.hitlLevel = .notify)
  relaxedBy := none

/-- the level of a call that reads the configuration and then the row -/
def effectiveLevel (config : FeatureFlagsConfig) (overrides : Overrides) (tool : ToolDefinition) :
    HitlLevel :=
  (resolveEffectiveLevel config overrides (staticDecision tool)).level

def rowLevel (overrides : Overrides) (toolName : JsString) : Option HitlLevel :=
  (overrides toolName).map OverrideRow.level

section
variable {config nextConfig : FeatureFlagsConfig} {overrides : Overrides} {tool : ToolDefinition}

theorem resolve_level {baseline : HitlDecision} :
    (resolveEffectiveLevel config overrides baseline).level
      = match config.declared baseline.toolName with
        | none => baseline.level
        | some level =>
          if rowLevel overrides baseline.toolName = some level then level else baseline.level := by
  unfold resolveEffectiveLevel rowLevel
  cases config.declared baseline.toolName with
  | none => rfl
  | some level =>
    cases overrides baseline.toolName with
    | none => rfl
    | some row =>
      by_cases hrow : row.level = level
      · simp [hrow]
      · simp [hrow]

theorem effectiveLevel_eq :
    effectiveLevel config overrides tool
      = match config.declared tool.name with
        | none => tool.hitlLevel
        | some level =>
          if rowLevel overrides tool.name = some level then level else tool.hitlLevel :=
  resolve_level

/-- the request id and the inputs of a call do not count -/
theorem level_of_classify {ι : Type} {requestId : JsString} {inputs : ι} {decision : HitlDecision}
    (htool : tool ∈ toolRegistry)
    (h : classifyToolCall requestId tool.name inputs = .ok decision) :
    (resolveEffectiveLevel config overrides decision).level
      = effectiveLevel config overrides tool := by
  simp only [classifyToolCall, getToolDefinition_of_mem htool, Except.ok.injEq] at h
  rw [← h, resolve_level, effectiveLevel_eq]

/-- a name is declared once -/
theorem declared_iff {toolName : JsString} {level : HitlLevel} :
    config.declared toolName = some level ↔ (toolName, level) ∈ config.hitlOverrides := by
  let table : Table (Prod.fst : JsString × HitlLevel → JsString) :=
    ⟨config.hitlOverrides, config.nodup⟩
  constructor
  · intro h
    obtain ⟨⟨name, l⟩, hentry, hlevel⟩ := Option.map_eq_some_iff.mp h
    obtain ⟨hmem, hname⟩ := (Table.get_eq_some_iff (t := table)).mp hentry
    cases hname
    cases hlevel
    exact hmem
  · intro h
    exact Option.map_eq_some_iff.mpr
      ⟨(toolName, level), (Table.get_eq_some_iff (t := table)).mpr ⟨h, rfl⟩, rfl⟩

/-! ## what a reload leaves -/

/-- the level of a row after a reload: a declared level that is not below the static one, or what
the row held -/
def target (overrides : Overrides) (nextConfig : FeatureFlagsConfig) (toolName : JsString) :
    Option HitlLevel :=
  match nextConfig.declared toolName, getToolDefinition toolName with
  | some level, some tool =>
    if hitlLevelOrdinal tool.hitlLevel ≤ hitlLevelOrdinal level then some level
    else rowLevel overrides toolName
  | _, _ => rowLevel overrides toolName

theorem target_raised {toolName : JsString} {level : HitlLevel}
    (hd : nextConfig.declared toolName = some level) (h : NotBelow toolName level) :
    target overrides nextConfig toolName = some level := by
  obtain ⟨tool, htool, hle⟩ := h
  simp only [target, hd, htool, if_pos hle]

theorem target_unregistered {toolName : JsString} (h : getToolDefinition toolName = none) :
    target overrides nextConfig toolName = rowLevel overrides toolName := by
  unfold target
  split
  next htool =>
    rw [h] at htool
    cases htool
  next => rfl

/-- the level is below the static level of the tool -/
def IsBelow (toolName : JsString) (level : HitlLevel) : Prop :=
  ∃ tool, getToolDefinition toolName = some tool ∧
    hitlLevelOrdinal level < hitlLevelOrdinal tool.hitlLevel

theorem target_below {toolName : JsString} {level : HitlLevel}
    (hd : nextConfig.declared toolName = some level) (h : IsBelow toolName level) :
    target overrides nextConfig toolName = rowLevel overrides toolName := by
  obtain ⟨tool, htool, hlt⟩ := h
  simp only [target, hd, htool, if_neg (Nat.not_le_of_lt hlt)]

/-- a row that holds the declared level already -/
theorem target_held {toolName : JsString} {level : HitlLevel}
    (hd : nextConfig.declared toolName = some level)
    (h : rowLevel overrides toolName = some level) :
    target overrides nextConfig toolName = rowLevel overrides toolName := by
  unfold target
  rw [hd]
  split
  next hlevel _ =>
    cases hlevel
    split
    · exact h.symm
    · rfl
  next => rfl

end

/-! ## where a reload stands -/

/-- the entries from the pending one on -/
def ReloadPc.todo : ReloadPc → List (JsString × HitlLevel)
  | .select toolName level rest | .upsert toolName level rest | .createPending toolName level rest =>
    (toolName, level) :: rest

/-- what has been found out about the pending entry -/
def ReloadPc.Known : ReloadPc → Prop
  | .select toolName _ _ => ∃ tool, getToolDefinition toolName = some tool
  | .upsert toolName level _ => NotBelow toolName level
  | .createPending toolName level _ => IsBelow toolName level

/-- the entries that have been passed hold their target, the others what they held -/
structure Passed (before : Overrides) (nextConfig : FeatureFlagsConfig)
    (passed : List (JsString × HitlLevel)) (overrides : Overrides) : Prop where
  hold : ∀ toolName ∈ passed.map Prod.fst,
    rowLevel overrides toolName = target before nextConfig toolName
  held : ∀ toolName ∉ passed.map Prod.fst, rowLevel overrides toolName = rowLevel before toolName

/-- a reload of `s₀` on its way, completed or failed -/
def Reloading (s₀ : FlagsSystem) (nextConfig : FeatureFlagsConfig) (s : FlagsSystem) : Pc → Prop
  | .reload config pc => config = nextConfig ∧ s.config = s₀.config ∧ pc.Known ∧
    ∃ passed, nextConfig.hitlOverrides = passed ++ pc.todo ∧
      Passed s₀.overrides nextConfig passed s.overrides
  | .done (.returned _) => s.config = nextConfig ∧
    ∀ toolName, rowLevel s.overrides toolName = target s₀.overrides nextConfig toolName
  | .done .failed => s.config = s₀.config ∧
    ∀ toolName, rowLevel s.overrides toolName = rowLevel s₀.overrides toolName ∨
      rowLevel s.overrides toolName = target s₀.overrides nextConfig toolName
  | _ => False

section
variable {s₀ s t : FlagsSystem} {id : CallId} {nextConfig : FeatureFlagsConfig}
  {passed rest : List (JsString × HitlLevel)} {before overrides : Overrides}
  {toolName : JsString} {level : HitlLevel} {sha256 : JsString → JsString} {reply : Reply}

theorem Passed.nil (before : Overrides) (nextConfig : FeatureFlagsConfig) :
    Passed before nextConfig [] before := ⟨nofun, fun _ _ => rfl⟩

/-- halfway every row is the old one or its target -/
theorem Passed.either (h : Passed before nextConfig passed overrides) (toolName : JsString) :
    rowLevel overrides toolName = rowLevel before toolName ∨
      rowLevel overrides toolName = target before nextConfig toolName := by
  by_cases hmem : toolName ∈ passed.map Prod.fst
  · exact Or.inr (h.hold toolName hmem)
  · exact Or.inl (h.held toolName hmem)

/-- after the last entry every row is its target -/
theorem Passed.all (h : Passed before nextConfig nextConfig.hitlOverrides overrides)
    (toolName : JsString) :
    rowLevel overrides toolName = target before nextConfig toolName := by
  by_cases hmem : toolName ∈ nextConfig.hitlOverrides.map Prod.fst
  · exact h.hold toolName hmem
  · have hd : nextConfig.declared toolName = none := by
      rw [Option.eq_none_iff_forall_ne_some]
      intro level hlevel
      exact hmem (List.mem_map_of_mem (declared_iff.mp hlevel))
    rw [h.held toolName hmem]
    simp only [target, hd]

theorem mem_snoc {name : JsString} :
    name ∈ (passed ++ [(toolName, level)]).map Prod.fst ↔
      name ∈ passed.map Prod.fst ∨ name = toolName := by
  rw [List.map_append, List.mem_append]
  exact or_congr Iff.rfl List.mem_singleton

/-- an entry that leaves its row -/
theorem Passed.skip (h : Passed before nextConfig passed overrides) (level : HitlLevel)
    (ht : rowLevel overrides toolName = target before nextConfig toolName) :
    Passed before nextConfig (passed ++ [(toolName, level)]) overrides := by
  refine ⟨fun name hmem => ?_, fun name hmem => ?_⟩
  · rcases mem_snoc.mp hmem with hmem | rfl
    · exact h.hold name hmem
    · exact ht
  · exact h.held name fun hm => hmem (mem_snoc.mpr (Or.inl hm))

/-- an entry whose target is what the row held -/
theorem Passed.settled (h : Passed before nextConfig passed overrides)
    (ht : target before nextConfig toolName = rowLevel before toolName) :
    rowLevel overrides toolName = target before nextConfig toolName := by
  rcases h.either toolName with he | he
  · exact he.trans ht.symm
  · exact he

/-- an entry that writes its row -/
theorem Passed.write (h : Passed before nextConfig passed overrides) {row : OverrideRow}
    (hrow : row.toolName = toolName) (ht : target before nextConfig toolName = some row.level)
    (level : HitlLevel) :
    Passed before nextConfig (passed ++ [(toolName, level)]) (upsert overrides row) := by
  have hself : rowLevel (upsert overrides row) toolName = some row.level := by
    unfold rowLevel upsert
    rw [if_pos hrow.symm]
    rfl
  have hother : ∀ name, name ≠ toolName →
      rowLevel (upsert overrides row) name = rowLevel overrides name := by
    intro name hname
    unfold rowLevel upsert
    rw [if_neg (hrow ▸ hname)]
  refine ⟨fun name hmem => ?_, fun name hmem => ?_⟩
  · by_cases hname : name = toolName
    · rw [hname, hself, ht]
    · rw [hother name hname]
      exact h.hold name ((mem_snoc.mp hmem).resolve_right hname)
  · rw [hother name fun hname => hmem (mem_snoc.mpr (Or.inr hname))]
    exact h.held name fun hm => hmem (mem_snoc.mpr (Or.inl hm))

/-! ## one statement -/

theorem set_pc (s : FlagsSystem) (id : CallId) (pc : Pc) : (s.set id pc).pc id = pc := if_pos rfl

theorem reconcile_reloading (id : CallId) (hconfig : s.config = s₀.config)
    (hpassed : Passed s₀.overrides nextConfig passed s.overrides)
    (hsplit : nextConfig.hitlOverrides = passed ++ rest) :
    Reloading s₀ nextConfig (s.reconcile id nextConfig rest)
      ((s.reconcile id nextConfig rest).pc id) := by
  induction rest generalizing passed with
  | nil =>
    have hpc : (s.reconcile id nextConfig []).pc id = .done (.returned ()) := if_pos rfl
    rw [List.append_nil] at hsplit
    rw [hpc]
    exact ⟨rfl, (hsplit ▸ hpassed).all⟩
  | cons entry rest ih =>
    obtain ⟨toolName, level⟩ := entry
    rw [FlagsSystem.reconcile]
    split
    next htool =>
      refine ih (hpassed.skip level (hpassed.settled (target_unregistered htool))) ?_
      rw [hsplit, List.append_assoc, List.singleton_append]
    next tool htool =>
      rw [set_pc]
      exact ⟨rfl, hconfig, ⟨tool, htool⟩, passed, hsplit, hpassed⟩

theorem failed_reloading (hconfig : s.config = s₀.config)
    (hrows : ∀ toolName, rowLevel s.overrides toolName = rowLevel s₀.overrides toolName ∨
      rowLevel s.overrides toolName = target s₀.overrides nextConfig toolName) :
    Reloading s₀ nextConfig (s.set id (.done .failed)) ((s.set id (.done .failed)).pc id) := by
  rw [set_pc]
  exact ⟨hconfig, hrows⟩

theorem reload_reloading {pc : ReloadPc} (h : Reloading s₀ nextConfig s (.reload nextConfig pc)) :
    Reloading s₀ nextConfig (s.reload sha256 id nextConfig reply pc)
      ((s.reload sha256 id nextConfig reply pc).pc id) := by
  obtain ⟨-, hconfig, hknown, passed, hsplit, hpassed⟩ := h
  have hsplit' : ∀ toolName level rest, pc.todo = (toolName, level) :: rest →
      nextConfig.hitlOverrides = (passed ++ [(toolName, level)]) ++ rest := by
    intro toolName level rest htodo
    rw [hsplit, htodo, List.append_assoc, List.singleton_append]
  have hdeclared : ∀ toolName level rest, pc.todo = (toolName, level) :: rest →
      nextConfig.declared toolName = some level := by
    intro toolName level rest htodo
    refine declared_iff.mpr ?_
    rw [hsplit, htodo]
    exact List.mem_append_right _ List.mem_cons_self
  cases pc with
  | select toolName level rest =>
    simp only [FlagsSystem.reload]
    split
    next =>
      split
      next hheld =>
        refine reconcile_reloading id hconfig (hpassed.skip level ?_) (hsplit' _ _ _ rfl)
        rcases hpassed.either toolName with he | he
        · exact hpassed.settled (target_held (hdeclared _ _ _ rfl) (he.symm.trans hheld))
        · exact he
      next =>
        split
        next htool =>
          obtain ⟨tool, htool'⟩ := hknown
          rw [htool] at htool'
          cases htool'
        next tool htool =>
          rw [set_pc]
          refine ⟨rfl, hconfig, ?_, passed, ?_, hpassed⟩
          · split
            next hle => exact ⟨tool, htool, hle⟩
            next hlt => exact ⟨tool, htool, Nat.lt_of_not_le hlt⟩
          · split <;> exact hsplit
    next => exact failed_reloading hconfig hpassed.either
  | upsert toolName level rest =>
    have ht : target s₀.overrides nextConfig toolName = some level :=
      target_raised (hdeclared _ _ _ rfl) hknown
    have hwrite : Passed s₀.overrides nextConfig (passed ++ [(toolName, level)])
        (upsert s.overrides ⟨toolName, level, reply.now, systemApprover⟩) := by
      refine hpassed.write ?_ ht level
      rfl
    simp only [FlagsSystem.reload]
    cases hfate : reply.fate with
    | ok => exact reconcile_reloading id hconfig hwrite (hsplit' _ _ _ rfl)
    | lost => exact failed_reloading hconfig hpassed.either
    | applied => exact failed_reloading hconfig hwrite.either
  | createPending toolName level rest =>
    have hskip : Passed s₀.overrides nextConfig (passed ++ [(toolName, level)]) s.overrides :=
      hpassed.skip level (hpassed.settled (target_below (hdeclared _ _ _ rfl) hknown))
    simp only [FlagsSystem.reload]
    cases hfate : reply.fate with
    | ok => exact reconcile_reloading id hconfig hskip (hsplit' _ _ _ rfl)
    | lost => exact failed_reloading hconfig hpassed.either
    | applied => exact failed_reloading hconfig hpassed.either

/-! ## the runs of one reload -/

/-- the state after a reload has begun and some of its statements have ended -/
def Ran (sha256 : JsString → JsString) (s₀ : FlagsSystem) (id : CallId)
    (nextConfig : FeatureFlagsConfig) (replies : List Reply) (s : FlagsSystem) : Prop :=
  run (step sha256) s₀ (.reload id (some nextConfig) :: replies.map (.go id)) = some s

theorem ran_iff (hidle : s₀.pc id = .idle) {replies : List Reply} :
    Ran sha256 s₀ id nextConfig replies s ↔
      run (step sha256) (s₀.reconcile id nextConfig nextConfig.hitlOverrides)
        (replies.map (.go id)) = some s := by
  have hbegin : step sha256 s₀ (.reload id (some nextConfig))
      = some (s₀.reconcile id nextConfig nextConfig.hitlOverrides) := by
    simp only [step, hidle]
  unfold Ran
  rw [run_cons, hbegin]
  exact Iff.rfl

theorem reloading_go (hs : Reloading s₀ nextConfig s (s.pc id))
    (h : step sha256 s (.go id reply) = some t) : Reloading s₀ nextConfig t (t.pc id) := by
  simp only [step] at h
  split at h
  next => cases h
  next => cases h
  next config pc hpc =>
    cases h
    rw [hpc] at hs
    have hconfig : config = nextConfig := hs.1
    subst hconfig
    exact reload_reloading hs
  next payload hpc =>
    rw [hpc] at hs
    cases hs

theorem reloading_run (hidle : s₀.pc id = .idle) {replies : List Reply}
    (h : Ran sha256 s₀ id nextConfig replies s) : Reloading s₀ nextConfig s (s.pc id) := by
  have hinit := reconcile_reloading id rfl (Passed.nil s₀.overrides nextConfig)
    (List.nil_append nextConfig.hitlOverrides).symm
  refine run_inv_guarded (P := fun s => Reloading s₀ nextConfig s (s.pc id))
    (G := fun _ l => ∃ reply, l = FlagsLabel.go id reply) (fun s l t hs hl ht => ?_)
    (replies.map (FlagsLabel.go id)) _ s hinit (guarded_of_forall _ _ fun l hl => ?_)
    ((ran_iff hidle).mp h)
  · obtain ⟨reply, rfl⟩ := hl
    exact reloading_go hs ht
  · obtain ⟨reply, -, rfl⟩ := List.mem_map.mp hl
    exact ⟨reply, rfl⟩

/-! ## the protection on the way -/

/-- a call that reads the configuration at `u` and the row at `s` never meets a level below both the
old and the new one, and a reload that fails leaves every level as it was -/
structure NeverWeakens (sha256 : JsString → JsString) (s₀ : FlagsSystem) (id : CallId)
    (nextConfig : FeatureFlagsConfig) : Prop where
  meanwhile : ∀ first second replies u s t,
    u = s₀ ∨ Ran sha256 s₀ id nextConfig first u → Ran sha256 s₀ id nextConfig (first ++ second) s →
    Ran sha256 s₀ id nextConfig replies t → t.pc id = .done (.returned ()) →
    ∀ tool ∈ toolRegistry,
      min (hitlLevelOrdinal (effectiveLevel s₀.config s₀.overrides tool))
          (hitlLevelOrdinal (effectiveLevel t.config t.overrides tool))
        ≤ hitlLevelOrdinal (effectiveLevel u.config s.overrides tool)
  failed : ∀ replies s, Ran sha256 s₀ id nextConfig replies s → s.pc id = .done .failed →
    ∀ tool ∈ toolRegistry,
      effectiveLevel s.config s.overrides tool = effectiveLevel s₀.config s₀.overrides tool

/-- where the reload writes a row, the old configuration declares nothing but the static level, or a
level that neither the row nor the new configuration holds -/
def Undisturbed (config nextConfig : FeatureFlagsConfig) (overrides : Overrides) : Prop :=
  ∀ tool ∈ toolRegistry, ∀ level declared, nextConfig.declared tool.name = some level →
    hitlLevelOrdinal tool.hitlLevel ≤ hitlLevelOrdinal level →
    rowLevel overrides tool.name ≠ some level → config.declared tool.name = some declared →
    declared = tool.hitlLevel ∨ (declared ≠ level ∧ rowLevel overrides tool.name ≠ some declared)

theorem effectiveLevel_congr {config : FeatureFlagsConfig} {o o' : Overrides}
    {tool : ToolDefinition} (h : rowLevel o tool.name = rowLevel o' tool.name) :
    effectiveLevel config o tool = effectiveLevel config o' tool := by
  rw [effectiveLevel_eq, effectiveLevel_eq, h]

/-- the rows on the way do not count in the old configuration -/
theorem Undisturbed.unchanged {config : FeatureFlagsConfig}
    (h : Undisturbed config nextConfig before) {tool : ToolDefinition} (htool : tool ∈ toolRegistry)
    (ho : rowLevel overrides tool.name = rowLevel before tool.name ∨
      rowLevel overrides tool.name = target before nextConfig tool.name) :
    effectiveLevel config overrides tool = effectiveLevel config before tool := by
  rcases ho with ho | ho
  · exact effectiveLevel_congr ho
  · by_cases hsame : target before nextConfig tool.name = rowLevel before tool.name
    · exact effectiveLevel_congr (ho.trans hsame)
    · -- the row is written: the entry is not below the static level and is not held yet
      cases hd : nextConfig.declared tool.name with
      | none =>
        have : target before nextConfig tool.name = rowLevel before tool.name := by
          simp only [target, hd]
        exact absurd this hsame
      | some level =>
        have hle : hitlLevelOrdinal tool.hitlLevel ≤ hitlLevelOrdinal level := by
          by_contra hlt
          exact hsame (target_below hd ⟨tool, getToolDefinition_of_mem htool, Nat.lt_of_not_le hlt⟩)
        have ht : target before nextConfig tool.name = some level :=
          target_raised hd ⟨tool, getToolDefinition_of_mem htool, hle⟩
        rw [ht] at ho hsame
        rw [effectiveLevel_eq, effectiveLevel_eq, ho]
        cases hc : config.declared tool.name with
        | none => rfl
        | some declared =>
          rcases h tool htool level declared hd hle (Ne.symm hsame) hc with hs | ⟨hne, hrow⟩
          · simp [hs]
          · simp only [if_neg hrow, Option.some.injEq, if_neg (Ne.symm hne)]

/-! ## a reload that is answered -/

theorem step_reload (sha256 : JsString → JsString) (reply : Reply) {pc : ReloadPc}
    (hpc : s.pc id = .reload nextConfig pc) :
    step sha256 s (.go id reply) = some (s.reload sha256 id nextConfig reply pc) := by
  simp only [step, hpc]

theorem reload_select (hok : reply.fate = .ok) {tool : ToolDefinition}
    (htool : getToolDefinition toolName = some tool) :
    s.reload sha256 id nextConfig reply (.select toolName level rest)
      = if rowLevel s.overrides toolName = some level then s.reconcile id nextConfig rest
        else s.set id (.reload nextConfig
          (if hitlLevelOrdinal tool.hitlLevel ≤ hitlLevelOrdinal level then
            .upsert toolName level rest
          else .createPending toolName level rest)) := by
  simp only [FlagsSystem.reload, if_pos hok, htool]
  rfl

/-- the statements of an entry are answered -/
theorem entry_answered (sha256 : JsString → JsString) (s : FlagsSystem) (id : CallId)
    (hok : reply.fate = .ok) (nextConfig : FeatureFlagsConfig) (toolName : JsString)
    (level : HitlLevel) (rest : List (JsString × HitlLevel)) :
    ∃ (n : Nat) (t : FlagsSystem),
      run (step sha256) (s.reconcile id nextConfig ((toolName, level) :: rest))
        ((List.replicate n reply).map (.go id)) = some (t.reconcile id nextConfig rest) ∧
      t.config = s.config ∧ ∀ name, name ≠ toolName → t.overrides name = s.overrides name := by
  cases htool : getToolDefinition toolName with
  | none =>
    refine ⟨0, s, ?_, rfl, fun _ _ => rfl⟩
    simp only [FlagsSystem.reconcile, htool]
    rfl
  | some tool =>
    let s₁ := s.set id (.reload nextConfig (.select toolName level rest))
    have h₁ : s.reconcile id nextConfig ((toolName, level) :: rest) = s₁ := by
      simp only [FlagsSystem.reconcile, htool]
      rfl
    have hselect := step_reload sha256 reply (set_pc s id _ :
      s₁.pc id = .reload nextConfig (.select toolName level rest))
    rw [reload_select hok htool] at hselect
    rw [h₁]
    by_cases hheld : rowLevel s₁.overrides toolName = some level
    · rw [if_pos hheld] at hselect
      exact ⟨1, s₁, run_cons_some.mpr ⟨_, hselect, rfl⟩, rfl, fun _ _ => rfl⟩
    · rw [if_neg hheld] at hselect
      by_cases hle : hitlLevelOrdinal tool.hitlLevel ≤ hitlLevelOrdinal level
      · rw [if_pos hle] at hselect
        have hupsert := step_reload sha256 reply
          (set_pc s₁ id (.reload nextConfig (.upsert toolName level rest)))
        simp only [FlagsSystem.reload, hok, Fate.applies, if_true] at hupsert
        refine ⟨2, _, run_cons_some.mpr ⟨_, hselect, run_cons_some.mpr ⟨_, hupsert, rfl⟩⟩, rfl,
          fun name hname => ?_⟩
        exact if_neg hname
      · rw [if_neg hle] at hselect
        have hpending := step_reload sha256 reply
          (set_pc s₁ id (.reload nextConfig (.createPending toolName level rest)))
        simp only [FlagsSystem.reload, hok, Fate.applies, if_true] at hpending
        exact ⟨2, _, run_cons_some.mpr ⟨_, hselect, run_cons_some.mpr ⟨_, hpending, rfl⟩⟩, rfl,
          fun _ _ => rfl⟩

/-- the statements of the entries in front of one are answered -/
theorem reconcile_answered (sha256 : JsString → JsString) (id : CallId) (hok : reply.fate = .ok)
    (nextConfig : FeatureFlagsConfig) (passed rest : List (JsString × HitlLevel)) :
    ∀ s : FlagsSystem, ∃ (n : Nat) (t : FlagsSystem),
      run (step sha256) (s.reconcile id nextConfig (passed ++ rest))
        ((List.replicate n reply).map (.go id)) = some (t.reconcile id nextConfig rest) ∧
      t.config = s.config ∧
      ∀ name ∉ passed.map Prod.fst, t.overrides name = s.overrides name := by
  induction passed with
  | nil => exact fun s => ⟨0, s, rfl, rfl, fun _ _ => rfl⟩
  | cons entry passed ih =>
    intro s
    obtain ⟨n, u, hu, hconfig, hrows⟩ := entry_answered sha256 s id hok nextConfig
      entry.1 entry.2 (passed ++ rest)
    obtain ⟨m, t, ht, hconfig', hrows'⟩ := ih u
    refine ⟨n + m, t, ?_, hconfig'.trans hconfig, fun name hname => ?_⟩
    · rw [List.replicate_add, List.map_append]
      exact run_append_some.mpr ⟨_, hu, ht⟩
    · rw [List.map_cons, List.mem_cons, not_or] at hname
      rw [hrows' name hname.2, hrows name hname.1]

/-- a reload whose write of one row takes effect, and whose answer is lost -/
theorem write_lost (sha256 : JsString → JsString) (hidle : s₀.pc id = .idle) (now : Int)
    (uuid : RequestId) (hd : nextConfig.declared toolName = some level)
    (hnotBelow : NotBelow toolName level) (hrow : rowLevel s₀.overrides toolName ≠ some level) :
    ∃ replies s, Ran sha256 s₀ id nextConfig replies s ∧ s.pc id = .done .failed ∧
      s.config = s₀.config ∧ rowLevel s.overrides toolName = some level := by
  obtain ⟨tool, htool, hle⟩ := hnotBelow
  let ok : Reply := ⟨now, .ok, uuid⟩
  let lost : Reply := ⟨now, .applied, uuid⟩
  obtain ⟨passed, rest, hsplit⟩ := List.append_of_mem (declared_iff.mp hd)
  have hfresh : toolName ∉ passed.map Prod.fst := by
    have hnodup := nextConfig.nodup
    rw [hsplit, List.map_append, List.map_cons, List.nodup_append] at hnodup
    exact fun hmem => hnodup.2.2 _ hmem _ List.mem_cons_self rfl
  obtain ⟨n, u, hu, hconfig, hrows⟩ := reconcile_answered sha256 id
    (show ok.fate = .ok from rfl) nextConfig passed ((toolName, level) :: rest) s₀
  let s₁ := u.set id (.reload nextConfig (.select toolName level rest))
  have h₁ : u.reconcile id nextConfig ((toolName, level) :: rest) = s₁ := by
    simp only [FlagsSystem.reconcile, htool]
    rfl
  have hnew : rowLevel s₁.overrides toolName ≠ some level := by
    show (u.overrides toolName).map _ ≠ _
    rw [hrows toolName hfresh]
    exact hrow
  have hselect : step sha256 s₁ (.go id ok)
      = some (s₁.set id (.reload nextConfig (.upsert toolName level rest))) := by
    rw [step_reload sha256 ok (set_pc u id _), reload_select rfl htool, if_neg hnew, if_pos hle]
  let s₂ := s₁.set id (.reload nextConfig (.upsert toolName level rest))
  let s₃ := (s₂.write ⟨toolName, level, now, systemApprover⟩ (.raised toolName level)).set id
    (.done .failed)
  have hupsert : step sha256 s₂ (.go id lost) = some s₃ := step_reload sha256 lost (set_pc s₁ id _)
  refine ⟨List.replicate n ok ++ [ok, lost], s₃, (ran_iff hidle).mpr ?_, set_pc _ id _, hconfig, ?_⟩
  · rw [hsplit, List.map_append]
    refine run_append_some.mpr ⟨_, hu, ?_⟩
    rw [h₁]
    exact run_cons_some.mpr ⟨s₂, hselect, run_cons_some.mpr ⟨s₃, hupsert, rfl⟩⟩
  · show ((upsert s₁.overrides ⟨toolName, level, now, systemApprover⟩) toolName).map _ = _
    rw [upsert, if_pos rfl]
    rfl

/-! ## the theorem -/

theorem Reloading.rows {pc : Pc} (h : Reloading s₀ nextConfig s pc) (toolName : JsString) :
    rowLevel s.overrides toolName = rowLevel s₀.overrides toolName ∨
      rowLevel s.overrides toolName = target s₀.overrides nextConfig toolName := by
  cases pc with
  | reload config pc =>
    obtain ⟨_, _, _, passed, _, hpassed⟩ := h
    exact hpassed.either toolName
  | done outcome =>
    cases outcome with
    | returned _ => exact Or.inr (h.2 toolName)
    | failed => exact h.2 toolName
    | threw e => cases h
  | idle => cases h
  | apply payload => cases h

/-- the old configuration is in force, or the reload has returned -/
theorem Reloading.config {pc : Pc} (h : Reloading s₀ nextConfig s pc) :
    s.config = s₀.config ∨ pc = .done (.returned ()) := by
  cases pc with
  | reload config pc => exact Or.inl h.2.1
  | done outcome =>
    cases outcome with
    | returned _ => exact Or.inr rfl
    | failed => exact Or.inl h.1
    | threw e => cases h
  | idle => cases h
  | apply payload => cases h

/-- a reload that has ended takes no further step -/
theorem stays_done {outcome : Outcome Unit} (hpc : s.pc id = .done outcome) {replies : List Reply}
    (h : run (step sha256) s (replies.map (.go id)) = some t) : t = s := by
  cases replies with
  | nil =>
    cases h
    rfl
  | cons reply replies =>
    obtain ⟨u, hu, -⟩ := run_cons_some.mp h
    simp only [step, hpc] at hu
    cases hu

end

/-- **A reload on its way.**  No call meets a level below both the old and the new one and a failed
reload changes no level, exactly when the rows that the reload writes do not count in the old
configuration. -/
theorem reload_never_weakens_iff (sha256 : JsString → JsString) (s₀ : FlagsSystem) (id : CallId)
    (hidle : s₀.pc id = .idle) (nextConfig : FeatureFlagsConfig) :
    NeverWeakens sha256 s₀ id nextConfig ↔ Undisturbed s₀.config nextConfig s₀.overrides := by
  constructor
  · intro h tool htool level declared hd hle hrow hc
    by_contra hbad
    obtain ⟨hstatic, hcounts⟩ := not_or.mp hbad
    obtain ⟨replies, s, hran, hpc, hconfig, hlevel⟩ := write_lost sha256 hidle 0 sampleRequest hd
      ⟨tool, getToolDefinition_of_mem htool, hle⟩ hrow
    have hfailed := h.failed replies s hran hpc tool htool
    rw [effectiveLevel_eq, effectiveLevel_eq, hconfig, hlevel, hc] at hfailed
    simp only at hfailed
    by_cases hsame : declared = level
    · rw [if_pos (congrArg some hsame.symm), if_neg (hsame ▸ hrow)] at hfailed
      exact hstatic hfailed
    · have hheld : rowLevel s₀.overrides tool.name = some declared :=
        not_not.mp fun hne => hcounts ⟨hsame, hne⟩
      rw [if_neg fun he => hsame (Option.some.inj he).symm, if_pos hheld] at hfailed
      exact hstatic hfailed.symm
  · intro h
    constructor
    · intro first second replies u s t hu hs ht hdone tool htool
      have hold : u.config = s₀.config → hitlLevelOrdinal (effectiveLevel u.config s.overrides tool)
          = hitlLevelOrdinal (effectiveLevel s₀.config s₀.overrides tool) := by
        intro hconfig
        rw [hconfig, h.unchanged htool ((reloading_run hidle hs).rows tool.name)]
      rcases hu with rfl | hu
      · rw [hold rfl]
        exact Nat.min_le_left _ _
      · rcases (reloading_run hidle hu).config with hconfig | hreturned
        · rw [hold hconfig]
          exact Nat.min_le_left _ _
        · -- the reload has been through: the call reads what every completed reload leaves
          have hsu : s = u := by
            rw [Ran, List.map_append, ← List.cons_append] at hs
            obtain ⟨u', hu', hs⟩ := run_append_some.mp hs
            rw [hu, Option.some.injEq] at hu'
            subst hu'
            exact stays_done hreturned hs
          have hs' := reloading_run hidle hu
          have ht' := reloading_run hidle ht
          rw [hreturned] at hs'
          rw [hdone] at ht'
          have hlevel : effectiveLevel u.config s.overrides tool
              = effectiveLevel t.config t.overrides tool := by
            rw [hsu, hs'.1, ht'.1]
            exact effectiveLevel_congr ((hs'.2 tool.name).trans (ht'.2 tool.name).symm)
          rw [hlevel]
          exact Nat.min_le_right _ _
    · intro replies s hran hpc tool htool
      have hs := reloading_run hidle hran
      rw [hpc] at hs
      obtain ⟨hconfig, hrows⟩ := hs
      rw [hconfig]
      exact h.unchanged htool (hrows tool.name)

/-! ## an override that is raised further -/

def createCalendarEvent : ToolDefinition :=
  { name := lit "createCalendarEvent", integration := some .google, hitlLevel := .notify }

def declaring (level : HitlLevel) : FeatureFlagsConfig :=
  ⟨[(createCalendarEvent.name, level)], List.nodup_singleton _⟩

/-- `confirm` is declared for a `notify` tool, and in force -/
def confirming : FlagsSystem where
  config := declaring .confirm
  overrides name := if name = createCalendarEvent.name then
    some ⟨name, .confirm, 0, systemApprover⟩ else none
  pc _ := .idle
  history := []

/-- without an override in force -/
theorem reload_never_weakens_first :
    NeverWeakens (fun text => text) (.init .empty) 0 (declaring .confirm) :=
  (reload_never_weakens_iff _ (.init .empty) 0 rfl (declaring .confirm)).mpr
    fun _ _ _ _ _ _ _ hc => nomatch hc

/-- while `confirm` is raised to `dual-confirm`, a call meets `notify` -/
theorem reload_weakens :
    ¬ NeverWeakens (fun text => text) confirming 0 (declaring .dualConfirm) := by
  intro h
  let replies : List Reply := List.replicate 2 ⟨1, .ok, sampleRequest⟩
  obtain ⟨s, hs, hlevels⟩ := Option.map_eq_some_iff.mp (show
    (run (step fun text => text) confirming
      (.reload 0 (some (declaring .dualConfirm)) :: replies.map (.go 0))).map
        (fun s => (s.pc 0, effectiveLevel s.config s.overrides createCalendarEvent,
          effectiveLevel confirming.config s.overrides createCalendarEvent))
      = some (.done (.returned ()), .dualConfirm, .notify) from rfl)
  simp only [Prod.mk.injEq] at hlevels
  have hle := h.meanwhile [] replies replies confirming s s (Or.inl rfl) hs hs hlevels.1
    createCalendarEvent (.tail _ (.head _))
  rw [hlevels.2.1, hlevels.2.2] at hle
  exact absurd hle (by decide)

end FeatureFlags
