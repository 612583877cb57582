import JinCore.Tools.Registry
import Mathlib.Order.Lattice

/-!
# Autonomy modes (`autonomy.types.ts`, `autonomy.logic.ts`, `autonomy-config.schema.ts`)

* `AutonomyMode`, `autonomyOrdinal`   the modes, from the strictest to the laxest;
* `requiresDualConfirm`               does a change of mode lower the protection;
* `relaxDecision`                     the policy of the modes, `relaxDecision_cases` what it can do;
* `AutonomyConfig`, `clampHours`      the limits of the relaxed modes.
-/

namespace Autonomy
open JsString Hitl Tools

inductive AutonomyMode where
  | supervised | semiAuto | auto
  deriving DecidableEq, Repr

def AutonomyMode.text : AutonomyMode → JsString
  | .supervised => lit "supervised"
  | .semiAuto => lit "semi-auto"
  | .auto => lit "auto"

/-- the index in `AUTONOMY_MODES` -/
def autonomyOrdinal : AutonomyMode → Nat
  | .supervised => 0
  | .semiAuto => 1
  | .auto => 2

def requiresDualConfirm (current target : AutonomyMode) : Bool :=
  decide (target ≠ .supervised) && decide (autonomyOrdinal target ≥ autonomyOrdinal current)

/-- without dual-confirm a mode goes to `supervised`, or from `auto` to `semi-auto` -/
theorem requiresDualConfirm_eq_false {current target : AutonomyMode} :
    requiresDualConfirm current target = false ↔
      target = .supervised ∨ (current = .auto ∧ target = .semiAuto) := by
  cases current <;> cases target <;> decide

/-! ## the limits -/

structure ModeLimits where
  defaultHours : Int
  maxHours : Int
  default_pos : 0 < defaultHours
  default_le : defaultHours ≤ maxHours
  deriving DecidableEq

/-- `maxRelaxedActionsPerHour` is a positive integer -/
structure AutonomyConfig where
  semiAuto : ModeLimits
  auto : ModeLimits
  maxRelaxedActionsPerHour : Nat
  max_pos : 0 < maxRelaxedActionsPerHour
  deriving DecidableEq

/-- the defaults of the schema -/
def AutonomyConfig.default : AutonomyConfig where
  semiAuto := ⟨24, 72, by decide, by decide⟩
  auto := ⟨4, 24, by decide, by decide⟩
  maxRelaxedActionsPerHour := 20
  max_pos := by decide

def AutonomyConfig.limitsFor (config : AutonomyConfig) : AutonomyMode → ModeLimits
  | .auto => config.auto
  | _ => config.semiAuto

/-- both callers ask for a whole number of hours, so that `Math.trunc` leaves it alone -/
def clampHours (requested : Option Int) (limits : ModeLimits) : Int :=
  min (max (requested.getD limits.defaultHours) 1) limits.maxHours

theorem clampHours_pos (requested : Option Int) (limits : ModeLimits) :
    0 < clampHours requested limits := by
  have := limits.default_pos
  have := limits.default_le
  unfold clampHours
  omega

theorem clampHours_le (requested : Option Int) (limits : ModeLimits) :
    clampHours requested limits ≤ limits.maxHours := min_le_right _ _

def hourMs : Int := 60 * 60 * 1000

/-! ## what a mode relaxes -/

structure RelaxResult where
  decision : HitlDecision
  relaxedBy : Option JsString
  deriving DecidableEq, Repr

def relaxDecision (decision : HitlDecision) (mode : AutonomyMode) (tool : Option ToolDefinition) :
    RelaxResult :=
  if mode = .supervised then ⟨decision, none⟩
  else if decision.level ≠ .confirm then ⟨decision, none⟩
  else if tool.map ToolDefinition.humanDecision = some true then ⟨decision, none⟩
  else if mode = .semiAuto ∧ tool.map ToolDefinition.guardedInSemiAuto = some true then
    ⟨decision, none⟩
  else
    let by_ := lit "autonomy:" ++ mode.text
    ⟨{ decision with
        level := .notify, approvalsRequired := 0, notifyAfterExecution := true,
        relaxedBy := some by_ }, some by_⟩

/-- only a `confirm` is relaxed, to a `notify`, and no tool that the mode guards -/
theorem relaxDecision_cases (decision : HitlDecision) (mode : AutonomyMode)
    (tool : Option ToolDefinition) :
    relaxDecision decision mode tool = ⟨decision, none⟩ ∨
      (mode ≠ .supervised ∧ decision.level = .confirm ∧
        tool.map ToolDefinition.humanDecision ≠ some true ∧
        (mode = .semiAuto → tool.map ToolDefinition.guardedInSemiAuto ≠ some true) ∧
        ∃ d by_, relaxDecision decision mode tool = ⟨d, some by_⟩ ∧ d.toolName = decision.toolName ∧
          d.level = .notify ∧ d.Agrees) := by
  unfold relaxDecision
  split
  · exact Or.inl rfl
  next hmode =>
    split
    · exact Or.inl rfl
    next hlevel =>
      split
      · exact Or.inl rfl
      next hhuman =>
        split
        · exact Or.inl rfl
        next hguarded =>
          refine Or.inr ⟨hmode, not_not.mp hlevel, hhuman, fun hs hg => hguarded ⟨hs, hg⟩,
            _, _, rfl, rfl, rfl, rfl, rfl⟩

end Autonomy
