import JinCore.Js.Text

/-!
# HITL levels and decisions (`src/hitl/types.ts`)

* `HitlLevel`, `hitlLevelOrdinal`   the four levels, from the laxest to the strictest;
* `approvalsRequiredFor`            the approvals a level asks for;
* `HitlDecision`                    what a tool call needs before it runs; `Agrees` says that its
                                    other fields are those of its level.
-/

namespace Hitl
open JsString

inductive HitlLevel where
  | auto | notify | confirm | dualConfirm
  deriving DecidableEq, Repr

def HitlLevel.text : HitlLevel → JsString
  | .auto => lit "auto"
  | .notify => lit "notify"
  | .confirm => lit "confirm"
  | .dualConfirm => lit "dual-confirm"

/-- the index in `HITL_LEVELS` -/
def hitlLevelOrdinal : HitlLevel → Nat
  | .auto => 0
  | .notify => 1
  | .confirm => 2
  | .dualConfirm => 3

def approvalsRequiredFor : HitlLevel → Nat
  | .auto | .notify => 0
  | .confirm => 1
  | .dualConfirm => 2

structure HitlDecision where
  requestId : JsString
  toolName : JsString
  level : HitlLevel
  approvalsRequired : Nat
  notifyAfterExecution : Bool
  relaxedBy : Option JsString
  deriving DecidableEq, Repr

/-- the approvals and the notification are those of the level -/
def HitlDecision.Agrees (d : HitlDecision) : Prop :=
  d.approvalsRequired = approvalsRequiredFor d.level ∧
    d.notifyAfterExecution = decide (d.level = .notify)

end Hitl
