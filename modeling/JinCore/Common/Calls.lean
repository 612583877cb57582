import JinCore.Js.Text

/-!
# Domain errors and the fate of a statement (`src/common/errors/jin-error.ts`)

* `CallId`     the calls of a run are numbered;
* `JinError`   a domain error: its message, its code, its HTTP status;
* `Fate`       what becomes of a statement sent to the database;
* `Outcome`    how a call ends;
* `bind_eq_ok`   a sequence of statements that may throw.
-/

namespace Common

abbrev CallId := Nat

structure JinError where
  message : JsString
  code : JsString
  httpStatus : Option Nat
  deriving DecidableEq, Repr

/-- a statement takes effect and is answered, has no effect and throws, or takes effect and its
answer is lost, so that it throws as well -/
inductive Fate where
  | ok | lost | applied
  deriving DecidableEq, Repr

def Fate.applies : Fate → Bool
  | .lost => false
  | _ => true

/-- a call returns, throws a domain error, or throws what one of its statements threw -/
inductive Outcome (ρ : Type) where
  | returned (result : ρ)
  | threw (error : JinError)
  | failed
  deriving DecidableEq, Repr

/-- a sequence succeeds where both of its parts do -/
theorem bind_eq_ok {ε α β : Type} {x : Except ε α} {f : α → Except ε β} {b : β} :
    (x >>= f) = .ok b ↔ ∃ a, x = .ok a ∧ f a = .ok b := by
  cases x with
  | error e =>
    constructor
    · intro h
      cases h
    · rintro ⟨a, h, -⟩
      cases h
  | ok a =>
    constructor
    · exact fun h => ⟨a, rfl, h⟩
    · rintro ⟨a', h, hf⟩
      cases h
      exact hf

end Common
