import JinCore.ModelProvider.Failover

/-!
# The budget of a call (`src/budget/`)

A call is checked against its session and the day, made, and accounted for in three counters: the
session in memory, the day and the hour in the database, each in a statement of its own.

* `resolvePrice`            the price of the model id that the vendor gives back;
* `checkBeforeCall`, `recordUsage`, `complete`   one guarded call;
* `AccountedFor`            the three counters have grown by the tokens of a response;
* `accounted_iff`, `unpriced_snapshot`.
-/

namespace Budget
open JsString Common ModelProvider

structure Usage where
  inputTokens : Nat
  outputTokens : Nat
  deriving DecidableEq, Repr

def Usage.zero : Usage := ⟨0, 0⟩

def Usage.add (u v : Usage) : Usage := ⟨u.inputTokens + v.inputTokens, u.outputTokens + v.outputTokens⟩

structure BudgetConfig where
  sessionMaxInputTokens : Nat
  sessionMaxOutputTokens : Nat
  deriving DecidableEq, Repr

/-! ## prices -/

/-- the models of `model_prices` -/
structure ModelPrices where
  models : List JsString

/-- what an object inherits is found by `prices[modelId]` as well -/
def inheritedNames : List JsString := [lit "constructor", lit "hasOwnProperty", lit "isPrototypeOf",
  lit "propertyIsEnumerable", lit "toLocaleString", lit "toString", lit "valueOf", lit "__proto__",
  lit "__defineGetter__", lit "__defineSetter__", lit "__lookupGetter__", lit "__lookupSetter__"]

def ModelPrices.has (prices : ModelPrices) (name : JsString) : Bool :=
  prices.models.contains name || inheritedNames.contains name

def isDigit (u : UInt16) : Bool := decide (0x30 ≤ u.toNat ∧ u.toNat ≤ 0x39)

/-- what `.` does not match -/
def isLineTerminator (u : UInt16) : Bool := [0x0A, 0x0D, 0x2028, 0x2029].contains u

/-- the first group of `/^(.+)-\d{8}$/` -/
def datedAlias (modelId : JsString) : Option JsString :=
  let stem := modelId.units.take (modelId.units.length - 9)
  match modelId.units.drop (modelId.units.length - 9) with
  | dash :: digits =>
    if dash = 0x2D ∧ digits.length = 8 ∧ digits.all isDigit ∧ stem ≠ [] ∧
      stem.all (fun u => !isLineTerminator u) then some ⟨stem⟩ else none
  | [] => none

/-- is there a price: of the id itself, or of the alias of a dated snapshot -/
def resolvePrice (prices : ModelPrices) (modelId : JsString) : Bool :=
  prices.has modelId || ((datedAlias modelId).map prices.has).getD false

/-! ## the errors -/

def sessionBudgetExceededError (sessionId : JsString) : JinError where
  message := lit "La sesión \"" ++ sessionId ++ lit "\" alcanzó su presupuesto máximo de tokens."
  code := lit "BUDGET_SESSION_EXCEEDED"
  httpStatus := some 429

def dailyBudgetExceededError : JinError where
  message := lit "El presupuesto diario (tokens o USD) se agotó. Reset a las 00:00 hora local."
  code := lit "BUDGET_DAILY_EXCEEDED"
  httpStatus := some 429

def killSwitchActiveError (reason : JsString) : JinError where
  message := lit "Kill switch activo: " ++ reason
    ++ lit ". Requiere /unpause con aprobación humana."
  code := lit "BUDGET_KILL_SWITCH_ACTIVE"
  httpStatus := some 503

/-! ## the counters -/

/-- a session, a day or an hour without an entry has used nothing -/
structure BudgetState where
  session : JsString → Usage
  daily : JsString → Usage
  hourly : Int → Usage

def BudgetState.empty : BudgetState := ⟨fun _ => .zero, fun _ => .zero, fun _ => .zero⟩

/-- the counter of a key grows -/
def grow {κ : Type} [DecidableEq κ] (counter : κ → Usage) (key : κ) (u : Usage) : κ → Usage :=
  fun k => if k = key then (counter k).add u else counter k

structure RecordUsageInput where
  sessionId : JsString
  modelId : JsString
  usage : Usage

/-- what becomes of the statements of `recordUsage`, and the day and the hour it finds; a column that
cannot take the sum is a statement without effect -/
structure AccountingReplies where
  today : JsString
  daily : Fate
  hourBucket : Int
  hourly : Fate
  ratio : Fate

def wouldExceedSessionBudget (session : Usage) (estimatedInputTokens maxOutputTokens : Nat)
    (config : BudgetConfig) : Bool :=
  decide (session.inputTokens + estimatedInputTokens > config.sessionMaxInputTokens) ||
    decide (session.outputTokens + maxOutputTokens > config.sessionMaxOutputTokens)

/-- `exhausted` is what the read of the day gives: is the ratio 1 or more; `none` where it fails -/
def checkBeforeCall (config : BudgetConfig) (s : BudgetState) (sessionId : JsString)
    (estimatedInputTokens maxOutputTokens : Nat) (exhausted : Option Bool) :
    Except (Outcome Unit) Unit :=
  if wouldExceedSessionBudget (s.session sessionId) estimatedInputTokens maxOutputTokens config then
    .error (.threw (sessionBudgetExceededError sessionId))
  else
    match exhausted with
    | none => .error .failed
    | some true => .error (.threw dailyBudgetExceededError)
    | some false => .ok ()

def recordUsage (prices : ModelPrices) (s : BudgetState) (input : RecordUsageInput)
    (w : AccountingReplies) : BudgetState × Outcome Unit :=
  -- `computeCostUsd` throws before any counter is touched
  if resolvePrice prices input.modelId = false then (s, .failed)
  else
    let s := { s with session := grow s.session input.sessionId input.usage }
    let s := if w.daily.applies then { s with daily := grow s.daily w.today input.usage } else s
    if w.daily ≠ .ok then (s, .failed)
    else
      let s :=
        if w.hourly.applies then { s with hourly := grow s.hourly w.hourBucket input.usage } else s
      if w.hourly ≠ .ok then (s, .failed)
      else if w.ratio ≠ .ok then (s, .failed)
      else (s, .returned ())

/-! ## a guarded call -/

/-- what the router returns -/
structure ModelUsage where
  modelId : JsString
  usage : Usage
  deriving DecidableEq, Repr

structure GuardedRequest where
  sessionId : JsString
  /-- the hint, or the estimate of the request -/
  estimatedInputTokens : Nat
  maxOutputTokens : Nat

/-- what a guarded call meets: `none` where a read or the router throws -/
structure CallReplies where
  killSwitch : Option Bool
  exhausted : Option Bool
  router : Option ModelUsage
  accounting : AccountingReplies

/-- up to the response of the router -/
def callRouter (config : BudgetConfig) (s : BudgetState) (request : GuardedRequest)
    (w : CallReplies) : Except (Outcome Unit) ModelUsage :=
  match w.killSwitch with
  | none => .error .failed
  | some true =>
    .error (.threw (killSwitchActiveError (lit "todas las llamadas al ModelProvider están pausadas")))
  | some false =>
    match checkBeforeCall config s request.sessionId request.estimatedInputTokens
      request.maxOutputTokens w.exhausted with
    | .error outcome => .error outcome
    | .ok () =>
      match w.router with
      | none => .error .failed
      | some response => .ok response

/-- `complete` and `completeStream`, of which only the call of the router differs -/
def complete (config : BudgetConfig) (prices : ModelPrices) (s : BudgetState)
    (request : GuardedRequest) (w : CallReplies) : BudgetState × Outcome Unit :=
  match callRouter config s request w with
  | .error outcome => (s, outcome)
  | .ok response =>
    recordUsage prices s ⟨request.sessionId, response.modelId, response.usage⟩ w.accounting

/-- each of the three counters has grown by the tokens of the response, and nothing else -/
structure AccountedFor (s : BudgetState) (request : GuardedRequest) (w : AccountingReplies)
    (u : Usage) (s' : BudgetState) : Prop where
  session : s'.session = grow s.session request.sessionId u
  daily : s'.daily = grow s.daily w.today u
  hourly : s'.hourly = grow s.hourly w.hourBucket u

/-! ## when a response is accounted for -/

section
variable {s : BudgetState} {request : GuardedRequest} {w : AccountingReplies} {u : Usage}

theorem grow_zero {κ : Type} [DecidableEq κ] (counter : κ → Usage) (key : κ) :
    grow counter key .zero = counter := by
  funext k
  rw [grow]
  split
  · rfl
  · rfl

/-- a counter that has not grown has not been owed anything -/
theorem eq_grow_iff {κ : Type} [DecidableEq κ] (counter : κ → Usage) (key : κ) :
    counter = grow counter key u ↔ u = .zero := by
  constructor
  · intro h
    have hkey := congrFun h key
    rw [grow, if_pos rfl, Usage.add] at hkey
    obtain ⟨input, output⟩ := u
    have hin := congrArg Usage.inputTokens hkey
    have hout := congrArg Usage.outputTokens hkey
    simp only at hin hout
    rw [show input = 0 by omega, show output = 0 by omega]
    rfl
  · intro h
    rw [h, grow_zero]

/-- what is left of `complete` once the router has returned -/
theorem complete_of_response {config : BudgetConfig} {prices : ModelPrices} {w : CallReplies}
    {response : ModelUsage} (hresponse : callRouter config s request w = .ok response) :
    complete config prices s request w
      = recordUsage prices s ⟨request.sessionId, response.modelId, response.usage⟩ w.accounting := by
  rw [complete, hresponse]

/-- nothing at all is recorded for a model id without a price -/
theorem recordUsage_unpriced {prices : ModelPrices} {input : RecordUsageInput}
    (hprice : resolvePrice prices input.modelId = false) :
    recordUsage prices s input w = (s, .failed) := by
  rw [recordUsage, if_pos hprice]

/-- with a price, the session has grown before the first statement is sent, and the hour is only
reached once the day is answered -/
theorem recordUsage_priced {prices : ModelPrices} {input : RecordUsageInput}
    (hprice : resolvePrice prices input.modelId = true) :
    (recordUsage prices s input w).1 =
      { session := grow s.session input.sessionId input.usage,
        daily := if w.daily.applies then grow s.daily w.today input.usage else s.daily,
        hourly := if w.daily = .ok ∧ w.hourly.applies = true then
          grow s.hourly w.hourBucket input.usage else s.hourly } := by
  rw [recordUsage, if_neg (by rw [hprice]; decide)]
  cases hdaily : w.daily with
  | lost => simp [Fate.applies]
  | applied => simp [Fate.applies]
  | ok =>
    cases hhourly : w.hourly with
    | lost => simp [Fate.applies]
    | applied => simp [Fate.applies]
    | ok => cases hratio : w.ratio with
      | _ => simp [Fate.applies]

/-- **When a response is accounted for.**  A response that the router returns, whatever its model id
and its tokens: exactly where it has used nothing, or its model id has a price, the daily statement
is answered and the hourly one takes effect. -/
theorem accounted_iff (config : BudgetConfig) (prices : ModelPrices) (s : BudgetState)
    (request : GuardedRequest) (w : CallReplies) (response : ModelUsage)
    (hresponse : callRouter config s request w = .ok response) :
    AccountedFor s request w.accounting response.usage (complete config prices s request w).1 ↔
      response.usage = .zero ∨ (resolvePrice prices response.modelId = true ∧
        w.accounting.daily = .ok ∧ w.accounting.hourly.applies = true) := by
  rw [complete_of_response hresponse]
  cases hprice : resolvePrice prices response.modelId with
  | false =>
    rw [recordUsage_unpriced hprice]
    constructor
    · intro h
      exact .inl ((eq_grow_iff _ _).1 h.session)
    · rintro (hzero | ⟨h, -⟩)
      · rw [hzero]
        exact ⟨(grow_zero _ _).symm, (grow_zero _ _).symm, (grow_zero _ _).symm⟩
      · cases h
  | true =>
    have hstate : (recordUsage prices s ⟨request.sessionId, response.modelId, response.usage⟩
        w.accounting).1 = _ := recordUsage_priced hprice
    constructor
    · intro h
      by_cases hboth : w.accounting.daily = .ok ∧ w.accounting.hourly.applies = true
      · exact .inr ⟨rfl, hboth⟩
      · -- the hour has not grown
        have hhourly := h.hourly
        rw [hstate, if_neg hboth] at hhourly
        exact .inl ((eq_grow_iff _ _).1 hhourly)
    · rintro (hzero | ⟨-, hdaily, hhourly⟩)
      · rw [hzero] at hstate ⊢
        simp only [grow_zero, ite_self] at hstate
        rw [hstate]
        exact ⟨(grow_zero _ _).symm, (grow_zero _ _).symm, (grow_zero _ _).symm⟩
      · rw [hstate]
        refine ⟨rfl, ?_, ?_⟩
        · show (if w.accounting.daily.applies then _ else _) = _
          rw [hdaily]
          rfl
        · exact if_pos ⟨hdaily, hhourly⟩

end

/-! ## a call that is answered, and one whose model id has no price -/

section
def oneModel : ModelPrices := ⟨[lit "gpt-6-sol"]⟩

def smallCaps : BudgetConfig := ⟨1000000, 1000000⟩

/-- everything is answered, and the vendor gives the model id -/
def answeredAs (modelId : JsString) : CallReplies where
  killSwitch := some false
  exhausted := some false
  router := some ⟨modelId, ⟨1200, 350⟩⟩
  accounting := ⟨lit "2026-09-29", .ok, 0, .ok, .ok⟩

def oneCall : GuardedRequest := ⟨lit "s", 1000, 8000⟩

theorem accounted_priced :
    AccountedFor .empty oneCall (answeredAs (lit "gpt-6-sol")).accounting ⟨1200, 350⟩
      (complete smallCaps oneModel .empty oneCall (answeredAs (lit "gpt-6-sol"))).1 :=
  (accounted_iff smallCaps oneModel .empty oneCall (answeredAs (lit "gpt-6-sol"))
    ⟨lit "gpt-6-sol", ⟨1200, 350⟩⟩ rfl).2 (.inr ⟨rfl, rfl, rfl⟩)

/-- the snapshot of a priced model, as its vendor dates it: the call is made and answered, no
statement is lost, and no counter has its tokens -/
theorem unpriced_snapshot :
    let w := answeredAs (lit "gpt-6-sol-2026-09-29")
    callRouter smallCaps .empty oneCall w = .ok ⟨lit "gpt-6-sol-2026-09-29", ⟨1200, 350⟩⟩ ∧
      complete smallCaps oneModel .empty oneCall w = (.empty, .failed) ∧
      ¬ AccountedFor .empty oneCall w.accounting ⟨1200, 350⟩
        (complete smallCaps oneModel .empty oneCall w).1 := by
  have hprice : resolvePrice oneModel (lit "gpt-6-sol-2026-09-29") = false := by decide
  have hcall : complete smallCaps oneModel .empty oneCall (answeredAs (lit "gpt-6-sol-2026-09-29"))
      = (.empty, .failed) := by
    rw [complete_of_response rfl,
      recordUsage_unpriced hprice]
  refine ⟨rfl, hcall, ?_⟩
  intro h
  rw [hcall] at h
  have hused := (eq_grow_iff _ _).1 h.session
  cases hused

end

end Budget
