import JinCore.ExecutorClient.EnvVault

/-!
# Checks of the environment values of a demo (`demo-env.logic.ts`)

* `envNamePattern`, `isReservedEnvName`   the names that a demo may set;
* `EnvProblem`, `validateDemoEnv`   the problems of a map of variables, without their values;
* `validateDemoEnv_eq_nil_iff`   what is accepted.
-/

namespace ExecutorClient
open JsString

def maxEnvVars : Nat := 30

def maxEnvValueBytes : Nat := 8 * 1024

def maxEnvTotalBytes : Nat := 64 * 1024

def isUpper (u : UInt16) : Bool := decide (0x41 ≤ u ∧ u ≤ 0x5A)

def isDigit (u : UInt16) : Bool := decide (0x30 ≤ u ∧ u ≤ 0x39)

def isLower (u : UInt16) : Bool := decide (0x61 ≤ u ∧ u ≤ 0x7A)

/-- `/^[A-Z][A-Z0-9_]{0,63}$/` -/
def envNamePattern (name : JsString) : Bool :=
  match name.units with
  | [] => false
  | u :: us => isUpper u && (decide (us.length ≤ 63) &&
      us.all fun u => isUpper u || isDigit u || decide (u = 0x5F))

def reservedNames : List JsString :=
  [lit "PORT", lit "PATH", lit "HOME", lit "HOSTNAME", lit "USER", lit "SHELL", lit "TZ", lit "CI",
    lit "PNPM_HOME", lit "XDG_CACHE_HOME", lit "DATABASE_URL", lit "REDIS_URL", lit "MONGODB_URI",
    lit "SQLITE_PATH", lit "MAIL_EGRESS_PROXY", lit "HTTP_PROXY", lit "HTTPS_PROXY", lit "NO_PROXY",
    lit "ALL_PROXY"]

def reservedPrefixes : List JsString :=
  [lit "NODE_", lit "LD_", lit "NPM_CONFIG_", lit "KUBERNETES_"]

def isReservedEnvName (name : JsString) : Bool :=
  decide (name ∈ reservedNames) || reservedPrefixes.any fun start => start.units.isPrefixOf name.units

structure EnvProblem where
  name : JsString
  reason : JsString
  deriving DecidableEq, Repr

/-- the bytes of a value, for the total; a name that does not match is not counted -/
def countedBytes (v : JsString × JsString) : Nat :=
  if envNamePattern v.1 then v.2.utf8.length else 0

/-- one turn of the loop -/
def variableProblems (v : JsString × JsString) : List EnvProblem :=
  let (name, value) := v
  if envNamePattern name then
    (if isReservedEnvName name then [⟨name, lit "nombre reservado por Jin"⟩] else []) ++
      if maxEnvValueBytes < value.utf8.length then
        [⟨name, lit "el valor supera " ++ natText (maxEnvValueBytes / 1024) ++ lit " KB"⟩] else []
  else [⟨⟨name.units.take 64⟩, lit "nombre inválido (MAYÚSCULAS, números y _; empieza con letra)"⟩]

def validateDemoEnv (env : Env) : List EnvProblem :=
  (if maxEnvVars < env.length then
      [⟨lit "(todas)", lit "máximo " ++ natText maxEnvVars ++ lit " variables"⟩] else []) ++
    env.flatMap variableProblems ++
    if maxEnvTotalBytes < (env.map countedBytes).sum then
      [⟨lit "(todas)", lit "el total supera " ++ natText (maxEnvTotalBytes / 1024) ++ lit " KB"⟩] else []

/-- a name that may be set, with a value that is not too long -/
def VariableOk (v : JsString × JsString) : Prop :=
  envNamePattern v.1 = true ∧ isReservedEnvName v.1 = false ∧
    v.2.utf8.length ≤ maxEnvValueBytes

theorem variableProblems_eq_nil_iff (v : JsString × JsString) :
    variableProblems v = [] ↔ VariableOk v := by
  obtain ⟨name, value⟩ := v
  unfold variableProblems VariableOk
  dsimp only
  cases envNamePattern name with
  | false => simp
  | true =>
    cases isReservedEnvName name with
    | true => simp
    | false => simp

/-- **What is accepted**: few variables, with names that a demo may set, and short values. -/
theorem validateDemoEnv_eq_nil_iff (env : Env) : validateDemoEnv env = [] ↔
    env.length ≤ maxEnvVars ∧ (∀ v ∈ env, VariableOk v) ∧
      (env.map fun v => v.2.utf8.length).sum ≤ maxEnvTotalBytes := by
  unfold validateDemoEnv
  rw [List.append_eq_nil_iff, List.append_eq_nil_iff, List.flatMap_eq_nil_iff, and_assoc]
  refine and_congr (by simp) ?_
  simp only [variableProblems_eq_nil_iff]
  refine and_congr_right fun hok => ?_
  have hcounted : env.map countedBytes = env.map fun v => v.2.utf8.length :=
    List.map_congr_left fun v hv => if_pos (hok v hv).1
  rw [hcounted]
  simp

end ExecutorClient
