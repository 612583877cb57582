import JinCore.Lib.Table
import JinCore.Js.Text

/-!
# The environment values of a demo (`env-vault.service.ts`)

* `EnvVault`          the values that wait for their approval, by request id, in memory;
* `put`, `take`, `discard`, `has`   each with what it does to every entry (`get_..`).
-/

namespace ExecutorClient
open JsString

/-- `Record<string, string>`, in the order of its keys -/
abbrev Env := List (JsString × JsString)

def defaultTtlMs : Int := 24 * 60 * 60 * 1000

def maxEntries : Nat := 50

structure VaultEntry where
  requestId : JsString
  env : Env
  expiresAt : Int
  deriving DecidableEq, Repr

structure EnvVault where
  entries : Table VaultEntry.requestId

namespace EnvVault

def empty : EnvVault := ⟨Table.empty _⟩

def get (v : EnvVault) (requestId : JsString) : Option VaultEntry := v.entries.get requestId

def size (v : EnvVault) : Nat := v.entries.rows.length

def purge (v : EnvVault) (nowMs : Int) : EnvVault :=
  ⟨v.entries.keep fun entry => decide (nowMs < entry.expiresAt)⟩

/-- `false` where it throws -/
def put (v : EnvVault) (requestId : JsString) (env : Env) (nowMs : Int) : Bool × EnvVault :=
  let v := v.purge nowMs
  if maxEntries ≤ v.size ∧ v.get requestId = none then (false, v)
  else (true, ⟨v.entries.set ⟨requestId, env, nowMs + defaultTtlMs⟩⟩)

/-- without reading -/
def discard (v : EnvVault) (requestId : JsString) : EnvVault := ⟨v.entries.erase requestId⟩

/-- the values, if they are there and have not expired; the entry is deleted in any case -/
def take (v : EnvVault) (requestId : JsString) (nowMs : Int) : Option Env × EnvVault :=
  match v.get requestId with
  | some entry => (if entry.expiresAt ≤ nowMs then none else some entry.env, v.discard requestId)
  | none => (none, v.discard requestId)

def has (v : EnvVault) (requestId : JsString) (nowMs : Int) : Bool :=
  match v.get requestId with
  | some entry => decide (nowMs < entry.expiresAt)
  | none => false

section
variable {v : EnvVault} {requestId : JsString} {env : Env} {entry : VaultEntry} {nowMs : Int}

theorem get_purge (v : EnvVault) (nowMs : Int) (r : JsString) :
    (v.purge nowMs).get r = (v.get r).filter fun entry => decide (nowMs < entry.expiresAt) :=
  Table.get_keep _ _ _

theorem get_discard (v : EnvVault) (requestId r : JsString) :
    (v.discard requestId).get r = if r = requestId then none else v.get r := Table.get_erase _ _ _

theorem take_snd (v : EnvVault) (requestId : JsString) (nowMs : Int) :
    (v.take requestId nowMs).2 = v.discard requestId := by
  rw [take]
  split <;> rfl

theorem take_of_get (hget : v.get requestId = some entry) (hlive : nowMs < entry.expiresAt) :
    (v.take requestId nowMs).1 = some entry.env := by
  rw [take, hget]
  exact if_neg (Int.not_le.mpr hlive)

theorem get_of_take (h : (v.take requestId nowMs).1 = some env) :
    ∃ entry, v.get requestId = some entry ∧ entry.env = env := by
  rw [take] at h
  split at h
  next entry hget =>
    obtain ⟨-, henv⟩ := Option.ite_none_left_eq_some.mp h
    exact ⟨entry, hget, Option.some.inj henv⟩
  next => cases h

theorem has_of_none (hget : v.get requestId = none) : v.has requestId nowMs = false := by
  rw [has, hget]

theorem has_of_get (hget : v.get requestId = some entry) (hlive : nowMs < entry.expiresAt) :
    v.has requestId nowMs = true := by
  rw [has, hget]
  exact decide_eq_true hlive

/-- a put that throws has purged -/
theorem put_throws (h : (v.put requestId env nowMs).1 = false) :
    (v.put requestId env nowMs).2 = v.purge nowMs := by
  rw [put] at h ⊢
  split
  next => rfl
  next hif =>
    rw [if_neg hif] at h
    cases h

theorem get_put (h : (v.put requestId env nowMs).1 = true) (r : JsString) :
    (v.put requestId env nowMs).2.get r =
      if r = requestId then some ⟨requestId, env, nowMs + defaultTtlMs⟩ else (v.purge nowMs).get r := by
  rw [put] at h ⊢
  split
  next hif =>
    rw [if_pos hif] at h
    cases h
  next => exact Table.get_set _ _ _

end

end EnvVault

end ExecutorClient
