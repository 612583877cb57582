import JinCore.Common.Calls
import JinCore.Lib.Runs
import JinCore.Audit.Service

/-!
# Appends against the daily verification (`audit.service.ts`, `chain-verification.service.ts`)

The calls interleave statement by statement.  `appendRow` reads `audit_chain_lock` first; only
then does it open the transaction that takes the advisory lock, reads the last hash, inserts and
commits.

* `AuditSystem`, `step`    the two tables, the advisory lock and where every call stands;
* `appendAll_of_run`       without outside writes the table is a sequence of whole appends, so the
                           results about `appendAll` hold of every interleaving;
* `NoAppendInFlight`       the lock is not written over an append that has read it already;
* `lock_effective`         under that condition nothing is appended while the lock is set.
-/

namespace Audit
open JsString Runs Common

/-- the row of `audit_chain_lock` -/
structure AuditChainLockRow where
  locked : Bool
  lockedAt : Option JsDate
  reason : Option JsString
  deriving DecidableEq, Repr

def auditChainLockedError : JinError where
  message := lit "El audit log está bloqueado tras detectar corrupción en la cadena — "
    ++ lit "requiere intervención manual (BLUEPRINT 9.5)."
  code := lit "AUDIT_CHAIN_LOCKED"
  httpStatus := some 503

/-- `String(brokenAtId)` -/
def idText : Option Nat → JsString
  | none => lit "null"
  | some n => ofChars (Nat.toDigits 10 n)

def lockReason (brokenAtId : Option Nat) : JsString :=
  lit "Audit chain CORRUPTA en la fila id=" ++ idText brokenAtId ++ lit "."

/-! ## the system -/

inductive AuditOp where
  | append (call : AuditCall)
  | verifyDaily
  | unlock
  deriving DecidableEq, Repr

/-- the statement a call is about to run, or how it ended -/
inductive AuditPc where
  | idle
  | readLock (call : AuditCall)
  | takeChainLock (call : AuditCall)
  | readLast (call : AuditCall)
  | insert (call : AuditCall) (prevHash : JsString)
  | readRows
  | writeLock (brokenAtId : Option Nat)
  | clearLock
  | done (outcome : Outcome Unit)
  deriving DecidableEq, Repr

structure AuditSystem where
  table : AuditTable
  lock : Option AuditChainLockRow
  /-- the transaction that holds the advisory lock -/
  chainOwner : Option CallId
  pc : CallId → AuditPc
  /-- the committed appends, for the statements only -/
  appended : List (AuditCall × JsDate)

namespace AuditSystem

def init : AuditSystem := ⟨AuditTable.empty, none, none, fun _ => .idle, []⟩

def isLocked (s : AuditSystem) : Bool := (s.lock.map AuditChainLockRow.locked).getD false

def goto (s : AuditSystem) (id : CallId) (pc : AuditPc) : AuditSystem :=
  { s with pc := fun i => if i = id then pc else s.pc i }

def upsertLock (s : AuditSystem) (row : AuditChainLockRow) : AuditSystem :=
  { s with lock := some row }

/-- the end of a transaction -/
def release (s : AuditSystem) (table : AuditTable) (appended : List (AuditCall × JsDate)) :
    AuditSystem :=
  { s with table := table, chainOwner := none, appended := appended }

def rollback (s : AuditSystem) (id : CallId) : AuditSystem :=
  (s.release s.table s.appended).goto id (.done .failed)

end AuditSystem

def AuditPc.start : AuditOp → AuditPc
  | .append call => .readLock call
  | .verifyDaily => .readRows
  | .unlock => .clearLock

inductive AuditLabel where
  | begin (id : CallId) (op : AuditOp)
  | go (id : CallId) (now : JsDate) (fate : Fate)
  /-- a write to `audit_log` from outside the program -/
  | tamper (table : AuditTable)

section
variable (sha256 : List UInt8 → List UInt8)

/-- the insert and the commit of `appendRow`: the row appears and the advisory lock goes together -/
def commitInsert (s : AuditSystem) (id : CallId) (call : AuditCall) (prevHash : JsString)
    (now : JsDate) (fate : Fate) : AuditSystem :=
  match insertRow sha256 s.table prevHash (call.row now) with
  | some table =>
    if fate.applies then
      (s.release table (s.appended ++ [(call, now)])).goto id
        (.done (if fate = .ok then .returned () else .failed))
    else s.rollback id
  | none => s.rollback id

/-- the next statement of a call -/
def advance (s : AuditSystem) (id : CallId) (now : JsDate) (fate : Fate) : Option AuditSystem :=
  match s.pc id with
  | .idle | .done _ => none
  | .readLock call =>
    if fate = .ok then
      some (s.goto id (if s.isLocked then .done (.threw auditChainLockedError)
        else .takeChainLock call))
    else some (s.goto id (.done .failed))
  | .takeChainLock call =>
    if fate = .ok then
      if s.chainOwner = none then some ({ s with chainOwner := some id }.goto id (.readLast call))
      else none
    else some (s.goto id (.done .failed))
  | .readLast call =>
    if fate = .ok then some (s.goto id (.insert call s.table.lastCurrentHash))
    else some (s.rollback id)
  | .insert call prevHash => some (commitInsert sha256 s id call prevHash now fate)
  | .readRows =>
    if fate = .ok then
      let result := verifyChain sha256 s.table.orderById
      some (s.goto id (if result.valid then .done (.returned ()) else .writeLock result.brokenAtId))
    else some (s.goto id (.done .failed))
  | .writeLock brokenAtId =>
    let s' := if fate.applies then s.upsertLock ⟨true, some now, some (lockReason brokenAtId)⟩ else s
    some (s'.goto id (.done (if fate = .ok then .returned () else .failed)))
  | .clearLock =>
    let s' := if fate.applies then s.upsertLock ⟨false, none, none⟩ else s
    some (s'.goto id (.done (if fate = .ok then .returned () else .failed)))

def step (s : AuditSystem) : AuditLabel → Option AuditSystem
  | .begin id op => if s.pc id = .idle then some (s.goto id (AuditPc.start op)) else none
  | .go id now fate => advance sha256 s id now fate
  | .tamper table => some { s with table := table }

end
/-! ## what one statement does -/

/-- past the read of the lock, before the end of the transaction -/
def AuditPc.inFlight : AuditPc → Bool
  | .takeChainLock _ | .readLast _ | .insert _ _ => true
  | _ => false

/-- inside the transaction, holding the advisory lock -/
def AuditPc.holdsChain : AuditPc → Bool
  | .readLast _ | .insert _ _ => true
  | _ => false

section
variable {sha256 : List UInt8 → List UInt8} {s t : AuditSystem} {id : CallId} {now : JsDate}
  {fate : Fate}

namespace AuditSystem

@[simp] theorem goto_pc (s : AuditSystem) (id i : CallId) (pc : AuditPc) :
    (s.goto id pc).pc i = if i = id then pc else s.pc i := rfl

@[simp] theorem goto_chainOwner (s : AuditSystem) (id : CallId) (pc : AuditPc) :
    (s.goto id pc).chainOwner = s.chainOwner := rfl

@[simp] theorem goto_isLocked (s : AuditSystem) (id : CallId) (pc : AuditPc) :
    (s.goto id pc).isLocked = s.isLocked := rfl

end AuditSystem

variable (sha256) in
/-- the effects a statement can have -/
inductive Advance (s : AuditSystem) (id : CallId) (now : JsDate) (fate : Fate) :
    AuditSystem → Prop
  | leave (pc : AuditPc) (hs : (s.pc id).holdsChain = false) (hpc : pc.inFlight = false) :
      Advance s id now fate (s.goto id pc)
  | pass (call : AuditCall) (hs : s.pc id = .readLock call) (hl : s.isLocked = false) :
      Advance s id now fate (s.goto id (.takeChainLock call))
  | take (call : AuditCall) (hs : s.pc id = .takeChainLock call) (ho : s.chainOwner = none) :
      Advance s id now fate ({ s with chainOwner := some id }.goto id (.readLast call))
  | read (call : AuditCall) (hs : s.pc id = .readLast call) :
      Advance s id now fate (s.goto id (.insert call s.table.lastCurrentHash))
  | commit (call : AuditCall) (prevHash : JsString) (table : AuditTable) (outcome : Outcome Unit)
      (hs : s.pc id = .insert call prevHash)
      (hi : insertRow sha256 s.table prevHash (call.row now) = some table) :
      Advance s id now fate ((s.release table (s.appended ++ [(call, now)])).goto id (.done outcome))
  | rollback (hs : (s.pc id).holdsChain = true) : Advance s id now fate (s.rollback id)
  | lock (brokenAtId : Option Nat) (row : AuditChainLockRow) (outcome : Outcome Unit)
      (hs : s.pc id = .writeLock brokenAtId) (hf : fate.applies = true) :
      Advance s id now fate ((s.upsertLock row).goto id (.done outcome))
  | unlock (row : AuditChainLockRow) (outcome : Outcome Unit) (hs : s.pc id = .clearLock)
      (hr : row.locked = false) : Advance s id now fate ((s.upsertLock row).goto id (.done outcome))

theorem commitInsert_cases {call : AuditCall} {prevHash : JsString}
    (hs : s.pc id = .insert call prevHash) :
    Advance sha256 s id now fate (commitInsert sha256 s id call prevHash now fate) := by
  have hh : (s.pc id).holdsChain = true := congrArg AuditPc.holdsChain hs
  unfold commitInsert
  cases hi : insertRow sha256 s.table prevHash (call.row now) with
  | none => exact .rollback hh
  | some table =>
    cases fate with
    | lost => exact .rollback hh
    | ok => exact .commit call prevHash table _ hs hi
    | applied => exact .commit call prevHash table _ hs hi

theorem advance_cases (h : advance sha256 s id now fate = some t) :
    Advance sha256 s id now fate t := by
  unfold advance at h
  cases hs : s.pc id with
  | idle => rw [hs] at h; cases h
  | done outcome => rw [hs] at h; cases h
  | readLock call =>
    have hh : (s.pc id).holdsChain = false := congrArg AuditPc.holdsChain hs
    simp only [hs] at h
    split at h
    · cases hl : s.isLocked with
      | true =>
        rw [hl] at h
        cases h
        exact .leave _ hh rfl
      | false =>
        rw [hl] at h
        cases h
        exact .pass call hs hl
    · cases h
      exact .leave _ hh rfl
  | takeChainLock call =>
    have hh : (s.pc id).holdsChain = false := congrArg AuditPc.holdsChain hs
    simp only [hs] at h
    split at h
    · split at h
      next ho =>
        cases h
        exact .take call hs ho
      next => cases h
    · cases h
      exact .leave _ hh rfl
  | readLast call =>
    simp only [hs] at h
    split at h
    · cases h
      exact .read call hs
    · cases h
      exact .rollback (congrArg AuditPc.holdsChain hs)
  | insert call prevHash =>
    simp only [hs] at h
    cases h
    exact commitInsert_cases hs
  | readRows =>
    have hh : (s.pc id).holdsChain = false := congrArg AuditPc.holdsChain hs
    simp only [hs] at h
    split at h
    · cases h
      refine .leave _ hh ?_
      split <;> rfl
    · cases h
      exact .leave _ hh rfl
  | writeLock brokenAtId =>
    have hh : (s.pc id).holdsChain = false := congrArg AuditPc.holdsChain hs
    simp only [hs] at h
    cases h
    cases hf : fate.applies with
    | true => exact .lock brokenAtId _ _ hs hf
    | false => exact .leave _ hh rfl
  | clearLock =>
    have hh : (s.pc id).holdsChain = false := congrArg AuditPc.holdsChain hs
    simp only [hs] at h
    cases h
    cases hf : fate.applies with
    | true => exact .unlock _ _ hs rfl
    | false => exact .leave _ hh rfl

/-! ## the transactions run one after another -/

variable (sha256) in
/-- the advisory lock is held by the one transaction under way, the hash it has read is still the
last one, and the table is what the committed appends have made of it -/
structure Serial (s : AuditSystem) : Prop where
  owner : ∀ i, (s.pc i).holdsChain = true ↔ s.chainOwner = some i
  prev : ∀ i call prevHash, s.pc i = .insert call prevHash → prevHash = s.table.lastCurrentHash
  table : appendAll sha256 AuditTable.empty s.appended = some s.table

variable (s) in
theorem serial_goto {pc : AuditPc} (hs : Serial sha256 s) (hid : (s.pc id).holdsChain = false)
    (hpc : pc.holdsChain = false) : Serial sha256 (s.goto id pc) := by
  refine ⟨fun i => ?_, fun i call prevHash hi => ?_, hs.table⟩
  · rw [AuditSystem.goto_pc, AuditSystem.goto_chainOwner, ← hs.owner i]
    split
    next he => rw [he, hid, hpc]
    next => exact Iff.rfl
  · rw [AuditSystem.goto_pc] at hi
    split at hi
    next =>
      rw [hi] at hpc
      cases hpc
    next => exact hs.prev i call prevHash hi

/-- when the transaction under way ends, nobody holds the advisory lock -/
theorem serial_end {table : AuditTable} {appended : List (AuditCall × JsDate)}
    {outcome : Outcome Unit} (hs : Serial sha256 s) (hid : (s.pc id).holdsChain = true)
    (ht : appendAll sha256 AuditTable.empty appended = some table) :
    Serial sha256 ((s.release table appended).goto id (.done outcome)) := by
  have hown := (hs.owner id).mp hid
  have hout : ∀ i, (((s.release table appended).goto id (.done outcome)).pc i).holdsChain
      = false := by
    intro i
    rw [AuditSystem.goto_pc]
    split
    next => rfl
    next hne =>
      rw [Bool.eq_false_iff]
      intro hi
      have := (hs.owner i).mp hi
      rw [hown, Option.some.injEq] at this
      exact hne this.symm
  refine ⟨fun i => ?_, fun i call prevHash hi => ?_, ht⟩
  · rw [hout i]
    exact ⟨fun h => (nomatch h), fun h => (nomatch h)⟩
  · have := hout i
    rw [hi] at this
    cases this

theorem serial_advance (hs : Serial sha256 s) (h : Advance sha256 s id now fate t) :
    Serial sha256 t := by
  have hno : ∀ pc : AuditPc, pc.inFlight = false → pc.holdsChain = false := by
    intro pc hpc
    cases pc <;> first | rfl | cases hpc
  cases h with
  | leave pc hid hpc => exact serial_goto s hs hid (hno pc hpc)
  | pass call hid hl => exact serial_goto s hs (congrArg AuditPc.holdsChain hid) rfl
  | take call hid ho =>
    refine ⟨fun i => ?_, fun i c prevHash hi => ?_, hs.table⟩
    · have hi := hs.owner i
      rw [ho] at hi
      rw [AuditSystem.goto_pc]
      split
      next he => exact ⟨fun _ => congrArg some he.symm, fun _ => rfl⟩
      next hne =>
        refine ⟨fun h => absurd (hi.mp h) (by simp), fun h => ?_⟩
        exact absurd (Option.some.inj h).symm hne
    · rw [AuditSystem.goto_pc] at hi
      split at hi
      next => cases hi
      next => exact hs.prev i c prevHash hi
  | read call hid =>
    refine ⟨fun i => ?_, fun i c prevHash hi => ?_, hs.table⟩
    · rw [AuditSystem.goto_pc, AuditSystem.goto_chainOwner, ← hs.owner i]
      split
      next he => rw [he, hid]; exact Iff.rfl
      next => exact Iff.rfl
    · rw [AuditSystem.goto_pc] at hi
      split at hi
      next => cases hi; rfl
      next => exact hs.prev i c prevHash hi
  | commit call prevHash table outcome hid hi =>
    refine serial_end hs (congrArg AuditPc.holdsChain hid) ?_
    rw [appendAll_snoc, hs.table, Option.bind_some, appendRow, ← hs.prev id call prevHash hid]
    exact hi
  | rollback hid => exact serial_end hs hid hs.table
  | lock brokenAtId row outcome hid hf =>
    exact serial_goto (s.upsertLock row) ⟨hs.owner, hs.prev, hs.table⟩
      (congrArg AuditPc.holdsChain hid) rfl
  | unlock row outcome hid hr =>
    exact serial_goto (s.upsertLock row) ⟨hs.owner, hs.prev, hs.table⟩
      (congrArg AuditPc.holdsChain hid) rfl

end

/-- nobody writes `audit_log` from outside -/
def Untampered : AuditSystem → AuditLabel → Prop
  | _, .tamper _ => False
  | _, _ => True

theorem serial_step {sha256 : List UInt8 → List UInt8} (s : AuditSystem) (l : AuditLabel)
    (t : AuditSystem) (hs : Serial sha256 s) (hl : Untampered s l)
    (h : step sha256 s l = some t) : Serial sha256 t := by
  cases l with
  | begin id op =>
    rw [step] at h
    split at h
    next hid =>
      cases h
      refine serial_goto s hs (congrArg AuditPc.holdsChain hid) ?_
      cases op <;> rfl
    next => cases h
  | go id now fate => exact serial_advance hs (advance_cases h)
  | tamper table => exact absurd hl id

/-- any interleaving of calls leaves the table a sequence of whole appends leaves -/
theorem appendAll_of_run {sha256 : List UInt8 → List UInt8} {ls : List AuditLabel}
    {s : AuditSystem} (hls : Guarded (step sha256) Untampered AuditSystem.init ls)
    (h : run (step sha256) AuditSystem.init ls = some s) :
    appendAll sha256 AuditTable.empty s.appended = some s.table := by
  have h0 : Serial sha256 AuditSystem.init := by
    refine ⟨fun i => ⟨fun h => (nomatch h), fun h => (nomatch h)⟩, fun i call prevHash h => ?_, rfl⟩
    cases h
  exact (run_inv_guarded serial_step ls _ _ h0 hls h).table

/-! ## the lock and the appends in flight -/

/-- when `verifyDaily` writes the lock, no append has read it already and is still to end -/
def NoAppendInFlight (s : AuditSystem) : AuditLabel → Prop
  | .go id _ fate => (∃ n, s.pc id = .writeLock n) → fate.applies = true →
      ∀ i, (s.pc i).inFlight = false
  | _ => True

/-- while the lock is set no append is past its read of the lock -/
def LockExcludes (s : AuditSystem) : Prop :=
  s.isLocked = true → ∀ i, (s.pc i).inFlight = false

theorem lockExcludes_goto (s : AuditSystem) {id : CallId} {pc : AuditPc}
    (hs : LockExcludes s) (hpc : pc.inFlight = true → s.isLocked = false) :
    LockExcludes (s.goto id pc) := by
  intro hl i
  rw [AuditSystem.goto_isLocked] at hl
  rw [AuditSystem.goto_pc]
  split
  next =>
    rw [Bool.eq_false_iff]
    intro h
    rw [hpc h] at hl
    cases hl
  next => exact hs hl i

theorem lockExcludes_step {sha256 : List UInt8 → List UInt8} (s : AuditSystem) (l : AuditLabel)
    (t : AuditSystem) (hs : LockExcludes s) (hl : NoAppendInFlight s l)
    (h : step sha256 s l = some t) : LockExcludes t := by
  cases l with
  | begin id op =>
    rw [step] at h
    split at h
    next =>
      cases h
      refine lockExcludes_goto s hs fun hpc => ?_
      cases op <;> cases hpc
    next => cases h
  | tamper table =>
    cases h
    exact hs
  | go id now fate =>
    -- an append in flight has found the lock clear, so only a write of the lock can set it
    have hfly : (s.pc id).inFlight = true → s.isLocked = false := by
      intro hid
      rw [Bool.eq_false_iff]
      intro hlock
      rw [hs hlock id] at hid
      cases hid
    cases advance_cases h with
    | leave pc hid hpc => exact lockExcludes_goto s hs fun h => absurd (hpc.symm.trans h) Bool.false_ne_true
    | pass call hid hlock => exact lockExcludes_goto s hs fun _ => hlock
    | take call hid ho =>
      exact lockExcludes_goto { s with chainOwner := some id } hs
        fun _ => hfly (congrArg AuditPc.inFlight hid)
    | read call hid => exact lockExcludes_goto s hs fun _ => hfly (congrArg AuditPc.inFlight hid)
    | commit call prevHash table outcome hid hi =>
      exact lockExcludes_goto (s.release table (s.appended ++ [(call, now)])) hs fun h => (nomatch h)
    | rollback hid =>
      exact lockExcludes_goto (s.release s.table s.appended) hs fun h => (nomatch h)
    | lock brokenAtId row outcome hid hf =>
      refine lockExcludes_goto (s.upsertLock row) (fun _ i => ?_) fun h => (nomatch h)
      exact hl ⟨brokenAtId, hid⟩ hf i
    | unlock row outcome hid hr =>
      refine lockExcludes_goto (s.upsertLock row) (fun hlock => ?_) fun h => (nomatch h)
      rw [show (s.upsertLock row).isLocked = row.locked from rfl, hr] at hlock
      cases hlock

/-- a statement of the program changes the table only where an append in flight commits -/
theorem table_eq_of_step {sha256 : List UInt8 → List UInt8} {s t : AuditSystem} {l : AuditLabel}
    (hfly : ∀ i, (s.pc i).inFlight = false) (hl : Untampered s l)
    (h : step sha256 s l = some t) : t.table = s.table := by
  cases l with
  | begin id op =>
    rw [step] at h
    split at h
    next =>
      cases h
      rfl
    next => cases h
  | tamper table => exact absurd hl id
  | go id now fate =>
    cases advance_cases h with
    | commit call prevHash table outcome hid hi =>
      have := hfly id
      rw [hid] at this
      cases this
    | _ => rfl

/-- **The lock is effective.**  In every run in which `verifyDaily` never writes the lock over an
append that has read it already, no statement of the program changes `audit_log` while the lock is
set. -/
theorem lock_effective (sha256 : List UInt8 → List UInt8) (ls : List AuditLabel) (s : AuditSystem)
    (hls : Guarded (step sha256) NoAppendInFlight AuditSystem.init ls)
    (h : run (step sha256) AuditSystem.init ls = some s) (hlock : s.isLocked = true)
    (l : AuditLabel) (t : AuditSystem) (hl : Untampered s l) (ht : step sha256 s l = some t) :
    t.table = s.table := by
  have h0 : LockExcludes AuditSystem.init := fun h => absurd h (by decide)
  exact table_eq_of_step (run_inv_guarded lockExcludes_step ls _ _ h0 hls h hlock) hl ht

/-! ## an append that has read the lock before the verification writes it -/

/-- one row whose `prev_hash` is not the genesis hash -/
def tamperedTable : AuditTable :=
  AuditTable.empty.insert (lowerCaseApproval.row sampleTime) (toHex [1]) (toHex [2])

theorem verifyChain_tampered (sha256 : List UInt8 → List UInt8) :
    verifyChain sha256 tamperedTable.orderById = ⟨false, some 1⟩ := by
  rw [AuditTable.orderById_eq, verifyChain, verifyFrom_broken_iff]
  exact ⟨[], _, [], rfl, rfl, fun h => absurd h.1 (by decide), rfl⟩

/-- the table is tampered with and the verification finds it out -/
def verification : List AuditLabel :=
  [.tamper tamperedTable, .begin 1 .verifyDaily, .go 1 sampleTime .ok, .go 1 sampleTime .ok]

def verified (s : AuditSystem) : AuditSystem :=
  (((({ s with table := tamperedTable }.goto 1 .readRows).goto 1 (.writeLock (some 1))).upsertLock
    ⟨true, some sampleTime, some (lockReason (some 1))⟩).goto 1 (.done (.returned ())))

theorem verification_steps (sha256 : List UInt8 → List UInt8) (s : AuditSystem)
    (hs : s.pc 1 = .idle) :
    step sha256 { s with table := tamperedTable } (.begin 1 .verifyDaily)
      = some ({ s with table := tamperedTable }.goto 1 .readRows) ∧
    step sha256 ({ s with table := tamperedTable }.goto 1 .readRows) (.go 1 sampleTime .ok)
      = some (({ s with table := tamperedTable }.goto 1 .readRows).goto 1 (.writeLock (some 1))) := by
  refine ⟨if_pos hs, ?_⟩
  show some (({ s with table := tamperedTable }.goto 1 .readRows).goto 1
    (if (verifyChain sha256 tamperedTable.orderById).valid then .done (.returned ())
      else .writeLock (verifyChain sha256 tamperedTable.orderById).brokenAtId)) = _
  rw [verifyChain_tampered]
  rfl

theorem run_verification (sha256 : List UInt8 → List UInt8) (s : AuditSystem)
    (hs : s.pc 1 = .idle) : run (step sha256) s verification = some (verified s) := by
  obtain ⟨hbegin, hread⟩ := verification_steps sha256 s hs
  refine run_cons_some.mpr ⟨{ s with table := tamperedTable }, rfl, ?_⟩
  exact run_cons_some.mpr ⟨_, hbegin, run_cons_some.mpr ⟨_, hread, rfl⟩⟩

/-- an append that comes after the lock is refused -/
theorem lock_effective_refused :
    ∃ s t, run (step sampleSha256) AuditSystem.init
        (verification ++ [.begin 0 (.append upperCaseApproval)]) = some s ∧ s.isLocked = true ∧
      step sampleSha256 s (.go 0 sampleTime .ok) = some t ∧
      t.pc 0 = .done (.threw auditChainLockedError) ∧ t.table = s.table := by
  have hrun : run (step sampleSha256) AuditSystem.init
      (verification ++ [.begin 0 (.append upperCaseApproval)])
        = some ((verified AuditSystem.init).goto 0 (.readLock upperCaseApproval)) := by
    rw [run_append, run_verification sampleSha256 _ rfl, Option.bind_some]
    rfl
  have hguard : Guarded (step sampleSha256) NoAppendInFlight AuditSystem.init
      (verification ++ [.begin 0 (.append upperCaseApproval)]) := by
    obtain ⟨hbegin, hread⟩ := verification_steps sampleSha256 AuditSystem.init rfl
    refine (guarded_cons_some rfl).mpr ⟨trivial, ?_⟩
    refine (guarded_cons_some hbegin).mpr ⟨trivial, ?_⟩
    refine (guarded_cons_some hread).mpr ⟨fun ⟨n, hn⟩ => (nomatch hn), ?_⟩
    refine (guarded_cons_some rfl).mpr ⟨fun _ _ i => ?_, ?_⟩
    · simp only [AuditSystem.goto_pc]
      split <;> rfl
    · exact (guarded_cons_some rfl).mpr ⟨trivial, trivial⟩
  exact ⟨_, _, hrun, rfl, rfl, rfl, lock_effective sampleSha256 _ _ hguard hrun rfl
    (.go 0 sampleTime .ok) _ trivial rfl⟩

/-- the first append has read the lock -/
def passed : AuditSystem :=
  (AuditSystem.init.goto 0 (.readLock upperCaseApproval)).goto 0 (.takeChainLock upperCaseApproval)

/-- it goes on after the verification has set it -/
def resumed : AuditSystem :=
  ({ verified passed with chainOwner := some 0 }.goto 0 (.readLast upperCaseApproval)).goto 0
    (.insert upperCaseApproval tamperedTable.lastCurrentHash)

/-- an append that has read the lock commits its row after the lock is set -/
theorem lock_race :
    ∃ s t, run (step sampleSha256) AuditSystem.init
        ([.begin 0 (.append upperCaseApproval), .go 0 sampleTime .ok] ++ verification
          ++ [.go 0 sampleTime .ok, .go 0 sampleTime .ok]) = some s ∧ s.isLocked = true ∧
      step sampleSha256 s (.go 0 sampleTime .ok) = some t ∧
      t.table.rows.length = s.table.rows.length + 1 := by
  have hrun : run (step sampleSha256) AuditSystem.init
      ([.begin 0 (.append upperCaseApproval), .go 0 sampleTime .ok] ++ verification
        ++ [.go 0 sampleTime .ok, .go 0 sampleTime .ok]) = some resumed := by
    have hpass : run (step sampleSha256) AuditSystem.init
        [.begin 0 (.append upperCaseApproval), .go 0 sampleTime .ok] = some passed := rfl
    rw [run_append, run_append, hpass, Option.bind_some, run_verification sampleSha256 _ rfl]
    rfl
  have hstored : storeRow (upperCaseApproval.row sampleTime)
      = some (lowerCaseApproval.row sampleTime) := by decide
  have hashes : HashesOk tamperedTable := by
    intro r hr
    rw [List.mem_singleton.mp hr]
    exact ⟨[2], rfl⟩
  have hins := appendRow_eq sampleSha256 (upperCaseApproval.row sampleTime) hashes
  rw [hstored, Option.map_some, appendRow] at hins
  refine ⟨resumed, _, hrun, rfl, rfl, ?_⟩
  rw [commitInsert, show resumed.table = tamperedTable from rfl, hins]
  rfl

end Audit
