import JinCore.Audit.Lock
import JinCore.Hitl.AtMostOnce

/-!
# What a failed creation leaves (`dual-confirm.service.ts`, `createPendingApproval`)

The insert, the audit append and the event come one after the other, outside of any transaction.

* `PendingStores`            the two tables, the lock of the chain and the events;
* `recordToolCall`           the append: refused by the lock or by a column, or it fails;
* `createPendingApproval`    the call on its own; `create_insert`: its table is that of the system;
* `AllOrNothing`             a throw leaves the table as it was, a return all three records;
* `creation_all_or_nothing_iff`, `orphan_approval`.
-/

namespace Hitl
open JsString Common Audit

structure PendingStores where
  pending : Table PendingApprovalRow.requestId
  audit : AuditTable
  lock : Option AuditChainLockRow
  /-- newest first -/
  events : List Notification

/-- how the statements of one call end, and when its rows are written -/
structure CreationReplies where
  createdAt : Int
  insert : Fate
  readLock : Fate
  timestamp : JsDate
  append : Fate

def PendingStores.isLocked (s : PendingStores) : Bool :=
  (s.lock.map AuditChainLockRow.locked).getD false

section
variable (sha256 : List UInt8 → List UInt8)

def recordToolCall (s : PendingStores) (call : AuditCall) (w : CreationReplies) :
    PendingStores × Outcome Unit :=
  if w.readLock ≠ .ok then (s, .failed)
  else if s.isLocked then (s, .threw auditChainLockedError)
  else
    match appendRow sha256 s.audit (call.row w.timestamp) with
    | none => (s, .failed)
    | some audit =>
      match w.append with
      | .lost => (s, .failed)
      | .applied => ({ s with audit := audit }, .failed)
      | .ok => ({ s with audit := audit }, .returned ())

def CreatePendingApprovalInput.createdEvent (input : CreatePendingApprovalInput) : Notification :=
  .created input.requestId.uuid input.toolName input.level

/-- the insert throws as well where its primary key is taken -/
def createPendingApproval (s : PendingStores) (input : CreatePendingApprovalInput)
    (w : CreationReplies) : PendingStores × Outcome Unit :=
  match s.pending.insert (PendingApprovals.newRow input w.createdAt) with
  | none => (s, .failed)
  | some pending =>
    match w.insert with
    | .lost => (s, .failed)
    | .applied => ({ s with pending := pending }, .failed)
    | .ok =>
      match recordToolCall sha256 { s with pending := pending } input.auditCall w with
      | (s, .returned _) => ({ s with events := input.createdEvent :: s.events }, .returned ())
      | (s, outcome) => (s, outcome)

/-- a throw has left the table as it was; after a return the row, its audit row and the event exist -/
structure AllOrNothing (s : PendingStores) (input : CreatePendingApprovalInput)
    (w : CreationReplies) (after : PendingStores × Outcome Unit) : Prop where
  thrown : after.2 ≠ .returned () → after.1.pending = s.pending
  row : after.2 = .returned () →
    after.1.pending.get input.requestId.uuid = some (PendingApprovals.newRow input w.createdAt)
  audited : after.2 = .returned () →
    appendRow sha256 s.audit (input.auditCall.row w.timestamp) = some after.1.audit
  emitted : after.2 = .returned () → input.createdEvent ∈ after.1.events

/-- the insert throws and writes nothing -/
def InsertsNothing (s : PendingStores) (input : CreatePendingApprovalInput) (w : CreationReplies) :
    Prop :=
  s.pending.get input.requestId.uuid ≠ none ∨ w.insert = .lost

/-- the chain is not locked, its columns take the row, and the append is answered -/
structure Appends (s : PendingStores) (call : AuditCall) (w : CreationReplies) : Prop where
  readLock : w.readLock = .ok
  unlocked : s.isLocked = false
  stored : appendRow sha256 s.audit (call.row w.timestamp) ≠ none
  append : w.append = .ok

end

section
variable {sha256 : List UInt8 → List UInt8} {s : PendingStores} {w : CreationReplies}
  {input : CreatePendingApprovalInput}

theorem recordToolCall_of_appends {call : AuditCall} (h : Appends sha256 s call w) :
    ∃ audit, appendRow sha256 s.audit (call.row w.timestamp) = some audit ∧
      recordToolCall sha256 s call w = ({ s with audit := audit }, .returned ()) := by
  obtain ⟨audit, haudit⟩ := Option.ne_none_iff_exists'.mp h.stored
  refine ⟨audit, haudit, ?_⟩
  rw [recordToolCall, if_neg (not_not_intro h.readLock), if_neg (by rw [h.unlocked]; simp), haudit]
  simp only [h.append]

theorem recordToolCall_of_not_appends {call : AuditCall} (h : ¬ Appends sha256 s call w) :
    (recordToolCall sha256 s call w).1.pending = s.pending ∧
      (recordToolCall sha256 s call w).2 ≠ .returned () := by
  rw [recordToolCall]
  split
  · exact ⟨rfl, by rintro ⟨⟩⟩
  next hread =>
    split
    · exact ⟨rfl, by rintro ⟨⟩⟩
    next hlock =>
      cases happend : appendRow sha256 s.audit (call.row w.timestamp) with
      | none => exact ⟨rfl, by rintro ⟨⟩⟩
      | some audit =>
        cases hfate : w.append with
        | ok =>
          refine absurd ⟨not_not.mp hread, Bool.not_eq_true _ ▸ hlock, ?_, hfate⟩ h
          rw [happend]
          exact Option.some_ne_none audit
        | lost => exact ⟨rfl, by rintro ⟨⟩⟩
        | applied => exact ⟨rfl, by rintro ⟨⟩⟩

theorem pending_recordToolCall (sha256 : List UInt8 → List UInt8) (s : PendingStores)
    (call : AuditCall) (w : CreationReplies) :
    (recordToolCall sha256 s call w).1.pending = s.pending := by
  by_cases h : Appends sha256 s call w
  · obtain ⟨audit, _, hcall⟩ := recordToolCall_of_appends h
    rw [hcall]
  · exact (recordToolCall_of_not_appends h).1

/-- the rows of a table that takes another one -/
theorem table_ne_of_insert {table : Table PendingApprovalRow.requestId} {row : PendingApprovalRow}
    {t : Table PendingApprovalRow.requestId} (h : t.insert row = some table) : table ≠ t := by
  rintro rfl
  have hget := Table.get_insert h row.requestId
  rw [if_pos rfl, hget.1] at hget
  cases hget.2

theorem allOrNothing_unchanged {outcome : Outcome Unit} (h : outcome ≠ .returned ()) :
    AllOrNothing sha256 s input w (s, outcome) :=
  ⟨fun _ => rfl, fun he => absurd he h, fun he => absurd he h, fun he => absurd he h⟩

/-- **When a creation is all or nothing.**  Whatever fails: exactly where the insert writes nothing, or
where it is answered and the append after it succeeds as well. -/
theorem creation_all_or_nothing_iff (sha256 : List UInt8 → List UInt8) (s : PendingStores)
    (input : CreatePendingApprovalInput) (w : CreationReplies) :
    AllOrNothing sha256 s input w (createPendingApproval sha256 s input w) ↔
      InsertsNothing s input w ∨ (w.insert = .ok ∧ Appends sha256 s input.auditCall w) := by
  cases hinsert : s.pending.insert (PendingApprovals.newRow input w.createdAt) with
  | none =>
    simp only [createPendingApproval, hinsert]
    exact iff_of_true (allOrNothing_unchanged (by rintro ⟨⟩))
      (Or.inl (Or.inl (Table.insert_eq_none_iff.mp hinsert)))
  | some pending =>
    have hfree : s.pending.get input.requestId.uuid = none :=
      (Table.get_insert hinsert input.requestId.uuid).1
    have hrow : pending.get input.requestId.uuid
        = some (PendingApprovals.newRow input w.createdAt) :=
      ((Table.get_insert hinsert input.requestId.uuid).2).trans (if_pos rfl)
    have hnew := table_ne_of_insert hinsert
    cases hfate : w.insert with
    | lost =>
      simp only [createPendingApproval, hinsert, hfate]
      exact iff_of_true (allOrNothing_unchanged (by rintro ⟨⟩)) (Or.inl (Or.inr hfate))
    | applied =>
      simp only [createPendingApproval, hinsert, hfate]
      refine iff_of_false (fun h => hnew (h.thrown (by rintro ⟨⟩))) ?_
      rintro ((h | h) | ⟨⟨⟩, -⟩)
      · exact h hfree
      · rw [hfate] at h
        cases h
    | ok =>
      have hcongr : Appends sha256 { s with pending := pending } input.auditCall w ↔
          Appends sha256 s input.auditCall w :=
        ⟨fun h => ⟨h.1, h.2, h.3, h.4⟩, fun h => ⟨h.1, h.2, h.3, h.4⟩⟩
      by_cases happends : Appends sha256 s input.auditCall w
      · obtain ⟨audit, haudit, hcall⟩ := recordToolCall_of_appends (hcongr.mpr happends)
        simp only [createPendingApproval, hinsert, hfate, hcall]
        refine iff_of_true ⟨fun h => absurd rfl h, fun _ => hrow, fun _ => haudit, fun _ => ?_⟩
          (Or.inr ⟨trivial, happends⟩)
        exact List.mem_cons_self
      · obtain ⟨hpending, hthrew⟩ := recordToolCall_of_not_appends (mt hcongr.mp happends)
        simp only [createPendingApproval, hinsert, hfate]
        refine iff_of_false (fun h => ?_) ?_
        · split at h
          next hcall =>
            rw [hcall] at hthrew
            exact hthrew rfl
          next hcall =>
            rw [hcall] at hpending hthrew
            exact hnew (hpending.symm.trans (h.thrown hthrew))
        · rintro ((h | h) | ⟨-, h⟩)
          · exact h hfree
          · rw [hfate] at h
            cases h
          · exact happends h

/-- the table after the call is the one that the statement of the system leaves -/
theorem create_insert {p : PendingApprovals} (hfresh : input.requestId.uuid ∉ p.used) (id : CallId)
    (text : JsString) (hs : s.pending = p.table) :
    ∃ m, create p id input ⟨w.createdAt, w.insert, text⟩ .insert = some m ∧
      (createPendingApproval sha256 s input w).1.pending = m.pending.table := by
  have hget : p.table.get input.requestId.uuid = none := by
    by_contra h
    exact hfresh (p.covers _ h)
  obtain ⟨p', hp', htable⟩ : ∃ p', p.insert input w.createdAt = some p' ∧
      p.table.insert (PendingApprovals.newRow input w.createdAt) = some p'.table := by
    rw [PendingApprovals.insert, if_neg hfresh]
    split
    next hnone => exact absurd hget (Table.insert_eq_none_iff.mp hnone)
    next table htable => exact ⟨_, rfl, htable⟩
  rw [← hs] at htable
  simp only [create, hp', Option.map_some, Option.some.injEq, exists_eq_left']
  cases hfate : w.insert with
  | lost =>
    simp only [createPendingApproval, htable, hfate, Move.fail]
    exact hs
  | applied => simp only [createPendingApproval, htable, hfate, Move.fail]
  | ok =>
    have hpending := pending_recordToolCall sha256 { s with pending := p'.table } input.auditCall w
    simp only [createPendingApproval, htable, hfate]
    split
    next hcall =>
      rw [hcall] at hpending
      exact hpending
    next hcall =>
      rw [hcall] at hpending
      exact hpending

end

/-! ## an approval on a locked chain -/

def lockedStores : PendingStores where
  pending := .empty _
  audit := .empty
  lock := some ⟨true, none, some (lockReason (some 1))⟩
  events := []

theorem epoch_valid : -8640000000000000 ≤ (0 : Int) ∧ (0 : Int) ≤ 8640000000000000 := by decide

def answeredReplies : CreationReplies where
  createdAt := 0
  insert := .ok
  readLock := .ok
  timestamp := ⟨0, epoch_valid⟩
  append := .ok

/-- the caller is told that nothing was created, and the row can be approved -/
theorem orphan_approval :
    ¬ AllOrNothing (fun bytes => bytes) lockedStores (sampleInput .confirm) answeredReplies
      (createPendingApproval (fun bytes => bytes) lockedStores (sampleInput .confirm)
        answeredReplies) := by
  intro h
  have hpending := h.thrown (by rintro ⟨⟩)
  cases congrArg Table.rows hpending

end Hitl
