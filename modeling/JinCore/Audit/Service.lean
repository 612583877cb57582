import JinCore.Audit.HashChain
import Mathlib.Data.List.Sort

/-!
# `AuditService` and the table it appends to (`src/audit/audit.service.ts`)

The hash of a row is computed over the values in memory; `verifyChain` recomputes it over the
values the columns give back.

* `textColumn`, `uuidColumn`, `storeRow`   what an insert keeps of a value, `none` if it fails;
* `AuditTable`         the rows in insertion order, their ids growing;
* `AuditCall`          the calls that append a row, and the row each of them writes;
* `appendRow`, `appendAll`   one append under the advisory lock, a sequence of them;
* `RoundTrips`         the columns give back exactly what was hashed; `storeRow_eq_self_iff`;
* `verifyChain_appendAll`    the chain is valid exactly when every appended row round-trips.
-/

namespace Audit
open JsString Json

/-! ## columns -/

/-- a `text` column keeps UTF-8; the server refuses a NUL -/
def textColumn (s : JsString) : Option JsString :=
  if (0 : UInt16) ∈ s.units then none else some (ofChars s.chars)

def nullable (column : JsString → Option JsString) : Option JsString → Option (Option JsString)
  | none => some none
  | some s => (column s).map some

def isXDigit (c : Char) : Bool :=
  decide (('0' ≤ c ∧ c ≤ '9') ∨ ('a' ≤ c ∧ c ≤ 'f') ∨ ('A' ≤ c ∧ c ≤ 'F'))

def lowerHex (c : Char) : Char := if 'A' ≤ c ∧ c ≤ 'F' then Char.ofNat (c.toNat + 32) else c

/-- `n` bytes in hexadecimal, each pair after an even number of bytes still to come possibly
followed by a hyphen -/
def uuidDigits : Nat → List Char → Option (List Char × List Char)
  | 0, cs => some ([], cs)
  | n + 1, a :: b :: cs =>
    if isXDigit a && isXDigit b then
      (uuidDigits n (if n % 2 = 0 ∧ 0 < n ∧ cs.head? = some '-' then cs.tail else cs)).map
        (Prod.map (fun ds => lowerHex a :: lowerHex b :: ds) id)
    else none
  | _ + 1, _ => none

/-- lower case, hyphens after 8, 12, 16 and 20 digits -/
def uuidText (ds : List Char) : List Char :=
  ds.take 8 ++ '-' :: ((ds.drop 8).take 4 ++ '-' :: ((ds.drop 12).take 4 ++
    '-' :: ((ds.drop 16).take 4 ++ '-' :: ds.drop 20)))

/-- a `uuid` column: 32 hexadecimal digits in either case, hyphens allowed after every fourth,
braces allowed around them; read back in the canonical form -/
def uuidColumn (s : JsString) : Option JsString :=
  match s.chars with
  | '{' :: cs =>
    match uuidDigits 16 cs with
    | some (ds, ['}']) => some (ofChars (uuidText ds))
    | _ => none
  | cs =>
    match uuidDigits 16 cs with
    | some (ds, []) => some (ofChars (uuidText ds))
    | _ => none

/-- what the columns of `audit_log` give back; a `timestamp` keeps milliseconds -/
def storeRow (row : HashableRow) : Option HashableRow := do
  let requestId ← uuidColumn row.requestId
  let actor ← textColumn row.actor
  let actionType ← textColumn row.actionType
  let toolName ← nullable textColumn row.toolName
  let inputsHash ← textColumn row.inputsHash
  let planSummary ← nullable textColumn row.planSummary
  let approvalStatus ← textColumn row.approvalStatus
  let approver ← nullable textColumn row.approver
  let externalInputsSummary ← nullable textColumn row.externalInputsSummary
  some ⟨requestId, row.timestamp, actor, actionType, toolName, inputsHash, planSummary,
    approvalStatus, approver, externalInputsSummary⟩

/-! ## the table -/

/-- the rows of `audit_log` in insertion order; `seq` is the last id the sequence has given -/
structure AuditTable where
  rows : List AuditLogRow
  seq : Nat
  sorted : rows.Pairwise fun a b => a.id < b.id
  bounded : ∀ r ∈ rows, r.id ≤ seq

namespace AuditTable

def empty : AuditTable := ⟨[], 0, List.Pairwise.nil, fun _ h => absurd h List.not_mem_nil⟩

/-- `SELECT ... ORDER BY id ASC` -/
def orderById (t : AuditTable) : List AuditLogRow := t.rows.mergeSort fun a b => a.id ≤ b.id

/-- `SELECT current_hash ... ORDER BY id DESC LIMIT 1`, the genesis hash for an empty table -/
def lastCurrentHash (t : AuditTable) : JsString :=
  (t.orderById.getLast?.map AuditLogRow.currentHash).getD genesisHash

/-- an insert takes the next id of the sequence -/
def insert (t : AuditTable) (row : HashableRow) (prevHash currentHash : JsString) : AuditTable where
  rows := t.rows ++ [⟨row, t.seq + 1, prevHash, currentHash⟩]
  seq := t.seq + 1
  sorted := by
    rw [List.pairwise_append]
    refine ⟨t.sorted, List.pairwise_singleton _ _, fun a ha b hb => ?_⟩
    rw [List.mem_singleton.mp hb]
    exact Nat.lt_succ_of_le (t.bounded a ha)
  bounded := by
    intro r hr
    rcases List.mem_append.mp hr with h | h
    · exact Nat.le_succ_of_le (t.bounded r h)
    · rw [List.mem_singleton.mp h]

theorem orderById_eq (t : AuditTable) : t.orderById = t.rows := by
  apply List.mergeSort_of_pairwise
  exact t.sorted.imp fun h => by simpa using Nat.le_of_lt h

theorem lastCurrentHash_eq (t : AuditTable) : t.lastCurrentHash = lastHash genesisHash t.rows := by
  rw [lastCurrentHash, orderById_eq, lastHash]

end AuditTable

/-! ## calls -/

inductive ToolCallStatus where
  | auto | notified | pending
  deriving DecidableEq, Repr

def ToolCallStatus.text : ToolCallStatus → JsString
  | .auto => lit "auto"
  | .notified => lit "notified"
  | .pending => lit "pending"

inductive TimeoutStatus where
  | timeout | abandoned
  deriving DecidableEq, Repr

def TimeoutStatus.text : TimeoutStatus → JsString
  | .timeout => lit "timeout"
  | .abandoned => lit "abandoned"

/-- the public methods that append a row -/
inductive AuditCall where
  | recordToolCall (requestId actor toolName inputsHash : JsString) (planSummary : Option JsString)
      (approvalStatus : ToolCallStatus) (externalInputsSummary : Option JsString)
  | recordApproval (requestId approver toolName inputsHash : JsString)
  | recordRejection (requestId approver toolName inputsHash : JsString)
  | recordExecutionFailure (requestId toolName inputsHash : JsString)
  | recordTimeout (requestId toolName inputsHash : JsString) (status : TimeoutStatus)
  deriving DecidableEq, Repr

/-- the row a call appends, at the time it is appended -/
def AuditCall.row (timestamp : JsDate) : AuditCall → HashableRow
  | .recordToolCall requestId actor toolName inputsHash planSummary approvalStatus ext =>
    ⟨requestId, timestamp, actor, lit "tool_call", some toolName, inputsHash, planSummary,
      approvalStatus.text, none, ext⟩
  | .recordApproval requestId approver toolName inputsHash =>
    ⟨requestId, timestamp, lit "user", lit "approval", some toolName, inputsHash, none,
      lit "approved", some approver, none⟩
  | .recordRejection requestId approver toolName inputsHash =>
    ⟨requestId, timestamp, lit "user", lit "rejection", some toolName, inputsHash, none,
      lit "rejected", some approver, none⟩
  | .recordExecutionFailure requestId toolName inputsHash =>
    ⟨requestId, timestamp, lit "system", lit "execution_failed", some toolName, inputsHash, none,
      lit "failed", none, none⟩
  | .recordTimeout requestId toolName inputsHash status =>
    ⟨requestId, timestamp, lit "system", lit "timeout", some toolName, inputsHash, none,
      status.text, none, none⟩

section
variable (sha256 : List UInt8 → List UInt8)

/-- the insert of `appendRow`, `none` if a column refuses its value -/
def insertRow (t : AuditTable) (prevHash : JsString) (row : HashableRow) : Option AuditTable := do
  let currentHash := computeRowHash sha256 prevHash row
  let stored ← storeRow row
  let prevColumn ← textColumn prevHash
  let currentColumn ← textColumn currentHash
  some (t.insert stored prevColumn currentColumn)

/-- the transaction of `appendRow`, run under the advisory lock -/
def appendRow (t : AuditTable) (row : HashableRow) : Option AuditTable :=
  insertRow sha256 t t.lastCurrentHash row

/-- a sequence of appends, each with the time of its row -/
def appendAll : AuditTable → List (AuditCall × JsDate) → Option AuditTable
  | t, [] => some t
  | t, c :: cs => (appendRow sha256 t (c.1.row c.2)).bind fun t' => appendAll t' cs

end

/-! ## what the columns keep -/

theorem textColumn_eq_some {s t : JsString} (h : textColumn s = some t) : ofChars s.chars = t := by
  unfold textColumn at h
  split at h
  · cases h
  · exact Option.some.inj h

theorem textColumn_self_iff {s t : JsString} (h : textColumn s = some t) :
    t = s ↔ s.isWellFormed = true := by
  rw [← textColumn_eq_some h, ofChars_chars_eq_iff]

/-- no lone surrogate in a nullable text -/
def optWellFormed : Option JsString → Bool
  | none => true
  | some s => s.isWellFormed

theorem nullable_self_iff {s t : Option JsString} (h : nullable textColumn s = some t) :
    t = s ↔ optWellFormed s = true := by
  cases s with
  | none =>
    cases h
    exact ⟨fun _ => rfl, fun _ => rfl⟩
  | some s =>
    obtain ⟨t', ht', rfl⟩ := Option.map_eq_some_iff.mp h
    rw [Option.some.injEq]
    exact textColumn_self_iff ht'

/-- the request id is in the canonical form already and no text has a lone surrogate -/
structure RoundTrips (row : HashableRow) : Prop where
  requestId : uuidColumn row.requestId = some row.requestId
  actor : row.actor.isWellFormed = true
  actionType : row.actionType.isWellFormed = true
  toolName : optWellFormed row.toolName = true
  inputsHash : row.inputsHash.isWellFormed = true
  planSummary : optWellFormed row.planSummary = true
  approvalStatus : row.approvalStatus.isWellFormed = true
  approver : optWellFormed row.approver = true
  externalInputsSummary : optWellFormed row.externalInputsSummary = true

/-- the columns give a row back unchanged exactly when it round-trips -/
theorem storeRow_eq_self_iff {row stored : HashableRow} (h : storeRow row = some stored) :
    stored = row ↔ RoundTrips row := by
  simp only [storeRow, Option.bind_eq_bind, Option.bind_eq_some_iff] at h
  obtain ⟨i, hi, a, ha, ty, hty, tn, htn, ih, hih, p, hp, st, hst, ap, hap, ex, hex, hs⟩ := h
  cases hs
  have e1 : i = row.requestId ↔ uuidColumn row.requestId = some row.requestId := by
    rw [hi, Option.some.injEq]
  have e : ((⟨i, row.timestamp, a, ty, tn, ih, p, st, ap, ex⟩ : HashableRow) = row) ↔
      i = row.requestId ∧ a = row.actor ∧ ty = row.actionType ∧ tn = row.toolName ∧
        ih = row.inputsHash ∧ p = row.planSummary ∧ st = row.approvalStatus ∧
        ap = row.approver ∧ ex = row.externalInputsSummary := by
    cases row
    simp
  rw [e, e1, textColumn_self_iff ha, textColumn_self_iff hty, nullable_self_iff htn,
    textColumn_self_iff hih, nullable_self_iff hp, textColumn_self_iff hst, nullable_self_iff hap,
    nullable_self_iff hex]
  exact ⟨fun ⟨h1, h2, h3, h4, h5, h6, h7, h8, h9⟩ => ⟨h1, h2, h3, h4, h5, h6, h7, h8, h9⟩,
    fun ⟨h1, h2, h3, h4, h5, h6, h7, h8, h9⟩ => ⟨h1, h2, h3, h4, h5, h6, h7, h8, h9⟩⟩

theorem zero_notMem_encode {c : Char} (hc : c.toNat ≠ 0) : (0 : UInt16) ∉ encode c := by
  have hr := char_range c
  unfold encode
  split
  next h =>
    intro hm
    have h0 := congrArg UInt16.toNat (List.mem_singleton.mp hm)
    rw [toNat_ofNat16 h] at h0
    exact hc h0.symm
  next h =>
    intro hm
    simp only [List.mem_cons, List.not_mem_nil, or_false] at hm
    rcases hm with hm | hm
    · have h0 := congrArg UInt16.toNat hm
      rw [toNat_ofNat16 (by omega)] at h0
      have : (0 : UInt16).toNat = 0 := rfl
      omega
    · have h0 := congrArg UInt16.toNat hm
      rw [toNat_ofNat16 (by omega)] at h0
      have : (0 : UInt16).toNat = 0 := rfl
      omega

theorem hexChar_ne_zero : ∀ a : Fin 16, (Nat.digitChar a).toNat ≠ 0 := by decide

/-- hashes are kept as they are -/
theorem textColumn_of_isHash {s : JsString} (h : IsHash s) : textColumn s = some s := by
  obtain ⟨bytes, rfl⟩ := h
  have h0 : (0 : UInt16) ∉ (toHex bytes).units := by
    intro hm
    obtain ⟨c, hc, hm⟩ := List.mem_flatMap.mp hm
    obtain ⟨b, _, hb⟩ := List.mem_flatMap.mp hc
    have hlt : b.toNat < 256 := b.toNat_lt
    simp only [List.mem_cons, List.not_mem_nil, or_false] at hb
    rcases hb with rfl | rfl
    · exact zero_notMem_encode (hexChar_ne_zero ⟨b.toNat / 16, by omega⟩) hm
    · exact zero_notMem_encode (hexChar_ne_zero ⟨b.toNat % 16, by omega⟩) hm
  rw [textColumn, if_neg h0, (ofChars_chars_eq_iff _).mpr (isWellFormed_toHex bytes)]

/-! ## the chain of the appended rows -/

section
variable {sha256 : List UInt8 → List UInt8}

/-- the stored rows: their hashes are hexadecimal -/
def HashesOk (t : AuditTable) : Prop := ∀ r ∈ t.rows, IsHash r.currentHash

theorem isHash_lastHash {t : AuditTable} (h : HashesOk t) : IsHash (lastHash genesisHash t.rows) := by
  unfold lastHash
  cases hl : t.rows.getLast? with
  | none => exact isHash_genesis
  | some r => exact h r (List.mem_of_getLast? hl)

/-- what one append does: the row is hashed as it is in memory and stored as the columns keep it -/
theorem appendRow_eq (sha256 : List UInt8 → List UInt8) {t : AuditTable} (row : HashableRow)
    (ht : HashesOk t) :
    appendRow sha256 t row = (storeRow row).map fun stored =>
      t.insert stored (lastHash genesisHash t.rows)
        (computeRowHash sha256 (lastHash genesisHash t.rows) row) := by
  have hp := textColumn_of_isHash (isHash_lastHash ht)
  have hc := textColumn_of_isHash (isHash_computeRowHash sha256 (lastHash genesisHash t.rows) row)
  rw [appendRow, AuditTable.lastCurrentHash_eq, insertRow]
  simp only [hp, hc, Option.bind_eq_bind, Option.bind_some]
  exact Option.map_eq_bind.symm

theorem appendRow_cases {t t' : AuditTable} {row : HashableRow} (ht : HashesOk t)
    (h : appendRow sha256 t row = some t') :
    ∃ stored, storeRow row = some stored ∧
      t' = t.insert stored (lastHash genesisHash t.rows)
        (computeRowHash sha256 (lastHash genesisHash t.rows) row) := by
  rw [appendRow_eq sha256 row ht] at h
  obtain ⟨stored, hs, he⟩ := Option.map_eq_some_iff.mp h
  exact ⟨stored, hs, he.symm⟩

theorem hashesOk_appendRow {t t' : AuditTable} {row : HashableRow} (ht : HashesOk t)
    (h : appendRow sha256 t row = some t') : HashesOk t' := by
  obtain ⟨stored, _, rfl⟩ := appendRow_cases ht h
  intro r hr
  rcases List.mem_append.mp hr with h | h
  · exact ht r h
  · rw [List.mem_singleton.mp h]
    exact isHash_computeRowHash ..

/-- the chain stays linked when the new row round-trips, and only then -/
theorem linked_appendRow {t t' : AuditTable} {row : HashableRow} (ht : HashesOk t)
    (h : appendRow sha256 t row = some t') :
    (RoundTrips row → Chain.Linked (computeRowHash sha256) genesisHash (t.rows.map AuditLogRow.entry) →
      Chain.Linked (computeRowHash sha256) genesisHash (t'.rows.map AuditLogRow.entry)) ∧
    (Chain.Linked (computeRowHash sha256) genesisHash (t'.rows.map AuditLogRow.entry) →
      Chain.Linked (computeRowHash sha256) genesisHash (t.rows.map AuditLogRow.entry) ∧
        (Function.Injective sha256 → RoundTrips row)) := by
  obtain ⟨stored, hs, rfl⟩ := appendRow_cases ht h
  rw [AuditTable.insert, List.map_append, List.map_singleton, Chain.linked_snoc, ← lastHash_eq_tip]
  constructor
  · intro hr hl
    obtain rfl := (storeRow_eq_self_iff hs).mpr hr
    exact ⟨hl, rfl, rfl⟩
  · rintro ⟨hl, _, hh⟩
    refine ⟨hl, fun hinj => (storeRow_eq_self_iff hs).mp ?_⟩
    exact (computeRowHash_inj hinj (isHash_lastHash ht) (isHash_lastHash ht) hh).2.symm

theorem appendAll_snoc (t : AuditTable) (cs : List (AuditCall × JsDate)) (c : AuditCall × JsDate) :
    appendAll sha256 t (cs ++ [c])
      = (appendAll sha256 t cs).bind fun t' => appendRow sha256 t' (c.1.row c.2) := by
  induction cs generalizing t with
  | nil =>
    rw [List.nil_append, appendAll, appendAll, Option.bind_some]
    cases appendRow sha256 t (c.1.row c.2) <;> rfl
  | cons d cs ih =>
    rw [List.cons_append, appendAll, appendAll, Option.bind_assoc]
    congr 1
    funext t'
    exact ih t'

theorem linked_appendAll (cs : List (AuditCall × JsDate)) :
    ∀ t t' : AuditTable, HashesOk t → appendAll sha256 t cs = some t' →
    ((∀ c ∈ cs, RoundTrips (c.1.row c.2)) →
      Chain.Linked (computeRowHash sha256) genesisHash (t.rows.map AuditLogRow.entry) →
      Chain.Linked (computeRowHash sha256) genesisHash (t'.rows.map AuditLogRow.entry)) ∧
    (Chain.Linked (computeRowHash sha256) genesisHash (t'.rows.map AuditLogRow.entry) →
      Chain.Linked (computeRowHash sha256) genesisHash (t.rows.map AuditLogRow.entry) ∧
        (Function.Injective sha256 → ∀ c ∈ cs, RoundTrips (c.1.row c.2))) := by
  induction cs with
  | nil =>
    intro t t' _ h
    cases h
    exact ⟨fun _ hl => hl, fun hl => ⟨hl, fun _ c hc => absurd hc List.not_mem_nil⟩⟩
  | cons c cs ih =>
    intro t t' ht h
    obtain ⟨u, hu, h⟩ := Option.bind_eq_some_iff.mp h
    obtain ⟨hstep, hback⟩ := linked_appendRow ht hu
    obtain ⟨hrun, hrback⟩ := ih u t' (hashesOk_appendRow ht hu) h
    constructor
    · intro hall hl
      exact hrun (fun d hd => hall d (List.mem_cons_of_mem _ hd))
        (hstep (hall c List.mem_cons_self) hl)
    · intro hl
      obtain ⟨hlu, hcs⟩ := hrback hl
      obtain ⟨hlt, hc⟩ := hback hlu
      refine ⟨hlt, fun hinj d hd => ?_⟩
      rcases List.mem_cons.mp hd with rfl | hd
      · exact hc hinj
      · exact hcs hinj d hd

end

/-- **When the chain is valid.**  After any sequence of successful appends, `verifyChain` of the
rows read back ordered by id is valid if every appended row round-trips through its columns; with
an injective digest, only if. -/
theorem verifyChain_appendAll (sha256 : List UInt8 → List UInt8) (cs : List (AuditCall × JsDate))
    (t : AuditTable) (h : appendAll sha256 AuditTable.empty cs = some t) :
    ((∀ c ∈ cs, RoundTrips (c.1.row c.2)) → verifyChain sha256 t.orderById = ⟨true, none⟩) ∧
    (Function.Injective sha256 →
      (verifyChain sha256 t.orderById = ⟨true, none⟩ ↔ ∀ c ∈ cs, RoundTrips (c.1.row c.2))) := by
  have h0 : HashesOk AuditTable.empty := fun r hr => absurd hr List.not_mem_nil
  obtain ⟨hfwd, hback⟩ := linked_appendAll cs AuditTable.empty t h0 h
  rw [verifyChain_valid_iff, AuditTable.orderById_eq]
  exact ⟨fun hall => hfwd hall trivial,
    fun hinj => ⟨fun hl => (hback hl).2 hinj, fun hall => hfwd hall trivial⟩⟩

/-! ## one approval, its id in lower and in upper case -/

def lowerCaseApproval : AuditCall :=
  .recordApproval (lit "aaaaaaaa-aaaa-4aaa-8aaa-aaaaaaaaaaaa") (lit "owner") (lit "sendEmail")
    (lit "h1")

def upperCaseApproval : AuditCall :=
  .recordApproval (lit "AAAAAAAA-AAAA-4AAA-8AAA-AAAAAAAAAAAA") (lit "owner") (lit "sendEmail")
    (lit "h1")

/-- the SHA-256 digests of the genesis hash followed by the canonical text of either row -/
def approvalSha256 : List UInt8 → List UInt8 :=
  digestOn [(genesisHash.utf8 ++ (canonicalizeRow (lowerCaseApproval.row sampleTime)).utf8,
      [121, 39, 184, 81, 4, 119, 142, 96, 139, 81, 166, 25, 6, 167, 31, 85,
        190, 101, 33, 173, 193, 28, 141, 160, 11, 80, 253, 37, 67, 220, 39, 199]),
    (genesisHash.utf8 ++ (canonicalizeRow (upperCaseApproval.row sampleTime)).utf8,
      [162, 250, 75, 135, 126, 154, 16, 40, 97, 112, 175, 226, 1, 171, 110, 36,
        104, 89, 18, 222, 236, 6, 251, 26, 18, 243, 35, 153, 50, 105, 24, 221])]

theorem appendAll_approval {c : AuditCall} {stored : HashableRow}
    (hs : storeRow (c.row sampleTime) = some stored) :
    appendAll approvalSha256 AuditTable.empty [(c, sampleTime)] = some (AuditTable.empty.insert
      stored genesisHash (computeRowHash approvalSha256 genesisHash (c.row sampleTime))) := by
  have h0 : HashesOk AuditTable.empty := fun r hr => absurd hr List.not_mem_nil
  rw [appendAll, appendRow_eq _ _ h0, hs]
  rfl

theorem verifyChain_lower_case :
    verifyChain approvalSha256 (AuditTable.empty.insert (lowerCaseApproval.row sampleTime)
      genesisHash (computeRowHash approvalSha256 genesisHash (lowerCaseApproval.row sampleTime))
      ).orderById = ⟨true, none⟩ := by
  refine ((verifyChain_appendAll approvalSha256 [(lowerCaseApproval, sampleTime)] _
    (appendAll_approval (by decide))).2 (digestOn_injective (by decide) (by decide))).mpr
    fun c hc => ?_
  rw [List.mem_singleton.mp hc]
  exact ⟨by decide, by decide, by decide, by decide, by decide, by decide, by decide, by decide,
    by decide⟩

/-- an id that the route took in upper case is hashed so and read back in lower case -/
theorem verifyChain_upper_case :
    ∃ t, appendAll approvalSha256 AuditTable.empty [(upperCaseApproval, sampleTime)] = some t ∧
      verifyChain approvalSha256 t.orderById = ⟨false, some 1⟩ := by
  have hs : storeRow (upperCaseApproval.row sampleTime)
      = some (lowerCaseApproval.row sampleTime) := by decide
  refine ⟨_, appendAll_approval hs, ?_⟩
  have hinj : Function.Injective approvalSha256 := digestOn_injective (by decide) (by decide)
  have hne : computeRowHash approvalSha256 genesisHash (lowerCaseApproval.row sampleTime)
      ≠ computeRowHash approvalSha256 genesisHash (upperCaseApproval.row sampleTime) := by
    intro h
    have hrow := (computeRowHash_inj hinj isHash_genesis isHash_genesis h).2
    exact absurd (congrArg HashableRow.requestId hrow) (by decide)
  rw [AuditTable.orderById_eq, verifyChain, verifyFrom_broken_iff]
  exact ⟨[], _, [], rfl, rfl, fun hm => hne hm.2, rfl⟩

end Audit
