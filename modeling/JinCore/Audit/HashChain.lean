import JinCore.Lib.Chain
import JinCore.Js.Json
import JinCore.Js.Date
import Mathlib.Logic.Function.Basic
import Mathlib.Data.List.Nodup

/-!
# The audit hash chain (`src/audit/hash-chain.ts`)

`sha256` is the digest of `node:crypto`, bytes to bytes; everything around it (the canonical JSON
text, UTF-8, `digest('hex')`) is spelled out.

* `canonicalizeRow_inj`   the canonical text determines every hashed field;
* `computeRowHash_inj`    with an injective digest the row hash determines the previous hash and
                          the row: the previous hash is hexadecimal and the text starts with a
                          brace, so the hash input splits in one way only;
* `verifyChain_valid_iff` `verifyChain` accepts exactly the lists linked from the genesis hash;
* `verifyChain_broken_iff`  the id it reports is that of the first row that does not match;
* `chain_tamper_evidence` two accepted lists with the same last hash agree row by row.
-/

namespace Audit
open JsString Json

/-! ## rows and hashes -/

structure HashableRow where
  requestId : JsString
  timestamp : JsDate
  actor : JsString
  actionType : JsString
  toolName : Option JsString
  inputsHash : JsString
  planSummary : Option JsString
  approvalStatus : JsString
  approver : Option JsString
  externalInputsSummary : Option JsString
  deriving DecidableEq, Repr

/-- a row of `audit_log` -/
structure AuditLogRow extends HashableRow where
  id : Nat
  prevHash : JsString
  currentHash : JsString
  deriving DecidableEq, Repr

/-- `digest('hex')` -/
def toHex (bytes : List UInt8) : JsString :=
  ofChars (bytes.flatMap fun b => [Nat.digitChar (b.toNat / 16), Nat.digitChar (b.toNat % 16)])

def genesisHash : JsString := ofChars (List.replicate 64 '0')

def canonicalizeRow (row : HashableRow) : JsString :=
  stringify [
    (lit "requestId", some row.requestId),
    (lit "timestamp", some row.timestamp.toISOString),
    (lit "actor", some row.actor),
    (lit "actionType", some row.actionType),
    (lit "toolName", row.toolName),
    (lit "inputsHash", some row.inputsHash),
    (lit "planSummary", row.planSummary),
    (lit "approvalStatus", some row.approvalStatus),
    (lit "approver", row.approver),
    (lit "externalInputsSummary", row.externalInputsSummary)]

structure ChainVerificationResult where
  valid : Bool
  brokenAtId : Option Nat
  deriving DecidableEq, Repr

section
variable (sha256 : List UInt8 → List UInt8)

/-- two `update` calls, each with the UTF-8 bytes of its string -/
def computeHash (prevHash rowDataCanonical : JsString) : JsString :=
  toHex (sha256 (prevHash.utf8 ++ rowDataCanonical.utf8))

def computeRowHash (prevHash : JsString) (row : HashableRow) : JsString :=
  computeHash sha256 prevHash (canonicalizeRow row)

/-- the loop of `verifyChain` -/
def verifyFrom (expectedPrevHash : JsString) : List AuditLogRow → ChainVerificationResult
  | [] => ⟨true, none⟩
  | row :: rows =>
    if row.prevHash ≠ expectedPrevHash then ⟨false, some row.id⟩
    else if computeRowHash sha256 row.prevHash row.toHashableRow ≠ row.currentHash then
      ⟨false, some row.id⟩
    else verifyFrom row.currentHash rows

def verifyChain (rows : List AuditLogRow) : ChainVerificationResult :=
  verifyFrom sha256 genesisHash rows

end

/-! ## the canonical text -/

theorem canonicalizeRow_inj {r s : HashableRow} (h : canonicalizeRow r = canonicalizeRow s) :
    r = s := by
  have hm := stringify_inj h
  simp only [List.cons.injEq, Prod.mk.injEq, Option.some.injEq, true_and, and_true] at hm
  obtain ⟨h1, h2, h3, h4, h5, h6, h7, h8, h9, h10⟩ := hm
  have h2' := JsDate.toISOString_inj h2
  cases r
  cases s
  simp_all

theorem isWellFormed_canonicalizeRow (r : HashableRow) :
    (canonicalizeRow r).isWellFormed = true := isWellFormed_stringify _

/-- the canonical text starts with a brace -/
theorem chars_canonicalizeRow (r : HashableRow) :
    ∃ cs, (canonicalizeRow r).chars = '{' :: cs := by
  have hu : ∃ us, (canonicalizeRow r).units = 0x7B :: us := ⟨_, rfl⟩
  obtain ⟨us, hu⟩ := hu
  refine ⟨decode us, ?_⟩
  rw [chars, hu, decode_cons_of_not_lead (by decide)]
  rfl

/-! ## hexadecimal digests -/

/-- the strings that can stand as a previous hash -/
def IsHash (s : JsString) : Prop := ∃ bytes, s = toHex bytes

theorem isHash_genesis : IsHash genesisHash := ⟨List.replicate 32 0, by decide⟩

theorem isHash_computeRowHash (sha256 : List UInt8 → List UInt8) (p : JsString) (r : HashableRow) :
    IsHash (computeRowHash sha256 p r) := ⟨_, rfl⟩

theorem isWellFormed_toHex (bytes : List UInt8) : (toHex bytes).isWellFormed = true :=
  isWellFormed_ofChars _

theorem hexChar_inj : ∀ a b : Fin 16, Nat.digitChar a = Nat.digitChar b → a = b := by decide

theorem hexChar_ne_brace : ∀ a : Fin 16, Nat.digitChar a ≠ '{' := by decide

theorem toHex_inj {xs ys : List UInt8} (h : toHex xs = toHex ys) : xs = ys := by
  have hc := congrArg chars h
  rw [toHex, toHex, chars_ofChars, chars_ofChars] at hc
  clear h
  induction xs generalizing ys with
  | nil =>
    cases ys with
    | nil => rfl
    | cons y ys => simp at hc
  | cons x xs ih =>
    cases ys with
    | nil => simp at hc
    | cons y ys =>
      simp only [List.flatMap_cons, List.cons_append, List.nil_append, List.cons.injEq] at hc
      obtain ⟨hq, hr, ht⟩ := hc
      have hx : x.toNat < 256 := x.toNat_lt
      have hy : y.toNat < 256 := y.toNat_lt
      have eq := hexChar_inj ⟨x.toNat / 16, by omega⟩ ⟨y.toNat / 16, by omega⟩ hq
      have er := hexChar_inj ⟨x.toNat % 16, by omega⟩ ⟨y.toNat % 16, by omega⟩ hr
      simp only [Fin.mk.injEq] at eq er
      have hxy : x = y := UInt8.toNat_inj.mp (by omega)
      rw [hxy, ih ht]

theorem brace_notMem_toHex (bytes : List UInt8) : '{' ∉ (toHex bytes).chars := by
  rw [toHex, chars_ofChars]
  intro h
  obtain ⟨b, _, hb⟩ := List.mem_flatMap.mp h
  have hlt : b.toNat < 256 := b.toNat_lt
  simp only [List.mem_cons, List.not_mem_nil, or_false] at hb
  rcases hb with hb | hb
  · exact hexChar_ne_brace ⟨b.toNat / 16, by omega⟩ hb.symm
  · exact hexChar_ne_brace ⟨b.toNat % 16, by omega⟩ hb.symm

/-- two lists cut at the first `c` -/
theorem append_sep_inj {c : Char} {x y a b : List Char} (hx : c ∉ x) (hy : c ∉ y)
    (h : x ++ c :: a = y ++ c :: b) : x = y ∧ a = b := by
  induction x generalizing y with
  | nil =>
    cases y with
    | nil => exact ⟨rfl, (List.cons.inj h).2⟩
    | cons d y => exact absurd ((List.cons.inj h).1 ▸ List.mem_cons_self) hy
  | cons d x ih =>
    cases y with
    | nil => exact absurd ((List.cons.inj h).1 ▸ List.mem_cons_self) hx
    | cons e y =>
      obtain ⟨hde, ht⟩ := List.cons.inj h
      obtain ⟨hxy, hab⟩ := ih (fun hm => hx (List.mem_cons_of_mem _ hm))
        (fun hm => hy (List.mem_cons_of_mem _ hm)) ht
      exact ⟨by rw [hde, hxy], hab⟩

/-- the hash input determines the previous hash and the row -/
theorem hashInput_inj {p q : JsString} {r s : HashableRow} (hp : IsHash p) (hq : IsHash q)
    (h : p.utf8 ++ (canonicalizeRow r).utf8 = q.utf8 ++ (canonicalizeRow s).utf8) :
    p = q ∧ r = s := by
  have hc : p.chars ++ (canonicalizeRow r).chars = q.chars ++ (canonicalizeRow s).chars := by
    apply utf8Chars_inj
    rw [utf8Chars_append, utf8Chars_append]
    exact h
  obtain ⟨a, ha⟩ := chars_canonicalizeRow r
  obtain ⟨b, hb⟩ := chars_canonicalizeRow s
  obtain ⟨x, rfl⟩ := hp
  obtain ⟨y, rfl⟩ := hq
  rw [ha, hb] at hc
  obtain ⟨hpq, hab⟩ := append_sep_inj (brace_notMem_toHex x) (brace_notMem_toHex y) hc
  refine ⟨chars_inj (isWellFormed_toHex x) (isWellFormed_toHex y) hpq, canonicalizeRow_inj ?_⟩
  exact chars_inj (isWellFormed_canonicalizeRow r) (isWellFormed_canonicalizeRow s)
    (by rw [ha, hb, hab])

theorem computeRowHash_inj {sha256 : List UInt8 → List UInt8} (hinj : Function.Injective sha256)
    {p q : JsString} {r s : HashableRow} (hp : IsHash p) (hq : IsHash q)
    (h : computeRowHash sha256 p r = computeRowHash sha256 q s) : p = q ∧ r = s :=
  hashInput_inj hp hq (hinj (toHex_inj h))

/-! ## what `verifyChain` accepts -/

/-- a row as an entry of the chain -/
def AuditLogRow.entry (row : AuditLogRow) : Chain.Entry JsString HashableRow :=
  ⟨row.prevHash, row.toHashableRow, row.currentHash⟩

section
variable (sha256 : List UInt8 → List UInt8)

theorem verifyFrom_valid_iff (p : JsString) (rows : List AuditLogRow) :
    verifyFrom sha256 p rows = ⟨true, none⟩ ↔
      Chain.Linked (computeRowHash sha256) p (rows.map AuditLogRow.entry) := by
  induction rows generalizing p with
  | nil => exact ⟨fun _ => trivial, fun _ => rfl⟩
  | cons row rows ih =>
    rw [verifyFrom, List.map_cons]
    show _ ↔ row.prevHash = p ∧ row.currentHash = computeRowHash sha256 row.prevHash _ ∧
      Chain.Linked _ row.currentHash _
    split
    next h => simp [h]
    next h =>
      split
      next h2 =>
        refine ⟨fun hf => absurd hf (by simp), fun hl => absurd hl.2.1.symm h2⟩
      next h2 =>
        rw [ih]
        exact ⟨fun hl => ⟨not_not.mp h, (not_not.mp h2).symm, hl⟩, fun hl => hl.2.2⟩

theorem verifyChain_valid_iff (rows : List AuditLogRow) :
    verifyChain sha256 rows = ⟨true, none⟩ ↔
      Chain.Linked (computeRowHash sha256) genesisHash (rows.map AuditLogRow.entry) :=
  verifyFrom_valid_iff sha256 genesisHash rows

theorem verifyFrom_cases (p : JsString) (rows : List AuditLogRow) :
    verifyFrom sha256 p rows = ⟨true, none⟩ ∨ (verifyFrom sha256 p rows).valid = false := by
  induction rows generalizing p with
  | nil => exact .inl rfl
  | cons row rows ih =>
    rw [verifyFrom]
    split
    · exact .inr rfl
    · split
      · exact .inr rfl
      · exact ih _

/-- the last hash of a list of rows, the genesis hash for the empty one -/
def lastHash (p : JsString) (rows : List AuditLogRow) : JsString :=
  (rows.getLast?.map AuditLogRow.currentHash).getD p

theorem lastHash_eq_tip (p : JsString) (rows : List AuditLogRow) :
    lastHash p rows = Chain.tip p (rows.map AuditLogRow.entry) := by
  simp only [lastHash, Chain.tip, List.getLast?_map, Option.map_map]
  rfl

/-- the row carries the hash of the rows before it and its own hash -/
def RowMatches (p : JsString) (pre : List AuditLogRow) (row : AuditLogRow) : Prop :=
  row.prevHash = lastHash p pre ∧
    computeRowHash sha256 row.prevHash row.toHashableRow = row.currentHash

theorem verifyFrom_broken_iff (p : JsString) (rows : List AuditLogRow) (n : Nat) :
    verifyFrom sha256 p rows = ⟨false, some n⟩ ↔
      ∃ pre row post, rows = pre ++ row :: post ∧
        verifyFrom sha256 p pre = ⟨true, none⟩ ∧ ¬ RowMatches sha256 p pre row ∧ row.id = n := by
  induction rows generalizing p with
  | nil =>
    constructor
    · intro h
      simp [verifyFrom] at h
    · rintro ⟨pre, row, post, h, _⟩
      exact absurd h.symm (by simp)
  | cons r rows ih =>
    by_cases hr : RowMatches sha256 p [] r
    · have hp : r.prevHash = p := hr.1
      have e : ∀ l, verifyFrom sha256 p (r :: l) = verifyFrom sha256 r.currentHash l := by
        intro l
        rw [verifyFrom, if_neg (not_not.mpr hp), if_neg (not_not.mpr hr.2)]
      have hm : ∀ pre row, RowMatches sha256 p (r :: pre) row
          ↔ RowMatches sha256 r.currentHash pre row := by
        intro pre row
        unfold RowMatches
        rw [lastHash_eq_tip, lastHash_eq_tip, List.map_cons, Chain.tip_cons]
        rfl
      rw [e, ih]
      constructor
      · rintro ⟨pre, row, post, h, hv, hn, hid⟩
        exact ⟨r :: pre, row, post, by rw [h, List.cons_append], by rw [e, hv],
          by rwa [hm], hid⟩
      · rintro ⟨pre, row, post, h, hv, hn, hid⟩
        cases pre with
        | nil =>
          obtain ⟨rfl, _⟩ := List.cons.inj h
          exact absurd hr hn
        | cons r' pre =>
          obtain ⟨rfl, ht⟩ := List.cons.inj h
          exact ⟨pre, row, post, ht, by rw [← e, hv], by rwa [← hm], hid⟩
    · have e : ∀ l, verifyFrom sha256 p (r :: l) = ⟨false, some r.id⟩ := by
        intro l
        rw [verifyFrom]
        split
        · rfl
        next h =>
          rw [if_pos (fun h2 => hr ⟨not_not.mp h, h2⟩)]
      rw [e]
      constructor
      · intro h
        refine ⟨[], r, rows, rfl, rfl, hr, ?_⟩
        simpa using h
      · rintro ⟨pre, row, post, h, hv, hn, hid⟩
        cases pre with
        | nil =>
          obtain ⟨rfl, _⟩ := List.cons.inj h
          rw [hid]
        | cons r' pre =>
          obtain ⟨rfl, _⟩ := List.cons.inj h
          rw [e] at hv
          simp at hv

/-- the id that `verifyChain` reports is that of the first row that does not match -/
theorem verifyChain_broken_iff (rows : List AuditLogRow) (n : Nat) :
    verifyChain sha256 rows = ⟨false, some n⟩ ↔
      ∃ pre row post, rows = pre ++ row :: post ∧
        (∀ pre' r post', pre = pre' ++ r :: post' → RowMatches sha256 genesisHash pre' r) ∧
        ¬ RowMatches sha256 genesisHash pre row ∧ row.id = n := by
  have hall : ∀ pre, verifyFrom sha256 genesisHash pre = ⟨true, none⟩ ↔
      ∀ pre' r post', pre = pre' ++ r :: post' → RowMatches sha256 genesisHash pre' r := by
    intro pre
    rw [verifyFrom_valid_iff]
    induction pre using List.reverseRecOn with
    | nil => exact ⟨fun _ pre' r post' h => absurd h.symm (by simp), fun _ => trivial⟩
    | append_singleton pre row ih =>
      rw [List.map_append, List.map_singleton, Chain.linked_snoc, ih, ← lastHash_eq_tip]
      constructor
      · rintro ⟨h1, h2, h3⟩ pre' r post' h
        rcases List.eq_nil_or_concat post' with rfl | ⟨post'', x, rfl⟩
        · obtain ⟨rfl, hr⟩ := List.append_inj' h rfl
          obtain rfl := (List.cons.inj hr).1
          exact ⟨h2, h3.symm⟩
        · rw [List.concat_eq_append, ← List.cons_append, ← List.append_assoc] at h
          exact h1 pre' r post'' (List.append_inj' h rfl).1
      · intro h
        obtain ⟨h2, h3⟩ := h pre row [] rfl
        refine ⟨fun pre' r post' he => h pre' r (post' ++ [row]) ?_, h2, h3.symm⟩
        rw [he, List.append_assoc, List.cons_append]
  rw [verifyChain, verifyFrom_broken_iff]
  simp only [hall]

end

/-! ## digests known on fixed inputs -/

/-- a digest with the known values, injective beyond them -/
def digestOn (known : List (List UInt8 × List UInt8)) (bytes : List UInt8) : List UInt8 :=
  match known.find? (fun p => p.1 == bytes) with
  | some p => p.2
  | none => 1 :: (List.replicate 32 0 ++ bytes)

theorem digestOn_cases (known : List (List UInt8 × List UInt8)) (bytes : List UInt8) :
    (∃ p ∈ known, p.1 = bytes ∧ digestOn known bytes = p.2) ∨
      digestOn known bytes = 1 :: (List.replicate 32 0 ++ bytes) := by
  unfold digestOn
  split
  next p hp => exact .inl ⟨p, List.mem_of_find?_eq_some hp, by simpa using List.find?_some hp, rfl⟩
  · exact .inr rfl

theorem digestOn_head (b d : List UInt8) (known : List (List UInt8 × List UInt8)) :
    digestOn ((b, d) :: known) b = d := by simp [digestOn]

theorem digestOn_injective {known : List (List UInt8 × List UInt8)}
    (hlen : ∀ p ∈ known, p.2.length = 32) (hnd : (known.map Prod.snd).Nodup) :
    Function.Injective (digestOn known) := by
  intro x y h
  rcases digestOn_cases known x with ⟨p, hp, hpx, ex⟩ | ex
  · rcases digestOn_cases known y with ⟨q, hq, hqy, ey⟩ | ey
    · have hpq : p = q := List.inj_on_of_nodup_map hnd hp hq (by rw [← ex, ← ey, h])
      rw [← hpx, ← hqy, hpq]
    · have hl := congrArg List.length h
      rw [ex, ey, hlen p hp] at hl
      simp at hl
  · rcases digestOn_cases known y with ⟨q, hq, hqy, ey⟩ | ey
    · have hl := congrArg List.length h
      rw [ex, ey, hlen q hq] at hl
      simp at hl
    · rw [ex, ey] at h
      exact List.append_cancel_left (List.cons.inj h).2

theorem digestOn_ne_genesis {known : List (List UInt8 × List UInt8)}
    (hne : ∀ p ∈ known, p.2 ≠ List.replicate 32 0) (bytes : List UInt8) :
    toHex (digestOn known bytes) ≠ genesisHash := by
  have hg : genesisHash = toHex (List.replicate 32 0) := by decide
  rw [hg]
  intro h
  have hb := toHex_inj h
  rcases digestOn_cases known bytes with ⟨p, hp, _, e⟩ | e
  · exact hne p hp (by rw [← e, hb])
  · rw [e] at hb
    exact absurd (List.cons.inj hb).1 (by decide)

/-! ## tamper evidence -/

/-- accepted lists with the same last hash have the same entries -/
theorem entries_eq_of_lastHash {sha256 : List UInt8 → List UInt8}
    (hinj : Function.Injective sha256) (hgen : ∀ bytes, toHex (sha256 bytes) ≠ genesisHash)
    {rows rows' : List AuditLogRow} (hv : verifyChain sha256 rows = ⟨true, none⟩)
    (hv' : verifyChain sha256 rows' = ⟨true, none⟩)
    (hlast : lastHash genesisHash rows = lastHash genesisHash rows') :
    rows.map AuditLogRow.entry = rows'.map AuditLogRow.entry := by
  rw [verifyChain_valid_iff] at hv hv'
  rw [lastHash_eq_tip, lastHash_eq_tip] at hlast
  exact Chain.eq_of_tip (computeRowHash sha256) genesisHash IsHash isHash_genesis
    (fun p r _ => isHash_computeRowHash sha256 p r)
    (fun p q r s hp hq h => computeRowHash_inj hinj hp hq h)
    (fun p r _ => hgen _) _ _ hv hv' hlast

/-- **Tamper evidence.**  Two non-empty accepted lists with the same last hash have the same
length and agree row by row in every hashed field; a list that keeps the last hash and changes
anything but ids is rejected; the reported id is that of the first row that does not match. -/
theorem chain_tamper_evidence (sha256 : List UInt8 → List UInt8)
    (hinj : Function.Injective sha256) (hgen : ∀ bytes, toHex (sha256 bytes) ≠ genesisHash) :
    (∀ rows rows' : List AuditLogRow, rows ≠ [] → rows' ≠ [] →
      verifyChain sha256 rows = ⟨true, none⟩ → verifyChain sha256 rows' = ⟨true, none⟩ →
      rows.getLast?.map AuditLogRow.currentHash = rows'.getLast?.map AuditLogRow.currentHash →
      rows.length = rows'.length ∧
        rows.map AuditLogRow.toHashableRow = rows'.map AuditLogRow.toHashableRow) ∧
    (∀ rows rows' : List AuditLogRow, verifyChain sha256 rows = ⟨true, none⟩ →
      rows.getLast?.map AuditLogRow.currentHash = rows'.getLast?.map AuditLogRow.currentHash →
      rows.map AuditLogRow.entry ≠ rows'.map AuditLogRow.entry →
      (verifyChain sha256 rows').valid = false) ∧
    (∀ (rows : List AuditLogRow) (n : Nat), verifyChain sha256 rows = ⟨false, some n⟩ ↔
      ∃ pre row post, rows = pre ++ row :: post ∧
        (∀ pre' r post', pre = pre' ++ r :: post' → RowMatches sha256 genesisHash pre' r) ∧
        ¬ RowMatches sha256 genesisHash pre row ∧ row.id = n) := by
  have hlastHash : ∀ {rows rows' : List AuditLogRow},
      rows.getLast?.map AuditLogRow.currentHash = rows'.getLast?.map AuditLogRow.currentHash →
      lastHash genesisHash rows = lastHash genesisHash rows' := by
    intro rows rows' h
    rw [lastHash, h, lastHash]
  refine ⟨?_, ?_, verifyChain_broken_iff sha256⟩
  · intro rows rows' _ _ hv hv' hlast
    have he := entries_eq_of_lastHash hinj hgen hv hv' (hlastHash hlast)
    have hb := congrArg (List.map Chain.Entry.body) he
    rw [List.map_map, List.map_map] at hb
    exact ⟨by simpa using congrArg List.length he, hb⟩
  · intro rows rows' hv hlast hne
    refine (verifyFrom_cases sha256 genesisHash rows').resolve_left fun hv' => ?_
    exact hne (entries_eq_of_lastHash hinj hgen hv hv' (hlastHash hlast))

def sampleTime : JsDate := ⟨1785672000000, by decide⟩

/-- a first row -/
def sampleRow : HashableRow where
  requestId := lit "11111111-1111-4111-8111-111111111111"
  timestamp := sampleTime
  actor := lit "agent"
  actionType := lit "tool_call"
  toolName := some (lit "readEmails")
  inputsHash := lit "abc123"
  planSummary := none
  approvalStatus := lit "auto"
  approver := none
  externalInputsSummary := none

/-- the SHA-256 digest of the genesis hash followed by the canonical text of `sampleRow` -/
def sampleDigest : List UInt8 :=
  [42, 102, 239, 140, 226, 201, 70, 141, 14, 139, 34, 161, 225, 204, 11, 165,
    127, 223, 156, 19, 244, 8, 185, 131, 199, 224, 28, 189, 248, 135, 43, 251]

def sampleSha256 : List UInt8 → List UInt8 :=
  digestOn [(genesisHash.utf8 ++ (canonicalizeRow sampleRow).utf8, sampleDigest)]

theorem verifyChain_sample :
    verifyChain sampleSha256 [⟨sampleRow, 1, genesisHash, toHex sampleDigest⟩] = ⟨true, none⟩ := by
  have h : computeRowHash sampleSha256 genesisHash sampleRow = toHex sampleDigest := by
    rw [computeRowHash, computeHash, sampleSha256, digestOn_head]
  simp [verifyChain, verifyFrom, h]

/-- the inputs hash of the only row is edited, its own hash is kept -/
theorem chain_tamper_evidence_edit :
    (verifyChain sampleSha256
      [⟨{ sampleRow with inputsHash := lit "abc124" }, 1, genesisHash, toHex sampleDigest⟩]).valid
      = false :=
  (chain_tamper_evidence sampleSha256
    (digestOn_injective (by decide) (by decide)) (digestOn_ne_genesis (by decide))).2.1
    [⟨sampleRow, 1, genesisHash, toHex sampleDigest⟩] _ verifyChain_sample (by simp) (by decide)

end Audit
