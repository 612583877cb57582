import JinCore.Audit.Service
import JinCore.Js.BigInt
import JinCore.Lib.Paging

/-!
# Reading the audit log page by page (`src/audit/audit.service.ts`)

* `listRecent`           one page: the newest rows older than the cursor, and the id of the last of
                         them where there are more;
* `Grown`                what appends do to the table between two reads; `grown_appendAll`;
* `listing`              the reads are a listing by id, and the cursor admits exactly the lower ids;
* `listRecent_complete`  the pages list the rows of the first read, newest first, each once.
-/

namespace Audit
open JsString Paging

structure ListRecentInput where
  limit : Nat
  cursor : Option JsString
  requestId : Option JsString

structure ListRecentResult where
  items : List AuditLogRow
  nextCursor : Option JsString

/-- `lt(auditLog.id, BigInt(cursor))`, `none` where `BigInt` throws -/
def whereId (cursor : Option JsString) : Option (Nat → Bool) :=
  match truthy cursor with
  | none => some fun _ => true
  | some text => (bigInt text).map fun v id => decide ((id : Int) < v)

/-- `eq(auditLog.requestId, requestId)`, `none` where the server refuses the text -/
def whereRequestId (requestId : Option JsString) : Option (AuditLogRow → Bool) :=
  match truthy requestId with
  | none => some fun _ => true
  | some text => (uuidColumn text).map fun id row => decide (row.requestId = id)

/-- `ORDER BY id DESC` -/
def orderByIdDesc (rows : List AuditLogRow) : List AuditLogRow :=
  Nearest.byDistance (fun r => OrderDual.toDual r.id) rows

def listRecent (t : AuditTable) (input : ListRecentInput) : Option ListRecentResult :=
  (whereId input.cursor).bind fun older => (whereRequestId input.requestId).map fun same =>
    let rows := (orderByIdDesc (t.rows.filter fun r => older r.id && same r)).take (input.limit + 1)
    let hasMore := decide (input.limit < rows.length)
    let items := if hasMore then rows.take input.limit else rows
    ⟨items, if hasMore then items.getLast?.map fun r => natText r.id else none⟩

/-- between two reads rows are only appended -/
def Grown (t t' : AuditTable) : Prop := t.rows <+: t'.rows

theorem grown_insertRow {sha256 : List UInt8 → List UInt8} {t t' : AuditTable} {prev : JsString}
    {row : HashableRow} (h : insertRow sha256 t prev row = some t') : Grown t t' := by
  simp only [insertRow, Option.bind_eq_bind, Option.bind_eq_some_iff] at h
  obtain ⟨stored, -, p, -, c, -, ht⟩ := h
  cases ht
  exact List.prefix_append _ _

theorem grown_appendAll {sha256 : List UInt8 → List UInt8} {t t' : AuditTable}
    {cs : List (AuditCall × JsDate)} (h : appendAll sha256 t cs = some t') : Grown t t' := by
  induction cs generalizing t with
  | nil =>
    cases h
    exact List.prefix_rfl
  | cons c cs ih =>
    obtain ⟨u, hu, h⟩ := Option.bind_eq_some_iff.mp h
    exact (grown_insertRow hu).trans (ih h)

/-! ## the cursor -/

theorem truthy_natText (n : Nat) : truthy (some (natText n)) = some (natText n) := by
  have hne : (natText n).units ≠ [] := by
    intro h
    have hlen := length_le_units (toString n).toList
    rw [show (ofChars (toString n).toList).units = [] from h] at hlen
    have hcs : (toString n).toList = Nat.toDigits 10 n := Nat.toList_repr
    rw [hcs, List.length_nil] at hlen
    exact Nat.toDigits_ne_nil (List.length_eq_zero_iff.mp (Nat.le_zero.mp hlen))
  rw [truthy, Option.filter_some, if_pos (decide_eq_true hne)]

/-- the cursor of a page admits exactly the ids below it -/
theorem whereId_natText (n : Nat) : whereId (some (natText n)) = some fun id => decide (id < n) := by
  rw [whereId, truthy_natText]
  show (bigInt (natText n)).map _ = _
  rw [bigInt_natText, Option.map_some, Option.some.injEq]
  funext id
  exact decide_eq_decide.mpr Int.ofNat_lt

def admitsId (cursor : JsString) (id : Nat) : Bool := ((whereId (some cursor)).map (· id)).getD false

theorem passes_admitsId {cursor : Option JsString} {older : Nat → Bool}
    (h : whereId cursor = some older) (id : Nat) : passes admitsId cursor id = older id := by
  cases cursor with
  | none =>
    cases h
    rfl
  | some text =>
    show ((whereId (some text)).map (· id)).getD false = _
    rw [h]
    rfl

theorem orderByIdDesc_perm (rows : List AuditLogRow) : (orderByIdDesc rows).Perm rows :=
  Nearest.byDistance_perm _ rows

theorem orderByIdDesc_sorted (rows : List AuditLogRow) :
    (orderByIdDesc rows).Pairwise fun a b => b.id ≤ a.id := by
  have h := Nearest.byDistance_sorted (fun r : AuditLogRow => OrderDual.toDual r.id) rows
  exact h.imp fun hab => OrderDual.toDual_le_toDual.mp hab

/-! ## the pages -/

section Pages
variable (tables : Nat → AuditTable) (limit : Nat) (requestId : Option JsString)

/-- read `k` is of the table as it stands then -/
def readPage (k : Nat) (cursor : Option JsString) :
    Option (List AuditLogRow × Option JsString) :=
  (listRecent (tables k) ⟨limit, cursor, requestId⟩).map fun r => (r.items, r.nextCursor)

variable {tables limit requestId} {same : AuditLogRow → Bool}

/-- the admitted rows of the filter, newest first -/
def admitted (t : AuditTable) (same : AuditLogRow → Bool) (older : Nat → Bool) : List AuditLogRow :=
  orderByIdDesc (t.rows.filter fun r => older r.id && same r)

theorem readPage_eq (hsame : whereRequestId requestId = some same) (k : Nat)
    (cursor : Option JsString) :
    readPage tables limit requestId k cursor = (whereId cursor).map fun older =>
      ((admitted (tables k) same older).take limit,
        if limit < (admitted (tables k) same older).length then
          ((admitted (tables k) same older).take limit).getLast?.map fun r => natText r.id
        else none) := by
  rw [readPage, listRecent, hsame, Option.map_bind]
  cases whereId cursor with
  | none => rfl
  | some older =>
    show some _ = some _
    simp only [decide_eq_true_eq, take_lookAhead]
    simp only [lt_length_lookAhead]
    rfl

theorem isPage_read (hlimit : 1 ≤ limit) (hsame : whereRequestId requestId = some same) {k : Nat}
    {cursor : Option JsString} {items : List AuditLogRow} {next : Option JsString}
    (h : readPage tables limit requestId k cursor = some (items, next)) :
    ∃ rest, IsPage AuditLogRow.id id id admitsId limit ((tables k).rows.filter same) cursor items
      next rest := by
  rw [readPage_eq hsame] at h
  obtain ⟨older, holder, he⟩ := Option.map_eq_some_iff.mp h
  rw [Prod.mk.injEq] at he
  obtain ⟨rfl, rfl⟩ := he
  refine ⟨_, IsPage.of_take ?_ (orderByIdDesc_sorted _) ?_ ?_⟩
  · refine (orderByIdDesc_perm _).trans (List.Perm.of_eq ?_)
    rw [List.filter_filter]
    refine List.filter_congr fun r _ => ?_
    rw [passes_admitsId holder]
    rfl
  · intro hnone
    by_contra hlt
    rw [if_pos (by omega), Option.map_eq_none_iff, List.getLast?_eq_none_iff,
      List.take_eq_nil_iff] at hnone
    rcases hnone with h0 | hnil
    · omega
    · rw [hnil, List.length_nil] at hlt
      omega
  · intro v hv
    split at hv
    · obtain ⟨r, hr, rfl⟩ := Option.map_eq_some_iff.mp hv
      refine ⟨r, hr, fun x => ?_⟩
      rw [admitsId, whereId_natText, Option.map_some, Option.getD_some, decide_eq_true_eq]
      rfl
    · cases hv

theorem ids_nodup (t : AuditTable) : (t.rows.map AuditLogRow.id).Nodup :=
  List.pairwise_map.mpr (t.sorted.imp fun hlt => hlt.ne)

theorem eq_of_id {t : AuditTable} {a b : AuditLogRow} (ha : a ∈ t.rows) (hb : b ∈ t.rows)
    (h : a.id = b.id) : a = b :=
  List.inj_on_of_nodup_map (ids_nodup t) ha hb h

variable (tables) in
/-- the reads are a listing by id, each next cursor starting exactly below the last row -/
theorem listing (hlimit : 1 ≤ limit) (hsame : whereRequestId requestId = some same) :
    Listing AuditLogRow.id id id admitsId limit (fun k => (tables k).rows.filter same)
      (readPage tables limit requestId) where
  page := fun _ _ _ _ h => isPage_read hlimit hsame h
  nodup := fun k => (ids_nodup (tables k)).sublist (List.filter_sublist.map AuditLogRow.id)
  bound_le := fun x => le_refl x

/-- an upper bound of the ids that a read admits -/
def rank (tables : Nat → AuditTable) (k : Nat) (cursor : Option JsString) : Nat :=
  match truthy cursor with
  | none => (tables k).seq + 1
  | some text => ((bigInt text).getD 0).toNat

theorem lt_rank {k : Nat} {cursor : Option JsString} {older : Nat → Bool}
    (h : whereId cursor = some older) {r : AuditLogRow} (hr : r ∈ (tables k).rows)
    (hold : older r.id = true) : r.id < rank tables k cursor := by
  rw [whereId] at h
  rw [rank]
  split at h
  next =>
    exact Nat.lt_succ_of_le ((tables k).bounded r hr)
  next text =>
    obtain ⟨v, hv, rfl⟩ := Option.map_eq_some_iff.mp h
    rw [hv, Option.getD_some]
    have := of_decide_eq_true hold
    omega

theorem rank_natText (k n : Nat) : rank tables k (some (natText n)) = n := by
  rw [rank, truthy_natText]
  show ((bigInt (natText n)).getD 0).toNat = n
  rw [bigInt_natText, Option.getD_some, Int.toNat_natCast]

/-- a next cursor is the id of a row that the read admitted -/
theorem next_cursor (hsame : whereRequestId requestId = some same) {k : Nat}
    {cursor : Option JsString} {items : List AuditLogRow} {v : JsString}
    (h : readPage tables limit requestId k cursor = some (items, some v)) :
    ∃ r ∈ (tables k).rows, v = natText r.id ∧ r.id < rank tables k cursor := by
  rw [readPage_eq hsame] at h
  obtain ⟨older, holder, he⟩ := Option.map_eq_some_iff.mp h
  rw [Prod.mk.injEq] at he
  obtain ⟨-, hv⟩ := he
  split at hv
  · obtain ⟨r, hr, rfl⟩ := Option.map_eq_some_iff.mp hv
    have hm := (orderByIdDesc_perm _).mem_iff.mp (List.mem_of_mem_take (List.mem_of_getLast? hr))
    rw [List.mem_filter, Bool.and_eq_true] at hm
    exact ⟨r, hm.1, rfl, lt_rank holder hm.1 hm.2.1⟩
  · cases hv

theorem reached_cursor (hsame : whereRequestId requestId = some same) {s : Nat × Option JsString}
    (hs : Reached (readPage tables limit requestId) (0, none) s) :
    s.2 = none ∨ ∃ n, s.2 = some (natText n) := by
  induction hs with
  | refl => exact .inl rfl
  | tail _ hn _ =>
    obtain ⟨items, v, h, rfl⟩ := hn
    obtain ⟨r, -, rfl, -⟩ := next_cursor hsame h
    exact .inr ⟨r.id, rfl⟩

variable (tables limit) in
/-- the cursors fall, so the listing ends -/
theorem exists_follows (hsame : whereRequestId requestId = some same) :
    ∃ pages, Follows (readPage tables limit requestId) 0 none pages := by
  rw [exists_follows_iff (rank tables)]
  · intro s hs
    rw [readPage_eq hsame]
    rcases reached_cursor hsame hs with h | ⟨n, h⟩
    · rw [h]
      rfl
    · rw [h, whereId_natText]
      rfl
  · intro k c items v h
    obtain ⟨r, -, rfl, hr⟩ := next_cursor hsame h
    rwa [rank_natText]

theorem prefix_first (grows : ∀ k, Grown (tables k) (tables (k + 1))) (k : Nat) :
    (tables 0).rows <+: (tables k).rows := by
  induction k with
  | zero => exact List.prefix_rfl
  | succ k ih => exact ih.trans (grows k)

/-- what was appended after the first read is newer than all it saw -/
theorem mem_first (grows : ∀ k, Grown (tables k) (tables (k + 1))) {k : Nat} {a r : AuditLogRow}
    (hr : r ∈ (tables k).rows) (ha : a ∈ (tables 0).rows) (hlt : r.id < a.id) :
    r ∈ (tables 0).rows := by
  obtain ⟨more, hmore⟩ := prefix_first grows k
  rw [← hmore, List.mem_append] at hr
  rcases hr with hr | hr
  · exact hr
  · have hs := (tables k).sorted
    rw [← hmore, List.pairwise_append] at hs
    have := hs.2.2 a ha r hr
    omega

/-- no row that stays is dropped: at the bound of a page there is only its last row -/
theorem not_dropped (hlimit : 1 ≤ limit) (hsame : whereRequestId requestId = some same) {i : Nat}
    (hi : ∀ k, i ∈ ((tables k).rows.filter same).map AuditLogRow.id) (s : Nat × Option JsString) :
    ¬ Dropped AuditLogRow.id id admitsId (readPage tables limit requestId) i s := by
  intro hdrop
  obtain ⟨items, next, a, -, ha, hn, h1, h2⟩ :=
    (listing tables hlimit hsame).close_of_dropped (hi s.1) hdrop
  have hid : a.id = i := Nat.le_antisymm h1 h2
  exact hn (hid ▸ List.mem_map_of_mem ha)

/-- what is on the pages was there at the first read -/
theorem mem_first_of_page (hlimit : 1 ≤ limit) (hsame : whereRequestId requestId = some same)
    (grows : ∀ k, Grown (tables k) (tables (k + 1))) {pages : List (List AuditLogRow)}
    (hf : Follows (readPage tables limit requestId) 0 none pages) {r : AuditLogRow}
    (hr : r ∈ pages.flatten) : r ∈ (tables 0).rows ∧ same r = true := by
  have L := listing tables hlimit hsame
  obtain ⟨n, hn⟩ := L.mem_of_mem_flatten hf hr
  obtain ⟨hn, hrs⟩ := List.mem_filter.mp hn
  refine ⟨?_, hrs⟩
  cases hf with
  | last h =>
    rw [List.flatten_singleton] at hr
    exact List.mem_of_mem_filter (L.mem_rows h hr).1
  | @next _ _ items v pages h hp =>
    rw [List.flatten_cons, List.mem_append] at hr
    rcases hr with hr | hr
    · exact List.mem_of_mem_filter (L.mem_rows h hr).1
    · obtain ⟨rest, hpage⟩ := L.page _ _ _ _ h
      obtain ⟨a, ha, -⟩ := hpage.bound v rfl
      exact mem_first grows hn (List.mem_of_mem_filter (L.mem_rows h ha).1)
        (L.lt_of_later h hp ha hr)

/-- every matching row of the first read is on a page -/
theorem mem_page_of_first (hlimit : 1 ≤ limit) (hsame : whereRequestId requestId = some same)
    (grows : ∀ k, Grown (tables k) (tables (k + 1))) {pages : List (List AuditLogRow)}
    (hf : Follows (readPage tables limit requestId) 0 none pages) {r : AuditLogRow}
    (hr : r ∈ (tables 0).rows) (hrs : same r = true) : r ∈ pages.flatten := by
  have L := listing tables hlimit hsame
  have hall : ∀ k, r ∈ (tables k).rows.filter same := fun k =>
    List.mem_filter.mpr ⟨(prefix_first grows k).subset hr, hrs⟩
  have hstay : ∀ k, r.id ∈ ((tables k).rows.filter same).map AuditLogRow.id := fun k =>
    List.mem_map_of_mem (hall k)
  have hmem := (L.mem_pages_iff hf (down_none admitsId) rfl hstay).mpr fun s _ =>
    not_dropped hlimit hsame hstay s
  obtain ⟨a, ha, hid⟩ := List.mem_map.mp hmem
  have hfirst := (mem_first_of_page hlimit hsame grows hf ha).1
  rwa [← eq_of_id hfirst hr hid]

end Pages

/-- **The pages list what the first read could see.**  Whatever is appended between the reads, with
or without a filter, the cursors lead to a last page; the rows of all the pages have decreasing ids,
each of the matching rows of the first read is among them once, nothing else is, and no page is over
the limit. -/
theorem listRecent_complete (tables : Nat → AuditTable) (limit : Nat) (requestId : Option JsString)
    (hlimit : 1 ≤ limit) {same : AuditLogRow → Bool}
    (hsame : whereRequestId requestId = some same)
    (grows : ∀ k, Grown (tables k) (tables (k + 1))) :
    ∃ pages, Follows (readPage tables limit requestId) 0 none pages ∧
      (pages.flatten.Pairwise fun a b => b.id < a.id) ∧
      (∀ r, pages.flatten.count r = if r ∈ (tables 0).rows ∧ same r = true then 1 else 0) ∧
      ∀ page ∈ pages, page.length ≤ limit := by
  have L := listing tables hlimit hsame
  obtain ⟨pages, hf⟩ := exists_follows tables limit hsame
  have hids := List.pairwise_map.mp (L.tags_nodup hf)
  refine ⟨pages, hf, ?_, ?_, L.page_length_le hf⟩
  · exact hids.imp₂ (fun a b hne hle => lt_of_le_of_ne hle (Ne.symm hne)) (L.flatten_sorted hf)
  · intro r
    have hnodup : pages.flatten.Nodup := hids.imp fun hne he => hne (congrArg AuditLogRow.id he)
    rw [hnodup.count]
    have hiff : r ∈ pages.flatten ↔ r ∈ (tables 0).rows ∧ same r = true :=
      ⟨mem_first_of_page hlimit hsame grows hf,
        fun h => mem_page_of_first hlimit hsame grows hf h.1 h.2⟩
    simp only [hiff]

/-! ## two approvals of three, and another one appended after the first page -/

def approvalRow : HashableRow := lowerCaseApproval.row sampleTime

def threeRows : AuditTable :=
  ((AuditTable.empty.insert approvalRow genesisHash genesisHash).insert approvalRow genesisHash
    genesisHash).insert approvalRow genesisHash genesisHash

def growing : Nat → AuditTable
  | 0 => threeRows
  | _ + 1 => threeRows.insert approvalRow genesisHash genesisHash

theorem listRecent_complete_growing :
    ∃ pages, Follows (readPage growing 2 (some approvalRow.requestId)) 0 none pages ∧
      (pages.flatten.Pairwise fun a b => b.id < a.id) ∧
      (∀ r, pages.flatten.count r = if r ∈ threeRows.rows ∧
        decide (r.requestId = approvalRow.requestId) = true then 1 else 0) ∧
      ∀ page ∈ pages, page.length ≤ 2 := by
  have hsame : whereRequestId (some approvalRow.requestId)
      = some fun row => decide (row.requestId = approvalRow.requestId) := by
    have hcol : uuidColumn approvalRow.requestId = some approvalRow.requestId := by decide
    have htruthy : truthy (some approvalRow.requestId) = some approvalRow.requestId := by
      decide
    rw [whereRequestId, htruthy]
    show (uuidColumn approvalRow.requestId).map _ = _
    rw [hcol]
    rfl
  refine listRecent_complete growing 2 (some approvalRow.requestId) (by decide) hsame fun k => ?_
  cases k with
  | zero => exact List.prefix_append _ _
  | succ k => exact List.prefix_rfl

end Audit
