import JinCore.Js.DateParse
import JinCore.Lib.Paging
import JinCore.Orchestrator.Objective

/-!
# The runs of the board page by page (`src/agent/ledger.repository.ts`)

The column `created_at` keeps microseconds; a `Date`, and with it the cursor, keeps milliseconds.

* `TimestampColumn`   what the driver makes of a value of the column, and of a `Date`;
* `listRuns`          one page, newest first, and the date of the last run where there are more;
* `Hides`             the limit of a page falls inside a millisecond, or its last date is lost;
* `listRuns_visits_iff`   every run that stays is visited once exactly when no read hides one.
-/

namespace Orchestrator
open JsString Paging

/-- an instant of Postgres: microseconds since 1970, from 4713 BC to the end of 294276 -/
structure Timestamp where
  micros : Int
  valid : -210866803200000000 ≤ micros ∧ micros < 9224318016000000000
  deriving DecidableEq, Repr

/-- a stored run; `createdAt` is the value of the column -/
structure StoredRun extends RunRow where
  createdAt : Timestamp
  completedAt : Option Timestamp
  deriving DecidableEq, Repr

/-- the dates of a `timestamptz` column: `read` gives `none` for an invalid `Date` and otherwise the
value without its microseconds; `write` gives `none` where the server refuses the text -/
structure TimestampColumn where
  read : Timestamp → Option JsDate
  write : JsDate → Option Timestamp
  read_floor : ∀ t d, read t = some d → d.time = t.micros / 1000
  write_exact : ∀ d t, write d = some t → t.micros = 1000 * d.time

/-- the dates of both sides are those they have in common -/
def TimestampColumn.common : TimestampColumn where
  read t :=
    if h : -8640000000000000 ≤ t.micros / 1000 ∧ t.micros / 1000 ≤ 8640000000000000 then
      some ⟨t.micros / 1000, h⟩
    else none
  write d :=
    if h : -210866803200000000 ≤ 1000 * d.time ∧ 1000 * d.time < 9224318016000000000 then
      some ⟨1000 * d.time, h⟩
    else none
  read_floor := by
    intro t d h
    split at h
    · cases h
      rfl
    · cases h
  write_exact := by
    intro d t h
    split at h
    · cases h
      rfl
    · cases h

structure ListRunsInput where
  limit : Nat
  cursor : Option JsString

/-- an invalid date of the summary is `none` -/
structure RunSummary where
  id : JsString
  objective : JsString
  status : AgentRunStatus
  parentSessionId : JsString
  finalResponse : Option JsString
  createdAt : Option JsDate
  completedAt : Option (Option JsDate)
  deriving DecidableEq, Repr

structure ListRunsResult where
  items : List RunSummary
  nextCursor : Option JsString
  deriving DecidableEq, Repr

section
variable (column : TimestampColumn)

def toRunSummary (row : StoredRun) : RunSummary where
  id := row.id
  objective := row.objective
  status := row.status
  parentSessionId := row.parentSessionId
  finalResponse := row.finalResponse
  createdAt := column.read row.createdAt
  completedAt := row.completedAt.map column.read

/-- `lt(createdAt, new Date(cursor))`, `none` where the date is invalid or refused -/
def whereCreatedAt (cursor : Option JsString) : Option (Int → Bool) :=
  match truthy cursor with
  | none => some fun _ => true
  | some text => ((JsDate.parseISO text).bind column.write).map fun t micros =>
    decide (micros < t.micros)

/-- `ORDER BY created_at DESC`; runs of the same instant stay in the order the server met them -/
def orderByCreatedAtDesc (rows : List StoredRun) : List StoredRun :=
  Nearest.byDistance (fun r => OrderDual.toDual r.createdAt.micros) rows

/-- the rows that the query admits, in order, without its limit -/
def selectRuns (rows : List StoredRun) (cursor : Option JsString) : Option (List StoredRun) :=
  (whereCreatedAt column cursor).map fun older =>
    orderByCreatedAtDesc (rows.filter fun r => older r.createdAt.micros)

/-- the rows of a page and its next cursor; `toISOString` throws on an invalid date -/
def pageOfRuns (limit : Nat) (found : List StoredRun) :
    Option (List StoredRun × Option JsString) :=
  let rows := found.take (limit + 1)
  let hasMore := decide (limit < rows.length)
  let items := if hasMore then rows.take limit else rows
  if hasMore then
    match items.getLast? with
    | none => some (items, none)
    | some row => (column.read row.createdAt).map fun date => (items, some date.toISOString)
  else some (items, none)

/-- `rows` in the order in which the server meets them -/
def listRuns (rows : List StoredRun) (input : ListRunsInput) : Option ListRunsResult :=
  (selectRuns column rows input.cursor).bind fun found =>
    (pageOfRuns column input.limit found).map fun page =>
      ⟨page.1.map (toRunSummary column), page.2⟩

end

/-! ## the reads -/

section Reads
variable (column : TimestampColumn) (tables : Nat → List StoredRun) (limit : Nat)

/-- read `k` is of the runs as they are then -/
def readRuns (k : Nat) (cursor : Option JsString) : Option (List RunSummary × Option JsString) :=
  (listRuns column (tables k) ⟨limit, cursor⟩).map fun r => (r.items, r.nextCursor)

def readRows (k : Nat) (cursor : Option JsString) : Option (List StoredRun × Option JsString) :=
  (selectRuns column (tables k) cursor).bind (pageOfRuns column limit)

/-- a run exists at every read, created at the same instant -/
def Stays (id : JsString) (createdAt : Int) : Prop :=
  ∀ k, ∃ r ∈ tables k, r.id = id ∧ r.createdAt.micros = createdAt

/-- the read has no answer (its cursor is refused, or the date of its last run is invalid), or a run
that stays is left over in the same millisecond as the last run of the page -/
def Hides (s : Nat × Option JsString) : Prop :=
  selectRuns column (tables s.1) s.2 = none ∨
  ∃ found last, selectRuns column (tables s.1) s.2 = some found ∧ limit < found.length ∧
    (found.take limit).getLast? = some last ∧
    (column.read last.createdAt = none ∨
      ∃ r ∈ found.drop limit, Stays tables r.id r.createdAt.micros ∧
        r.createdAt.micros / 1000 = last.createdAt.micros / 1000)

/-- the pages hold rows of the reads, newest first, and every run that stays once -/
structure Visits (pages : List (List StoredRun)) : Prop where
  rows : ∀ r ∈ pages.flatten, ∃ k, r ∈ tables k
  sorted : pages.flatten.Pairwise fun a b => b.createdAt.micros ≤ a.createdAt.micros
  once : ∀ id createdAt, Stays tables id createdAt →
    (pages.flatten.map fun r => r.id).count id = 1

variable {column tables limit}

theorem readRuns_eq : readRuns column tables limit
    = view (toRunSummary column) (readRows column tables limit) := by
  funext k cursor
  rw [readRuns, listRuns, view, readRows, Option.map_bind, Option.map_bind]
  congr 1
  funext found
  exact Option.map_map _ _ _

theorem pageOfRuns_eq (found : List StoredRun) :
    pageOfRuns column limit found = if limit < found.length then
      match (found.take limit).getLast? with
      | none => some (found.take limit, none)
      | some row => (column.read row.createdAt).map fun date =>
        (found.take limit, some date.toISOString)
    else some (found.take limit, none) := by
  rw [pageOfRuns]
  simp only [decide_eq_true_eq, take_lookAhead]
  simp only [lt_length_lookAhead]

theorem pageOfRuns_of_le {found : List StoredRun} (h : found.length ≤ limit) :
    pageOfRuns column limit found = some (found.take limit, none) := by
  rw [pageOfRuns_eq, if_neg (by omega)]

theorem pageOfRuns_of_lt {found : List StoredRun} {last : StoredRun} (h : limit < found.length)
    (hl : (found.take limit).getLast? = some last) :
    pageOfRuns column limit found
      = (column.read last.createdAt).map fun date => (found.take limit, some date.toISOString) := by
  rw [pageOfRuns_eq, if_pos h, hl]

theorem exists_last (hlimit : 1 ≤ limit) {found : List StoredRun} (h : limit < found.length) :
    ∃ last, (found.take limit).getLast? = some last := by
  cases hl : (found.take limit).getLast? with
  | some last => exact ⟨last, rfl⟩
  | none =>
    rw [List.getLast?_eq_none_iff, List.take_eq_nil_iff] at hl
    rcases hl with hl | rfl
    · omega
    · exact absurd h (Nat.not_lt_zero limit)

/-- what a read returns: all the rows found, or a part with the date of its last run -/
theorem readRows_cases (hlimit : 1 ≤ limit) {k : Nat} {cursor next : Option JsString}
    {items : List StoredRun} (h : readRows column tables limit k cursor = some (items, next)) :
    ∃ found, selectRuns column (tables k) cursor = some found ∧ items = found.take limit ∧
      ((found.length ≤ limit ∧ next = none) ∨
        limit < found.length ∧ ∃ last date, (found.take limit).getLast? = some last ∧
          column.read last.createdAt = some date ∧ next = some date.toISOString) := by
  obtain ⟨found, hf, hp⟩ := Option.bind_eq_some_iff.mp h
  refine ⟨found, hf, ?_⟩
  by_cases hlt : limit < found.length
  · obtain ⟨last, hl⟩ := exists_last hlimit hlt
    rw [pageOfRuns_of_lt hlt hl] at hp
    obtain ⟨date, hd, he⟩ := Option.map_eq_some_iff.mp hp
    rw [Prod.mk.injEq] at he
    exact ⟨he.1.symm, .inr ⟨hlt, last, date, hl, hd, he.2.symm⟩⟩
  · rw [pageOfRuns_of_le (by omega), Option.some.injEq, Prod.mk.injEq] at hp
    exact ⟨hp.1.symm, .inl ⟨by omega, hp.2.symm⟩⟩

/-! ## the cursor -/

theorem truthy_toISOString (d : JsDate) : truthy (some d.toISOString) = some d.toISOString := by
  have hne : d.toISOString.units ≠ [] := by
    intro h
    have hp := JsDate.parseISO_toISOString d
    rw [JsDate.parseISO, JsString.chars, h] at hp
    cases hp
  rw [truthy, Option.filter_some, if_pos (decide_eq_true hne)]

/-- a cursor admits what is before its millisecond -/
def admitsInstant (cursor : JsString) (micros : Int) : Bool :=
  match truthy (some cursor) with
  | none => true
  | some text => (JsDate.parseISO text).any fun date => decide (micros < 1000 * date.time)

theorem admitsInstant_toISOString (d : JsDate) (micros : Int) :
    admitsInstant d.toISOString micros = true ↔ micros < 1000 * d.time := by
  rw [admitsInstant, truthy_toISOString]
  show (JsDate.parseISO d.toISOString).any _ = true ↔ _
  rw [JsDate.parseISO_toISOString, Option.any_some, decide_eq_true_eq]

/-- where the cursor is not refused, the query admits just that -/
theorem passes_admitsInstant {cursor : Option JsString} {older : Int → Bool}
    (h : whereCreatedAt column cursor = some older) (micros : Int) :
    passes admitsInstant cursor micros = older micros := by
  cases cursor with
  | none =>
    cases h
    rfl
  | some text =>
    show admitsInstant text micros = _
    rw [whereCreatedAt] at h
    rw [admitsInstant]
    split at h
    next =>
      cases h
      rfl
    next t _ =>
      obtain ⟨w, hw, rfl⟩ := Option.map_eq_some_iff.mp h
      obtain ⟨date, hd, hw⟩ := Option.bind_eq_some_iff.mp hw
      rw [hd, Option.any_some, column.write_exact date w hw]

theorem orderByCreatedAtDesc_perm (rows : List StoredRun) :
    (orderByCreatedAtDesc rows).Perm rows :=
  Nearest.byDistance_perm _ rows

theorem orderByCreatedAtDesc_sorted (rows : List StoredRun) :
    (orderByCreatedAtDesc rows).Pairwise fun a b => b.createdAt.micros ≤ a.createdAt.micros := by
  have h := Nearest.byDistance_sorted (fun r : StoredRun => OrderDual.toDual r.createdAt.micros) rows
  exact h.imp fun hab => OrderDual.toDual_le_toDual.mp hab

/-- which run a row is, and when it was created -/
def tagOf (r : StoredRun) : JsString × Int := (r.id, r.createdAt.micros)

def floorMs (micros : Int) : Int := 1000 * (micros / 1000)

theorem found_spec {k : Nat} {cursor : Option JsString} {found : List StoredRun}
    (h : selectRuns column (tables k) cursor = some found) :
    found.Perm ((tables k).filter fun r => passes admitsInstant cursor (tagOf r).2) ∧
      found.Pairwise fun a b => (tagOf b).2 ≤ (tagOf a).2 := by
  obtain ⟨older, ho, rfl⟩ := Option.map_eq_some_iff.mp h
  refine ⟨(orderByCreatedAtDesc_perm _).trans (List.Perm.of_eq ?_), orderByCreatedAtDesc_sorted _⟩
  refine List.filter_congr fun r _ => ?_
  exact (passes_admitsInstant ho _).symm

theorem tags_nodup {rows : List StoredRun} (h : (rows.map fun r => r.id).Nodup) :
    (rows.map tagOf).Nodup := by
  rw [List.Nodup, List.pairwise_map] at h ⊢
  exact h.imp fun hne he => hne (congrArg Prod.fst he)

section Unique
variable (hlimit : 1 ≤ limit) (unique : ∀ k, ((tables k).map fun r => r.id).Nodup)
include hlimit unique

variable (column) in
theorem listing : Listing tagOf Prod.snd floorMs admitsInstant limit tables
    (readRows column tables limit) where
  page := by
    intro k cursor items next h
    obtain ⟨found, hf, rfl, hnext⟩ := readRows_cases hlimit h
    obtain ⟨hperm, hsorted⟩ := found_spec hf
    refine ⟨_, IsPage.of_take hperm hsorted ?_ ?_⟩
    · rintro rfl
      rcases hnext with hle | ⟨-, last, date, -, -, hn⟩
      · exact hle.1
      · cases hn
    · rintro v rfl
      rcases hnext with hle | ⟨-, last, date, hl, hd, hn⟩
      · cases hle.2
      · cases hn
        refine ⟨last, hl, fun x => ?_⟩
        rw [admitsInstant_toISOString, column.read_floor _ _ hd]
        rfl
  nodup := fun k => tags_nodup (unique k)
  bound_le := by
    intro x
    show 1000 * (x / 1000) ≤ x
    omega

end Unique

/-! ## the end of the listing -/

/-- an upper bound of the instants that a cursor admits, counted from the first one there is -/
def instantRank (cursor : Option JsString) : Nat :=
  match truthy cursor with
  | none => (9224318016000000000 + 210866803200000000 : Int).toNat
  | some text =>
    ((JsDate.parseISO text).elim (0 : Int) fun date => 1000 * date.time + 210866803200000000).toNat

theorem lt_instantRank {cursor : Option JsString} {r : StoredRun}
    (h : passes admitsInstant cursor r.createdAt.micros = true) :
    (r.createdAt.micros + 210866803200000000).toNat < instantRank cursor := by
  obtain ⟨h1, h2⟩ := r.createdAt.valid
  cases cursor with
  | none =>
    show _ < (9224318016000000000 + 210866803200000000 : Int).toNat
    omega
  | some text =>
    have h' : admitsInstant text r.createdAt.micros = true := h
    rw [admitsInstant] at h'
    rw [instantRank]
    split at h'
    next =>
      show _ < (9224318016000000000 + 210866803200000000 : Int).toNat
      omega
    next t _ =>
      cases hd : JsDate.parseISO t with
      | none =>
        rw [hd] at h'
        cases h'
      | some date =>
        rw [hd] at h'
        have hlt : r.createdAt.micros < 1000 * date.time := of_decide_eq_true h'
        show _ < (1000 * date.time + 210866803200000000).toNat
        omega

theorem instantRank_toISOString (d : JsDate) :
    instantRank (some d.toISOString) = (1000 * d.time + 210866803200000000).toNat := by
  rw [instantRank, truthy_toISOString]
  show ((JsDate.parseISO d.toISOString).elim (0 : Int) _).toNat = _
  rw [JsDate.parseISO_toISOString]
  rfl

/-- the listing ends unless a read has no answer -/
theorem exists_follows (hlimit : 1 ≤ limit) :
    (∃ pages, Follows (readRows column tables limit) 0 none pages) ↔
      ∀ s, Reached (readRows column tables limit) (0, none) s →
        (readRows column tables limit s.1 s.2).isSome := by
  refine exists_follows_iff (fun _ c => instantRank c) ?_ 0 none
  intro k c items v h
  obtain ⟨found, hf, -, hnext⟩ := readRows_cases hlimit h
  rcases hnext with ⟨-, hn⟩ | ⟨-, last, date, hl, hd, hn⟩
  · cases hn
  · cases hn
    have hmem := (found_spec hf).1.mem_iff.mp (List.mem_of_mem_take (List.mem_of_getLast? hl))
    have hlt := lt_instantRank (List.mem_filter.mp hmem).2
    have hfloor := column.read_floor _ _ hd
    rw [instantRank_toISOString]
    omega

/-! ## what a read hides -/

theorem readRows_none_iff (hlimit : 1 ≤ limit) (s : Nat × Option JsString) :
    readRows column tables limit s.1 s.2 = none ↔
      selectRuns column (tables s.1) s.2 = none ∨
      ∃ found last, selectRuns column (tables s.1) s.2 = some found ∧ limit < found.length ∧
        (found.take limit).getLast? = some last ∧ column.read last.createdAt = none := by
  rw [readRows]
  cases hf : selectRuns column (tables s.1) s.2 with
  | none => exact ⟨fun _ => .inl rfl, fun _ => rfl⟩
  | some found =>
    rw [Option.bind_some]
    constructor
    · intro h
      refine .inr ?_
      by_cases hlt : limit < found.length
      · obtain ⟨last, hl⟩ := exists_last hlimit hlt
        rw [pageOfRuns_of_lt hlt hl, Option.map_eq_none_iff] at h
        exact ⟨found, last, rfl, hlt, hl, h⟩
      · rw [pageOfRuns_of_le (by omega)] at h
        cases h
    · rintro (h | ⟨found', last, hf', hlt, hl, hr⟩)
      · cases h
      · cases hf'
        rw [pageOfRuns_of_lt hlt hl, hr]
        rfl

/-- a run that stays is dropped where it is left over in the millisecond of the last of the page -/
theorem dropped_iff (hlimit : 1 ≤ limit) (unique : ∀ k, ((tables k).map fun r => r.id).Nodup)
    {s : Nat × Option JsString} (hs : (readRows column tables limit s.1 s.2).isSome)
    {i : JsString × Int} (hi : i ∈ (tables s.1).map tagOf) :
    Dropped tagOf Prod.snd admitsInstant (readRows column tables limit) i s ↔
      ∃ found last, selectRuns column (tables s.1) s.2 = some found ∧ limit < found.length ∧
        (found.take limit).getLast? = some last ∧
        ∃ r ∈ found.drop limit, tagOf r = i ∧
          r.createdAt.micros / 1000 = last.createdAt.micros / 1000 := by
  constructor
  · rintro ⟨items, v, hr, hpass, hn, hv⟩
    obtain ⟨found, hf, rfl, hnext⟩ := readRows_cases hlimit hr
    rcases hnext with ⟨-, hnext⟩ | ⟨hlt, last, date, hl, hd, hnext⟩
    · cases hnext
    · cases hnext
      obtain ⟨hperm, hsorted⟩ := found_spec hf
      obtain ⟨r, hrow, rfl⟩ := List.mem_map.mp hi
      have hfound : r ∈ found.take limit ++ found.drop limit := by
        rw [List.take_append_drop]
        exact hperm.mem_iff.mpr (List.mem_filter.mpr ⟨hrow, hpass⟩)
      have hdrop : r ∈ found.drop limit := by
        rcases List.mem_append.mp hfound with h | h
        · exact absurd (List.mem_map_of_mem h) hn
        · exact h
      refine ⟨found, last, hf, hlt, hl, r, hdrop, rfl, ?_⟩
      have hle : r.createdAt.micros ≤ last.createdAt.micros :=
        hsorted.rel_of_mem_take_of_mem_drop (List.mem_of_getLast? hl) hdrop
      have hge : ¬ r.createdAt.micros < 1000 * date.time := by
        intro h
        have hv' : admitsInstant date.toISOString r.createdAt.micros = false := hv
        rw [(admitsInstant_toISOString date _).mpr h] at hv'
        cases hv'
      have hfloor := column.read_floor _ _ hd
      omega
  · rintro ⟨found, last, hf, hlt, hl, r, hdrop, rfl, hms⟩
    have hpage : readRows column tables limit s.1 s.2 = (column.read last.createdAt).map fun date =>
        (found.take limit, some date.toISOString) := by
      rw [readRows, hf, Option.bind_some, pageOfRuns_of_lt hlt hl]
    rw [hpage, Option.isSome_map] at hs
    obtain ⟨date, hd⟩ := Option.isSome_iff_exists.mp hs
    obtain ⟨hperm, -⟩ := found_spec hf
    have hmem := List.mem_filter.mp (hperm.mem_iff.mp (List.mem_of_mem_drop hdrop))
    have hfloor := column.read_floor _ _ hd
    refine ⟨found.take limit, date.toISOString, by rw [hpage, hd]; rfl, hmem.2, ?_, ?_⟩
    · have hnodup : (found.map tagOf).Nodup :=
        (hperm.map tagOf).nodup_iff.mpr
          ((tags_nodup (unique s.1)).sublist (List.filter_sublist.map tagOf))
      rw [← List.take_append_drop limit found, List.map_append, List.nodup_append] at hnodup
      exact fun h => hnodup.2.2 _ h _ (List.mem_map_of_mem hdrop) rfl
    · rw [Bool.eq_false_iff, Ne, admitsInstant_toISOString]
      show ¬ r.createdAt.micros < _
      omega

theorem stays_iff (i : JsString × Int) :
    Stays tables i.1 i.2 ↔ ∀ k, i ∈ (tables k).map tagOf := by
  refine forall_congr' fun k => ?_
  rw [List.mem_map]
  exact exists_congr fun r => and_congr_right fun _ => Prod.mk_inj.symm

theorem hides_iff (hlimit : 1 ≤ limit) (unique : ∀ k, ((tables k).map fun r => r.id).Nodup)
    (s : Nat × Option JsString) :
    Hides column tables limit s ↔ readRows column tables limit s.1 s.2 = none ∨
      ∃ i, Stays tables i.1 i.2 ∧
        Dropped tagOf Prod.snd admitsInstant (readRows column tables limit) i s := by
  constructor
  · rintro (h | ⟨found, last, hf, hlt, hl, hnone | ⟨r, hr, hstay, hms⟩⟩)
    · exact .inl ((readRows_none_iff hlimit s).mpr (.inl h))
    · exact .inl ((readRows_none_iff hlimit s).mpr (.inr ⟨found, last, hf, hlt, hl, hnone⟩))
    · cases hs : readRows column tables limit s.1 s.2 with
      | none => exact .inl rfl
      | some page =>
        have hi : tagOf r ∈ (tables s.1).map tagOf := (stays_iff (tagOf r)).mp hstay s.1
        refine .inr ⟨tagOf r, hstay, (dropped_iff hlimit unique ?_ hi).mpr
          ⟨found, last, hf, hlt, hl, r, hr, rfl, hms⟩⟩
        rw [hs]
        rfl
  · rintro (h | ⟨i, hstay, hdrop⟩)
    · rcases (readRows_none_iff hlimit s).mp h with h | ⟨found, last, hf, hlt, hl, hnone⟩
      · exact .inl h
      · exact .inr ⟨found, last, hf, hlt, hl, .inl hnone⟩
    · have hs : (readRows column tables limit s.1 s.2).isSome := by
        obtain ⟨items, v, hr, -⟩ := hdrop
        rw [hr]
        rfl
      obtain ⟨found, last, hf, hlt, hl, r, hr, rfl, hms⟩ :=
        (dropped_iff hlimit unique hs ((stays_iff i).mp hstay s.1)).mp hdrop
      exact .inr ⟨found, last, hf, hlt, hl, .inr ⟨r, hr, hstay, hms⟩⟩

variable (column) in
theorem ids_summaries (pages : List (List StoredRun)) :
    (pages.map (List.map (toRunSummary column))).flatten.map RunSummary.id
      = pages.flatten.map fun r => r.id := by
  rw [← List.map_flatten, List.map_map]
  rfl

/-- a run that stays is counted by its id as it is with its instant -/
theorem count_eq (unique : ∀ k, ((tables k).map fun r => r.id).Nodup) {rows : List StoredRun}
    (hrows : ∀ r ∈ rows, ∃ k, r ∈ tables k) {id : JsString} {createdAt : Int}
    (hs : Stays tables id createdAt) :
    (rows.map fun r => r.id).count id = (rows.map tagOf).count (id, createdAt) := by
  rw [List.count_eq_countP, List.count_eq_countP, List.countP_map, List.countP_map]
  refine List.countP_congr fun r hr => ?_
  obtain ⟨k, hk⟩ := hrows r hr
  obtain ⟨r', hr', hid, hcreated⟩ := hs k
  simp only [Function.comp_apply, beq_iff_eq]
  constructor
  · intro h
    have heq : r = r' := List.inj_on_of_nodup_map (unique k) hk hr' (h.trans hid.symm)
    rw [heq, tagOf, hid, hcreated]
  · exact fun h => congrArg Prod.fst h

end Reads

/-- **A listing visits every run once exactly when no page ends inside a millisecond.**  Whatever the
runs do between the reads, and in whatever order the server returns those of one instant: the cursors
lead to a last page, the rows are in order and each run that stays is among them once, exactly when
no read that is reached hides one. -/
theorem listRuns_visits_iff (column : TimestampColumn) (tables : Nat → List StoredRun) (limit : Nat)
    (hlimit : 1 ≤ limit) (unique : ∀ k, ((tables k).map fun r => r.id).Nodup) :
    (∃ pages : List (List StoredRun),
      Follows (readRuns column tables limit) 0 none (pages.map (List.map (toRunSummary column))) ∧
        Visits tables pages) ↔
      ∀ s, Reached (readRuns column tables limit) (0, none) s → ¬ Hides column tables limit s := by
  have L := listing column hlimit unique
  rw [readRuns_eq, reached_view]
  constructor
  · rintro ⟨pages, hf, hv⟩ s hs hhide
    obtain ⟨xs, hxs, hpages⟩ := hf.of_view
    rcases (hides_iff hlimit unique s).mp hhide with hnone | ⟨i, hstay, hdrop⟩
    · have hsome := hxs.succeeds s hs
      rw [hnone] at hsome
      cases hsome
    · -- the pages have the same ids as the rows that were read
      have hids : pages.flatten.map (fun r => r.id) = xs.flatten.map (fun r => r.id) := by
        rw [← ids_summaries column, hpages, ids_summaries]
      have honce := hv.once i.1 i.2 hstay
      rw [hids, count_eq unique (fun r hr => L.mem_of_mem_flatten hxs hr) hstay] at honce
      have hmem : i ∈ xs.flatten.map tagOf := List.count_pos_iff.mp (by rw [honce]; exact one_pos)
      exact (L.mem_pages_iff hxs (down_none _) rfl ((stays_iff i).mp hstay)).mp hmem s hs hdrop
  · intro h
    have hhide := fun s hs => not_or.mp (mt (hides_iff hlimit unique s).mpr (h s hs))
    obtain ⟨xs, hxs⟩ := (exists_follows hlimit).mpr fun s hs =>
      Option.isSome_iff_ne_none.mpr (hhide s hs).1
    refine ⟨xs, hxs.view, fun r hr => L.mem_of_mem_flatten hxs hr, L.flatten_sorted hxs, ?_⟩
    intro id createdAt hstay
    rw [count_eq unique (fun r hr => L.mem_of_mem_flatten hxs hr) hstay,
      (L.tags_nodup hxs).count, if_pos]
    refine (L.mem_pages_iff hxs (down_none _) rfl ((stays_iff (id, createdAt)).mp hstay)).mpr ?_
    exact fun s hs hdrop => (hhide s hs).2 ⟨(id, createdAt), hstay, hdrop⟩

/-! ## two runs of one millisecond -/

def runAt (id : JsString) (micros : Int)
    (h : -210866803200000000 ≤ micros ∧ micros < 9224318016000000000) : StoredRun where
  id := id
  objective := lit "resumen"
  parentSessionId := lit "s1"
  status := .done
  finalResponse := none
  createdAt := ⟨micros, h⟩
  completedAt := none

/-- created 300 microseconds apart, inside the second millisecond of 1970 -/
def closeRuns : List StoredRun :=
  [runAt (lit "b") 1500 (by decide), runAt (lit "a") 1200 (by decide)]

theorem listRuns_visits_iff_closeRuns :
    (∃ pages : List (List StoredRun),
      Follows (readRuns .common (fun _ => closeRuns) 1) 0 none
        (pages.map (List.map (toRunSummary .common))) ∧ Visits (fun _ => closeRuns) pages) ↔
      ∀ s, Reached (readRuns .common (fun _ => closeRuns) 1) (0, none) s →
        ¬ Hides .common (fun _ => closeRuns) 1 s :=
  listRuns_visits_iff .common (fun _ => closeRuns) 1 (by decide) fun _ => by decide

def secondMillisecond : JsDate := ⟨1, by decide⟩

theorem orderByCreatedAtDesc_closeRuns : orderByCreatedAtDesc closeRuns = closeRuns :=
  Nearest.byDistance_eq (by decide)

theorem readRuns_closeRuns :
    readRuns .common (fun _ => closeRuns) 1 0 none
      = some ([toRunSummary .common (runAt (lit "b") 1500 (by decide))],
          some secondMillisecond.toISOString) ∧
    readRuns .common (fun _ => closeRuns) 1 1 (some secondMillisecond.toISOString)
      = some ([], none) := by
  constructor
  · have hsel : selectRuns .common closeRuns none = some closeRuns := by
      show some (orderByCreatedAtDesc (closeRuns.filter fun _ => true)) = _
      rw [List.filter_true, orderByCreatedAtDesc_closeRuns]
    rw [readRuns, listRuns]
    show ((selectRuns .common closeRuns none).bind _).map _ = _
    rw [hsel]
    decide
  · decide +kernel

/-- the second run, older by microseconds, is not before the date of the first one -/
theorem second_run_skipped :
    ¬ ∃ pages : List (List StoredRun),
      Follows (readRuns .common (fun _ => closeRuns) 1) 0 none
        (pages.map (List.map (toRunSummary .common))) ∧ Visits (fun _ => closeRuns) pages := by
  rintro ⟨pages, hf, hv⟩
  obtain ⟨h0, h1⟩ := readRuns_closeRuns
  have hpages := hf.unique (.next h0 (.last h1))
  have hstay : Stays (fun _ => closeRuns) (lit "a") 1200 := fun k =>
    ⟨_, List.mem_cons_of_mem _ List.mem_cons_self, rfl, rfl⟩
  have honce := hv.once _ _ hstay
  rw [← ids_summaries .common, hpages] at honce
  exact absurd honce (by decide)

end Orchestrator
