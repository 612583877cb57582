import JinCore.Lib.Ranking
import JinCore.Lib.Table
import JinCore.Js.Text
import Mathlib.Data.List.Induction

/-!
# The store of the extended memory (`store.ts`)

* `MemoryStore`          the rows of `memory_entries` and of `memory_vectors`;
* `Vec0`                 a `vec0` table: its distance, and what a KNN query gives;
* `MemoryStore.insert`, `MemoryStore.queryKnn`   the two operations;
* `insertAll`, `exists_insertAll`   a store made of inserts, and its rows;
* `Exact`                what a filtered recall has to give back.
-/

namespace Memory
open JsString

inductive MemoryEntryType where
  | hecho
  | preferencia
  | leccion
  | episodio
  deriving DecidableEq, Repr

structure InsertEntryInput where
  content : JsString
  tipo : MemoryEntryType
  fuente : JsString
  fecha : JsString
  modeloEmbedding : JsString
  sessionId : Option JsString
  deriving DecidableEq, Repr

structure MemoryEntryRow where
  id : Nat
  content : JsString
  tipo : MemoryEntryType
  fuente : JsString
  fecha : JsString
  modeloEmbedding : JsString
  sessionId : Option JsString
  deriving DecidableEq, Repr

structure MemoryEntry (δ : Type) where
  id : Nat
  content : JsString
  tipo : MemoryEntryType
  fuente : JsString
  fecha : JsString
  modeloEmbedding : JsString
  sessionId : Option JsString
  distance : Option δ
  deriving DecidableEq, Repr

structure RecallFilters where
  tipo : Option MemoryEntryType
  fuente : Option JsString
  sessionId : Option JsString
  deriving DecidableEq, Repr

def toMemoryEntry {δ : Type} (row : MemoryEntryRow) (distance : Option δ) : MemoryEntry δ where
  id := row.id
  content := row.content
  tipo := row.tipo
  fuente := row.fuente
  fecha := row.fecha
  modeloEmbedding := row.modeloEmbedding
  sessionId := row.sessionId
  distance := distance

/-- the row of an input, as the insert makes it -/
def newRow (id : Nat) (entry : InsertEntryInput) : MemoryEntryRow where
  id := id
  content := entry.content
  tipo := entry.tipo
  fuente := entry.fuente
  fecha := entry.fecha
  modeloEmbedding := entry.modeloEmbedding
  sessionId := entry.sessionId

/-- the largest `k` of a KNN query of `vec0` -/
def knnLimit : Nat := 4096

/-- A `vec0` table: a KNN query is rejected past the limit, and gives the nearest rows in order of
distance otherwise, each with its distance. -/
structure Vec0 (ν δ : Type) [LE δ] where
  distance : ν → ν → δ
  knn : List (Nat × ν) → ν → Nat → Option (List (Nat × δ))
  rejected : ∀ rows q k, knnLimit < k → knn rows q k = none
  nearest : ∀ rows q k, k ≤ knnLimit → ∃ chosen rest,
    Nearest (fun v => distance v.2 q) k rows chosen rest
      ∧ knn rows q k = some (chosen.map fun v => (v.1, distance v.2 q))

structure MemoryStore (ν : Type) where
  memoryEntries : Table MemoryEntryRow.id
  memoryVectors : Table fun vector : Nat × ν => vector.1

section
variable {ν δ : Type}

def MemoryStore.new (ν : Type) : MemoryStore ν := ⟨Table.empty _, Table.empty _⟩

/-- the rowid of the next row of a table with an `INTEGER PRIMARY KEY` -/
def nextRowid (entries : Table MemoryEntryRow.id) : Nat :=
  (entries.rows.map MemoryEntryRow.id).foldl max 0 + 1

/-- the transaction of an insert: both rows or, where a key is taken, none -/
def MemoryStore.insert (store : MemoryStore ν) (entry : InsertEntryInput) (embedding : ν) :
    Option (MemoryStore ν × MemoryEntry δ) := do
  let row := newRow (nextRowid store.memoryEntries) entry
  let entries ← store.memoryEntries.insert row
  let vectors ← store.memoryVectors.insert (row.id, embedding)
  return (⟨entries, vectors⟩, toMemoryEntry row none)

/-- the callback of `rows.filter`: an empty text filters nothing -/
def keepsRow (filters : Option RecallFilters) (row : MemoryEntryRow) : Bool :=
  if (filters.bind (·.tipo)).any fun tipo => row.tipo ≠ tipo then false
  else if (filters.bind (·.fuente)).any fun fuente => fuente ≠ lit "" ∧ row.fuente ≠ fuente then false
  else if (filters.bind (·.sessionId)).any fun s => s ≠ lit "" ∧ row.sessionId ≠ some s then false
  else true

section
variable [LinearOrder δ] (vec : Vec0 ν δ)

def MemoryStore.queryKnn (store : MemoryStore ν) (queryEmbedding : ν) (k : Nat)
    (filters : Option RecallFilters) : Option (List (MemoryEntry δ)) :=
  let totalRows := store.memoryVectors.rows.length
  if totalRows = 0 then some []
  else do
    let hits ← vec.knn store.memoryVectors.rows queryEmbedding totalRows
    let joined := hits.filterMap fun hit =>
      (store.memoryEntries.get hit.1).map fun row => (row, hit.2)
    let rows := Nearest.byDistance Prod.snd joined
    let filtered := rows.filter fun row => keepsRow filters row.1
    return (filtered.take k).map fun row => toMemoryEntry row.1 (some row.2)

end

/-! ## a store made of inserts -/

/-- the store after an insert -/
def inserted (store : MemoryStore ν) (e : InsertEntryInput × ν) : Option (MemoryStore ν) :=
  (store.insert (δ := Unit) e.1 e.2).map Prod.fst

/-- a sequence of inserts into an empty store -/
def insertAll (inserts : List (InsertEntryInput × ν)) : Option (MemoryStore ν) :=
  inserts.foldlM inserted (.new ν)

/-- the inserts with the ids that they get -/
def numbered (inserts : List (InsertEntryInput × ν)) : List (Nat × InsertEntryInput × ν) :=
  inserts.mapIdx fun i e => (i + 1, e)

theorem numbered_concat (inserts : List (InsertEntryInput × ν)) (e : InsertEntryInput × ν) :
    numbered (inserts ++ [e]) = numbered inserts ++ [(inserts.length + 1, e)] :=
  List.mapIdx_concat

theorem numbered_length (inserts : List (InsertEntryInput × ν)) :
    (numbered inserts).length = inserts.length := List.length_mapIdx

theorem numbered_map_snd (inserts : List (InsertEntryInput × ν)) :
    (numbered inserts).map Prod.snd = inserts := by
  induction inserts using List.reverseRecOn with
  | nil => rfl
  | append_singleton inserts e ih => rw [numbered_concat, List.map_append, ih]; rfl

theorem numbered_ids (inserts : List (InsertEntryInput × ν)) :
    (numbered inserts).map Prod.fst = (List.range inserts.length).map (· + 1) := by
  induction inserts using List.reverseRecOn with
  | nil => rfl
  | append_singleton inserts e ih =>
    rw [numbered_concat, List.map_append, ih, List.length_append, List.length_singleton,
      List.range_succ, List.map_append]
    rfl

def entryRow (e : Nat × InsertEntryInput × ν) : MemoryEntryRow := newRow e.1 e.2.1

def vectorRow (e : Nat × InsertEntryInput × ν) : Nat × ν := (e.1, e.2.2)

theorem foldl_max_range (n : Nat) : ((List.range n).map (· + 1)).foldl max 0 = n := by
  induction n with
  | zero => rfl
  | succ n ih =>
    rw [List.range_succ, List.map_append, List.foldl_append, ih]
    show max n (n + 1) = n + 1
    omega

/-- the inserts so far are the rows of both tables -/
structure Holds (store : MemoryStore ν) (inserts : List (InsertEntryInput × ν)) : Prop where
  entries : store.memoryEntries.rows = (numbered inserts).map entryRow
  vectors : store.memoryVectors.rows = (numbered inserts).map vectorRow

namespace Holds
variable {store : MemoryStore ν} {inserts : List (InsertEntryInput × ν)}

theorem entry_ids (h : Holds store inserts) :
    store.memoryEntries.rows.map MemoryEntryRow.id = (List.range inserts.length).map (· + 1) := by
  rw [h.entries, List.map_map, ← numbered_ids]
  rfl

theorem vector_ids (h : Holds store inserts) :
    store.memoryVectors.rows.map (fun vector => vector.1)
      = (List.range inserts.length).map (· + 1) := by
  rw [h.vectors, List.map_map, ← numbered_ids]
  rfl

theorem nextRowid_eq (h : Holds store inserts) :
    nextRowid store.memoryEntries = inserts.length + 1 := by
  unfold nextRowid
  rw [h.entry_ids, foldl_max_range]

theorem fresh (n : Nat) : n + 1 ∉ (List.range n).map (· + 1) := by
  intro hmem
  obtain ⟨i, hi, hin⟩ := List.mem_map.mp hmem
  have := List.mem_range.mp hi
  omega

/-- an insert succeeds, and its rows come after the others -/
theorem insert (h : Holds store inserts) (e : InsertEntryInput) (v : ν) :
    ∃ store', store.insert e v
        = some (store', toMemoryEntry (δ := δ) (newRow (inserts.length + 1) e) none)
      ∧ Holds store' (inserts ++ [(e, v)]) := by
  have hentries : (newRow (inserts.length + 1) e).id ∉ store.memoryEntries.rows.map (·.id) := by
    rw [h.entry_ids]
    exact fresh _
  have hvectors : inserts.length + 1 ∉ store.memoryVectors.rows.map (fun vector => vector.1) := by
    rw [h.vector_ids]
    exact fresh _
  obtain ⟨entries, hins, hrows⟩ := Table.exists_insert hentries
  obtain ⟨vectors, hins', hrows'⟩ :=
    Table.exists_insert (r := (inserts.length + 1, v)) hvectors
  refine ⟨⟨entries, vectors⟩, ?_, ?_, ?_⟩
  · unfold MemoryStore.insert
    rw [h.nextRowid_eq]
    show (store.memoryEntries.insert (newRow (inserts.length + 1) e)).bind _ = _
    rw [hins]
    show (store.memoryVectors.insert (inserts.length + 1, v)).bind _ = _
    rw [hins']
    rfl
  · rw [hrows, h.entries, numbered_concat, List.map_append]
    rfl
  · rw [hrows', h.vectors, numbered_concat, List.map_append]
    rfl

theorem rows_concat {store' : MemoryStore ν} {e : InsertEntryInput} {v : ν} (h : Holds store inserts)
    (h' : Holds store' (inserts ++ [(e, v)])) :
    store'.memoryEntries.rows = store.memoryEntries.rows ++ [newRow (inserts.length + 1) e] := by
  rw [h'.entries, h.entries, numbered_concat, List.map_append]
  rfl

end Holds

/-- a sequence of inserts never fails, and leaves a row in each table for every one of them -/
theorem exists_insertAll (inserts : List (InsertEntryInput × ν)) :
    ∃ store, insertAll inserts = some store ∧ Holds store inserts := by
  induction inserts using List.reverseRecOn with
  | nil => exact ⟨.new ν, rfl, rfl, rfl⟩
  | append_singleton inserts e ih =>
    obtain ⟨store, hall, hholds⟩ := ih
    obtain ⟨store', hins, hholds'⟩ := hholds.insert (δ := Unit) e.1 e.2
    refine ⟨store', ?_, hholds'⟩
    unfold insertAll at hall ⊢
    rw [List.foldlM_append, hall]
    show List.foldlM inserted store [e] = some store'
    rw [List.foldlM_cons]
    unfold inserted
    rw [hins]
    rfl

end
end Memory
