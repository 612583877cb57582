import JinCore.Memory.Store

/-!
# Filtered recall

A recall ranks the whole store and filters afterwards.

* `meets`              an entry has the value of every filter that is given;
* `Exact`              a recall gives the nearest of the entries that meet the filters;
* `queryKnn_of_le`, `queryKnn_of_lt`   what a recall gives up to the limit of `vec0`, and past it;
* `filtered_recall_iff`   recall is exact up to that limit, as long as an empty text that is given as
                       a filter leaves no other entry out.
-/

namespace Memory
open JsString Nearest

section
variable {ν δ : Type} [LinearOrder δ] (vec : Vec0 ν δ)

/-- an entry has the value of every filter that is given -/
def meets (filters : Option RecallFilters) (entry : InsertEntryInput) : Bool :=
  (filters.bind (·.tipo)).all (entry.tipo = ·) && (filters.bind (·.fuente)).all (entry.fuente = ·)
    && (filters.bind (·.sessionId)).all (entry.sessionId = some ·)

/-- the filters without the empty texts -/
def withoutEmpty (filters : Option RecallFilters) : Option RecallFilters :=
  filters.map fun f =>
    ⟨f.tipo, f.fuente.filter (· ≠ lit ""), f.sessionId.filter (· ≠ lit "")⟩

/-- an entry of a result: the metadata of an insert and its distance -/
def recalled (q : ν) (e : Nat × InsertEntryInput × ν) : MemoryEntry δ :=
  toMemoryEntry (entryRow e) (some (vec.distance e.2.2 q))

/-- After the inserts, the recall gives the nearest `k` of the entries that meet the filters, in order
of distance, each with the metadata of its insert. -/
def Exact (inserts : List (InsertEntryInput × ν)) (q : ν) (k : Nat)
    (filters : Option RecallFilters) : Prop :=
  ∃ store chosen rest, insertAll inserts = some store
    ∧ Nearest (fun e => vec.distance e.2.2 q) k
        ((numbered inserts).filter fun e => meets filters e.2.1) chosen rest
    ∧ store.queryKnn vec q k filters = some (chosen.map (recalled vec q))

theorem newRow_inj {i j : Nat} {a b : InsertEntryInput} (h : newRow i a = newRow j b) : a = b := by
  cases a
  cases b
  injection h
  subst_vars
  rfl

/-- the callback of `rows.filter` looks at no filter that is an empty text -/
theorem keepsRow_newRow (filters : Option RecallFilters) (id : Nat) (entry : InsertEntryInput) :
    keepsRow filters (newRow id entry) = meets (withoutEmpty filters) entry := by
  cases filters with
  | none => rfl
  | some f =>
    obtain ⟨tipo, fuente, sessionId⟩ := f
    have htipo : (tipo.any fun t => entry.tipo ≠ t) = !tipo.all (entry.tipo = ·) := by
      cases tipo <;> simp
    have hfuente : (fuente.any fun t => t ≠ lit "" ∧ entry.fuente ≠ t)
        = !(fuente.filter (· ≠ lit "")).all (entry.fuente = ·) := by
      cases fuente with
      | none => rfl
      | some t => by_cases ht : t = lit "" <;> simp [Option.filter, ht]
    have hsession : (sessionId.any fun t => t ≠ lit "" ∧ entry.sessionId ≠ some t)
        = !(sessionId.filter (· ≠ lit "")).all (entry.sessionId = some ·) := by
      cases sessionId with
      | none => rfl
      | some t => by_cases ht : t = lit "" <;> simp [Option.filter, ht]
    show (if tipo.any (fun t => entry.tipo ≠ t) then false
      else if fuente.any (fun t => t ≠ lit "" ∧ entry.fuente ≠ t) then false
      else if sessionId.any (fun t => t ≠ lit "" ∧ entry.sessionId ≠ some t) then false
      else true) = _
    rw [htipo, hfuente, hsession]
    show _ = (tipo.all (entry.tipo = ·) && (fuente.filter (· ≠ lit "")).all (entry.fuente = ·)
      && (sessionId.filter (· ≠ lit "")).all (entry.sessionId = some ·))
    cases tipo.all (entry.tipo = ·) <;>
      cases (fuente.filter (· ≠ lit "")).all (entry.fuente = ·) <;> simp

/-- dropping a filter drops no entry -/
theorem meets_withoutEmpty {filters : Option RecallFilters} {entry : InsertEntryInput}
    (h : meets filters entry) : meets (withoutEmpty filters) entry := by
  cases filters with
  | none => rfl
  | some f =>
    obtain ⟨tipo, fuente, sessionId⟩ := f
    have hsub : ∀ {o : Option JsString} {p : JsString → Bool}, o.all p →
        (o.filter (· ≠ lit "")).all p := by
      intro o p ho
      cases o with
      | none => rfl
      | some t => by_cases ht : t = lit "" <;> simp_all [Option.filter]
    unfold meets at h ⊢
    rw [Bool.and_eq_true, Bool.and_eq_true] at h ⊢
    exact ⟨⟨h.1.1, hsub h.1.2⟩, hsub h.2⟩

variable {store : MemoryStore ν} {inserts : List (InsertEntryInput × ν)}

/-- the join finds the entry of every vector -/
theorem get_entryRow (h : Holds store inserts) {e : Nat × InsertEntryInput × ν}
    (he : e ∈ numbered inserts) : store.memoryEntries.get e.1 = some (entryRow e) := by
  rw [Table.get_eq_some_iff]
  refine ⟨?_, rfl⟩
  rw [h.entries]
  exact List.mem_map_of_mem he

theorem filterMap_join (h : Holds store inserts) (q : ν) {ranked : List (Nat × InsertEntryInput × ν)}
    (hr : ∀ e ∈ ranked, e ∈ numbered inserts) :
    ((ranked.map vectorRow).map fun v => (v.1, vec.distance v.2 q)).filterMap
        (fun hit => (store.memoryEntries.get hit.1).map fun row => (row, hit.2))
      = ranked.map fun e => (entryRow e, vec.distance e.2.2 q) := by
  rw [List.map_map, List.filterMap_map, ← List.filterMap_eq_map]
  apply List.filterMap_congr
  intro e he
  show (store.memoryEntries.get e.1).map (fun row => (row, vec.distance e.2.2 q)) = _
  rw [get_entryRow h (hr e he)]
  rfl

/-- up to the limit, a recall filters a ranking of the whole store and cuts it -/
theorem queryKnn_of_le (h : Holds store inserts) (hlen : inserts.length ≤ knnLimit) (q : ν) (k : Nat)
    (filters : Option RecallFilters) :
    ∃ ranked : List (Nat × InsertEntryInput × ν), ranked.Perm (numbered inserts)
      ∧ ranked.Pairwise (fun a b => vec.distance a.2.2 q ≤ vec.distance b.2.2 q)
      ∧ store.queryKnn vec q k filters
        = some (((ranked.filter fun e => meets (withoutEmpty filters) e.2.1).take k).map
            (recalled vec q)) := by
  have hrows : store.memoryVectors.rows.length = inserts.length := by
    rw [h.vectors, List.length_map, numbered_length]
  obtain ⟨chosen, rest, hnear, hknn⟩ :=
    vec.nearest store.memoryVectors.rows q store.memoryVectors.rows.length (by omega)
  have hperm := hnear.perm_of_le (Nat.le_refl _)
  rw [h.vectors] at hperm
  obtain ⟨ranked, hranked, rfl⟩ := exists_of_perm_map hperm
  have hsorted := List.pairwise_map.mp hnear.sorted
  refine ⟨ranked, hranked, hsorted, ?_⟩
  unfold MemoryStore.queryKnn
  by_cases hzero : store.memoryVectors.rows.length = 0
  · have hnil : ranked = [] := by
      have := hranked.length_eq
      rw [numbered_length, ← hrows, hzero] at this
      exact List.length_eq_zero_iff.mp this
    rw [if_pos hzero, hnil]
    simp
  · rw [if_neg hzero, hknn]
    show some _ = _
    rw [filterMap_join vec h q fun e he => hranked.mem_iff.mp he,
      byDistance_eq (List.pairwise_map.mpr hsorted), List.filter_map, ← List.map_take, List.map_map]
    have hkeeps : (fun e : Nat × InsertEntryInput × ν => keepsRow filters (entryRow e))
        = fun e => meets (withoutEmpty filters) e.2.1 := by
      funext e
      exact keepsRow_newRow filters e.1 e.2.1
    show some (((ranked.filter fun e => keepsRow filters (entryRow e)).take k).map _) = _
    rw [hkeeps]
    rfl

/-- past the limit, a recall fails -/
theorem queryKnn_of_lt (h : Holds store inserts) (hlen : knnLimit < inserts.length) (q : ν) (k : Nat)
    (filters : Option RecallFilters) : store.queryKnn vec q k filters = none := by
  have hrows : store.memoryVectors.rows.length = inserts.length := by
    rw [h.vectors, List.length_map, numbered_length]
  unfold MemoryStore.queryKnn
  rw [if_neg (by omega), vec.rejected _ _ _ (by omega)]
  rfl

theorem le_of_exact {q : ν} {k : Nat} {filters : Option RecallFilters}
    (h : Exact vec inserts q k filters) : inserts.length ≤ knnLimit := by
  obtain ⟨store, chosen, rest, hall, -, hquery⟩ := h
  obtain ⟨store', hall', hholds⟩ := exists_insertAll inserts
  obtain rfl : store' = store := Option.some.inj (hall'.symm.trans hall)
  by_contra hlt
  rw [queryKnn_of_lt vec hholds (by omega)] at hquery
  cases hquery

/-- recall is exact where the filters that are looked at leave out what the filters given leave out -/
theorem exact_of_le {filters : Option RecallFilters} (hlen : inserts.length ≤ knnLimit)
    (hempty : ∀ e ∈ inserts, meets (withoutEmpty filters) e.1 → meets filters e.1) (q : ν) (k : Nat) :
    Exact vec inserts q k filters := by
  obtain ⟨store, hall, hholds⟩ := exists_insertAll inserts
  obtain ⟨ranked, hperm, hsorted, hquery⟩ := queryKnn_of_le vec hholds hlen q k filters
  have hsame : (ranked.filter fun e => meets (withoutEmpty filters) e.2.1)
      = ranked.filter fun e => meets filters e.2.1 := by
    apply List.filter_congr
    intro e he
    have hmem : e.2 ∈ inserts := by
      rw [← numbered_map_snd inserts]
      exact List.mem_map_of_mem (hperm.mem_iff.mp he)
    rw [Bool.eq_iff_iff]
    exact ⟨hempty e.2 hmem, meets_withoutEmpty⟩
  rw [hsame] at hquery
  exact ⟨store, _, _, hall, Nearest.of_filter _ hperm hsorted, hquery⟩

/-- an entry that the recall lets through meets the filters, if recall is exact -/
theorem meets_of_exact {filters : Option RecallFilters} {e : InsertEntryInput × ν} (he : e ∈ inserts)
    (hexact : Exact vec inserts e.2 inserts.length filters)
    (hmeets : meets (withoutEmpty filters) e.1) : meets filters e.1 := by
  have hlen := le_of_exact vec hexact
  obtain ⟨store, chosen, rest, hall, hnear, hquery⟩ := hexact
  obtain ⟨store', hall', hholds⟩ := exists_insertAll inserts
  obtain rfl : store' = store := Option.some.inj (hall'.symm.trans hall)
  obtain ⟨ranked, hperm, -, hquery'⟩ :=
    queryKnn_of_le vec hholds hlen e.2 inserts.length filters
  rw [← numbered_map_snd inserts] at he
  obtain ⟨n, hn, rfl⟩ := List.mem_map.mp he
  have hshort : (ranked.filter fun e => meets (withoutEmpty filters) e.2.1).length
      ≤ inserts.length := by
    rw [← numbered_length inserts, ← hperm.length_eq]
    exact List.length_filter_le _ _
  rw [List.take_of_length_le hshort] at hquery'
  have hin : recalled vec n.2.2 n ∈ chosen.map (recalled vec n.2.2) := by
    rw [← Option.some.inj (hquery'.symm.trans hquery)]
    exact List.mem_map_of_mem (List.mem_filter.mpr ⟨hperm.mem_iff.mpr hn, hmeets⟩)
  obtain ⟨c, hc, heq⟩ := List.mem_map.mp hin
  have hrow : newRow c.1 c.2.1 = newRow n.1 n.2.1 := by
    injection heq with h1 h2 h3 h4 h5 h6 h7
    exact MemoryEntryRow.mk.injEq .. |>.mpr ⟨h1, h2, h3, h4, h5, h6, h7⟩
  rw [← newRow_inj hrow]
  exact (List.mem_filter.mp (hnear.mem hc)).2

/-- **Recall is exact up to the limit of `vec0`.**  After any sequence of inserts and for any filters,
every recall gives the nearest `k` of the entries that meet the filters exactly where there are no more
entries than one KNN query takes and an empty text given as a filter leaves no entry out that the other
filters let through; where no empty text is given, the number of entries alone decides, recall by
recall. -/
theorem filtered_recall_iff (inserts : List (InsertEntryInput × ν)) (filters : Option RecallFilters) :
    ((∀ q k, Exact vec inserts q k filters) ↔ inserts.length ≤ knnLimit
        ∧ ∀ e ∈ inserts, meets (withoutEmpty filters) e.1 → meets filters e.1)
      ∧ (withoutEmpty filters = filters →
          ∀ q k, Exact vec inserts q k filters ↔ inserts.length ≤ knnLimit) := by
  refine ⟨⟨?_, ?_⟩, ?_⟩
  · intro h
    constructor
    · cases inserts with
      | nil => exact Nat.zero_le _
      | cons e inserts => exact le_of_exact vec (h e.2 0)
    · intro e he
      exact meets_of_exact vec he (h e.2 _)
  · intro h
    exact exact_of_le vec h.1 h.2
  · intro hfilters q k
    constructor
    · exact le_of_exact vec
    · intro hlen
      refine exact_of_le vec hlen ?_ q k
      intro e _ hmeets
      rw [hfilters] at hmeets
      exact hmeets

end

/-! ## a table on a line -/

/-- a `vec0` table that sorts all its rows -/
def bruteForce {ν δ : Type} [LinearOrder δ] (distance : ν → ν → δ) : Vec0 ν δ where
  distance := distance
  knn := fun rows q k =>
    if knnLimit < k then none
    else some (((byDistance (fun v => distance v.2 q) rows).take k).map
      fun v => (v.1, distance v.2 q))
  rejected := fun rows q k hk => if_pos hk
  nearest := fun rows q k hk =>
    ⟨_, _, nearest_byDistance (fun v => distance v.2 q) k rows, if_neg (by omega)⟩

/-- vectors of one number, apart by their difference -/
def line : Vec0 Int Nat := bruteForce fun a b => (a - b).natAbs

def leccion : InsertEntryInput :=
  ⟨lit "una", .leccion, lit "gmail", lit "2026-07-25T00:00:00.000Z", lit "m", none⟩

/-- two entries, and the recall of the nearest one -/
theorem filtered_recall_iff_two :
    Exact line [(leccion, 3), (leccion, 5)] 4 1 (some ⟨some .leccion, some (lit "gmail"), none⟩) :=
  (filtered_recall_iff line _ _).1.mpr ⟨by decide, by decide⟩ 4 1

/-- A store of 4097 entries recalls nothing at all, and a filter by the source `''` lets an entry of
another source through. -/
theorem recall_past_limit :
    ¬ Exact line (List.replicate 4097 (leccion, 0)) 0 5 none
      ∧ ¬ Exact line [(leccion, 0)] 0 1 (some ⟨none, some (lit ""), none⟩) := by
  constructor
  · intro h
    have hlen := le_of_exact line h
    rw [List.length_replicate] at hlen
    exact absurd hlen (by decide)
  · intro h
    have hmeets := meets_of_exact line (List.mem_singleton.mpr rfl) h (by decide)
    exact absurd hmeets (by decide)

end Memory
