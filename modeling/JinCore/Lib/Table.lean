import Mathlib.Data.List.Forall2
import Mathlib.Data.List.Nodup

/-!
# Tables with a primary key

* `Table key`          a list of rows, no two of them with the same key;
* `get`, `modify`, `erase`, `insert`   the row of a key, an update, a delete, an insert;
* `mapRows`             an update of every row;
* `keep`, `set`         the rows that meet a predicate, a row in the place of the one with its key;
* `get_modify`, `get_erase`, `get_insert`, `get_keep`, `get_set`   what each of them does to every key;
* `insert_eq_none_iff`  when an insert fails;
* `Alike R t t'`        two tables whose rows are related one by one, `Alike.get` and so on.
-/

structure Table {κ ρ : Type*} (key : ρ → κ) where
  rows : List ρ
  nodup : (rows.map key).Nodup

namespace Table
variable {κ ρ : Type*} {key : ρ → κ}

def empty (key : ρ → κ) : Table key := ⟨[], List.nodup_nil⟩

variable [DecidableEq κ]

/-- the row of a key -/
def get (t : Table key) (k : κ) : Option ρ := t.rows.find? fun r => key r = k

/-- an update of the row of a key that leaves the key as it is -/
def modify (t : Table key) (k : κ) (f : ρ → ρ) (hf : ∀ r, key (f r) = key r) : Table key where
  rows := t.rows.map fun r => if key r = k then f r else r
  nodup := by
    have h : (fun r => key (if key r = k then f r else r)) = key := by
      funext r
      split
      · exact hf r
      · rfl
    rw [List.map_map]
    show (t.rows.map fun r => key (if key r = k then f r else r)).Nodup
    rw [h]
    exact t.nodup

/-- an update of every row that leaves the keys as they are -/
def mapRows (t : Table key) (f : ρ → ρ) (hf : ∀ r, key (f r) = key r) : Table key where
  rows := t.rows.map f
  nodup := by
    have h : (t.rows.map f).map key = t.rows.map key := by
      rw [List.map_map]
      exact List.map_congr_left fun r _ => hf r
    rw [h]
    exact t.nodup

/-- a delete by key -/
def erase (t : Table key) (k : κ) : Table key where
  rows := t.rows.filter fun r => key r ≠ k
  nodup := t.nodup.sublist ((List.filter_sublist).map key)

/-- an insert, which fails if the key is taken -/
def insert (t : Table key) (r : ρ) : Option (Table key) :=
  if h : key r ∈ t.rows.map key then none
  else some ⟨t.rows ++ [r], by
    rw [List.map_append, List.map_singleton]
    exact t.nodup.append (List.nodup_singleton _) (by simpa using h)⟩

/-- the rows that meet a predicate -/
def keep (t : Table key) (p : ρ → Bool) : Table key where
  rows := t.rows.filter p
  nodup := t.nodup.sublist ((List.filter_sublist).map key)

/-- a row, in the place of the one with its key -/
def set (t : Table key) (r : ρ) : Table key where
  rows := (t.erase (key r)).rows ++ [r]
  nodup := by
    rw [List.map_append, List.map_singleton]
    refine (t.erase (key r)).nodup.append (List.nodup_singleton _) ?_
    rw [List.disjoint_singleton]
    intro hmem
    obtain ⟨s, hs, hkey⟩ := List.mem_map.mp hmem
    exact of_decide_eq_true (List.mem_filter.mp hs).2 hkey

theorem get_empty (k : κ) : (empty key).get k = none := rfl

/-- a member of a list without two equal keys is found by its key -/
theorem find?_key {rows : List ρ} (hrows : (rows.map key).Nodup) {r : ρ} (hr : r ∈ rows) :
    (rows.find? fun s => key s = key r) = some r := by
  cases h : rows.find? fun s => key s = key r with
  | none => exact absurd (decide_eq_true rfl) (List.find?_eq_none.mp h r hr)
  | some s =>
    have hkey : key s = key r := by simpa using List.find?_some h
    rw [List.inj_on_of_nodup_map hrows (List.mem_of_find?_eq_some h) hr hkey]

theorem get_eq_some_iff {t : Table key} {k : κ} {r : ρ} :
    t.get k = some r ↔ r ∈ t.rows ∧ key r = k := by
  constructor
  · intro h
    exact ⟨List.mem_of_find?_eq_some h, by simpa using List.find?_some h⟩
  · rintro ⟨hr, rfl⟩
    exact find?_key t.nodup hr

theorem get_eq_none_iff {t : Table key} {k : κ} :
    t.get k = none ↔ ∀ r ∈ t.rows, key r ≠ k := by
  rw [get, List.find?_eq_none]
  simp

theorem key_of_get {t : Table key} {k : κ} {r : ρ} (h : t.get k = some r) : key r = k :=
  (get_eq_some_iff.mp h).2

theorem get_modify (t : Table key) (k j : κ) (f : ρ → ρ) (hf : ∀ r, key (f r) = key r) :
    (t.modify k f hf).get j = if j = k then (t.get k).map f else t.get j := by
  have hkey : ∀ r, key (if key r = k then f r else r) = key r := by
    intro r
    split
    · exact hf r
    · rfl
  have hfind : (t.modify k f hf).get j = (t.get j).map fun r => if key r = k then f r else r := by
    show (t.rows.map fun r => if key r = k then f r else r).find? (fun r => key r = j) = _
    rw [List.find?_map]
    show ((t.rows.find? fun r => decide (key (if key r = k then f r else r) = j)).map _) = _
    simp only [hkey]
    rfl
  rw [hfind]
  split
  next he =>
    subst he
    cases h : t.get j with
    | none => rfl
    | some r => rw [Option.map_some, Option.map_some, if_pos (key_of_get h)]
  next hne =>
    cases h : t.get j with
    | none => rfl
    | some r => rw [Option.map_some, if_neg (by rw [key_of_get h]; exact hne)]

theorem get_erase (t : Table key) (k j : κ) :
    (t.erase k).get j = if j = k then none else t.get j := by
  split
  next he =>
    rw [get_eq_none_iff]
    intro r hr
    have := (List.mem_filter.mp hr).2
    rw [he]
    simpa using this
  next hne =>
    cases h : t.get j with
    | none =>
      rw [get_eq_none_iff] at h ⊢
      exact fun r hr => h r (List.mem_filter.mp hr).1
    | some r =>
      obtain ⟨hr, hk⟩ := get_eq_some_iff.mp h
      exact get_eq_some_iff.mpr ⟨List.mem_filter.mpr ⟨hr, by simpa [hk] using hne⟩, hk⟩

theorem get_insert {t t' : Table key} {r : ρ} (h : t.insert r = some t') (j : κ) :
    t.get (key r) = none ∧ t'.get j = if j = key r then some r else t.get j := by
  unfold insert at h
  split at h
  next => cases h
  next hr =>
    cases h
    have h0 : t.get (key r) = none := by
      rw [get_eq_none_iff]
      exact fun s hs he => hr (List.mem_map.mpr ⟨s, hs, he⟩)
    refine ⟨h0, ?_⟩
    show (t.rows ++ [r]).find? (fun s => key s = j) = _
    rw [List.find?_append]
    show (t.get j).or _ = _
    split
    next he =>
      rw [he, h0, Option.none_or]
      simp
    next hne =>
      cases t.get j with
      | none =>
        rw [Option.none_or, List.find?_cons_of_neg (by simpa using Ne.symm hne)]
        rfl
      | some s => rfl

theorem get_keep (t : Table key) (p : ρ → Bool) (k : κ) : (t.keep p).get k = (t.get k).filter p := by
  cases h : t.get k with
  | none =>
    rw [get_eq_none_iff] at h
    exact get_eq_none_iff.mpr fun r hr => h r (List.mem_filter.mp hr).1
  | some r =>
    obtain ⟨hr, hk⟩ := get_eq_some_iff.mp h
    cases hp : p r with
    | true =>
      rw [Option.filter_some_pos hp]
      exact get_eq_some_iff.mpr ⟨List.mem_filter.mpr ⟨hr, hp⟩, hk⟩
    | false =>
      rw [Option.filter_some_neg hp]
      refine get_eq_none_iff.mpr fun s hs hks => ?_
      obtain ⟨hs, hps⟩ := List.mem_filter.mp hs
      have hsame := get_eq_some_iff.mpr ⟨hs, hks⟩
      rw [h, Option.some.injEq] at hsame
      rw [← hsame, hp] at hps
      cases hps

theorem get_set (t : Table key) (r : ρ) (k : κ) :
    (t.set r).get k = if k = key r then some r else t.get k := by
  split
  next hk =>
    exact get_eq_some_iff.mpr ⟨List.mem_append_right _ (List.mem_singleton.mpr rfl), hk.symm⟩
  next hk =>
    show ((t.erase (key r)).rows ++ [r]).find? (fun s => key s = k) = _
    rw [List.find?_append]
    show ((t.erase (key r)).get k).or _ = _
    rw [get_erase, if_neg hk, List.find?_cons_of_neg (by simpa using Ne.symm hk)]
    exact Option.or_none

/-- the rows of a table after an upsert -/
theorem mem_set {t : Table key} {r x : ρ}
    (h : x ∈ (t.set r).rows) : x = r ∨ (x ∈ t.rows ∧ key x ≠ key r) := by
  have hget := Table.get_eq_some_iff.mpr ⟨h, rfl⟩
  rw [Table.get_set] at hget
  split at hget
  next => exact Or.inl (Option.some.inj hget).symm
  next hne => exact Or.inr ⟨(Table.get_eq_some_iff.mp hget).1, hne⟩

theorem mem_set_self (t : Table key) (r : ρ) :
    r ∈ (t.set r).rows := List.mem_append_right _ (List.mem_singleton.mpr rfl)

theorem mem_set_other {t : Table key} {r x : ρ}
    (h : x ∈ t.rows) (hne : key x ≠ key r) : x ∈ (t.set r).rows := by
  refine (Table.get_eq_some_iff (k := key x)).mp ?_ |>.1
  rw [Table.get_set, if_neg hne]
  exact Table.get_eq_some_iff.mpr ⟨h, rfl⟩

theorem rows_insert {t t' : Table key} {r : ρ} (h : t.insert r = some t') :
    t'.rows = t.rows ++ [r] := by
  unfold insert at h
  split at h
  next => cases h
  next =>
    cases h
    rfl

/-- an insert with a new key succeeds -/
theorem exists_insert {t : Table key} {r : ρ} (h : key r ∉ t.rows.map key) :
    ∃ t', t.insert r = some t' ∧ t'.rows = t.rows ++ [r] := by
  unfold insert
  rw [dif_neg h]
  exact ⟨_, rfl, rfl⟩

/-- an insert fails exactly where the key is taken -/
theorem insert_eq_none_iff {t : Table key} {r : ρ} : t.insert r = none ↔ t.get (key r) ≠ none := by
  constructor
  · intro h hget
    unfold insert at h
    split at h
    next hmem =>
      obtain ⟨s, hs, hk⟩ := List.mem_map.mp hmem
      exact get_eq_none_iff.mp hget s hs hk
    next => cases h
  · intro h
    cases hinsert : t.insert r with
    | none => rfl
    | some t' => exact absurd (get_insert hinsert (key r)).1 h

/-! ## two tables, row by row -/

/-- the rows of two tables are related one by one -/
def Alike (R : ρ → ρ → Prop) (t t' : Table key) : Prop := List.Forall₂ R t.rows t'.rows

section
variable {R : ρ → ρ → Prop} {t t' : Table key}

theorem find?_alike {p p' : ρ → Bool} {rows rows' : List ρ} (h : List.Forall₂ R rows rows')
    (hp : ∀ a b, R a b → p a = p' b) : Option.Rel R (rows.find? p) (rows'.find? p') := by
  induction h with
  | nil => exact .none
  | @cons a b _ _ hab _ ih =>
    cases hpa : p a with
    | true =>
      rw [List.find?_cons_of_pos hpa, List.find?_cons_of_pos (hp a b hab ▸ hpa)]
      exact .some hab
    | false =>
      have hpb : ¬ p' b = true := by rw [← hp a b hab, hpa]; exact Bool.false_ne_true
      rw [List.find?_cons_of_neg (by rw [hpa]; exact Bool.false_ne_true), List.find?_cons_of_neg hpb]
      exact ih

omit [DecidableEq κ] in
theorem Alike.length (h : Alike R t t') : t.rows.length = t'.rows.length := h.length_eq

omit [DecidableEq κ] in
theorem Alike.keep (h : Alike R t t') {p p' : ρ → Bool} (hp : ∀ a b, R a b → p a = p' b) :
    Alike R (t.keep p) (t'.keep p') := by
  refine List.rel_filter (fun a b hab => ?_) h
  show p a = true ↔ p' b = true
  rw [hp a b hab]

variable (hkey : ∀ a b, R a b → key a = key b)
include hkey

theorem Alike.get (h : Alike R t t') (k : κ) : Option.Rel R (t.get k) (t'.get k) :=
  find?_alike h fun a b hab => by rw [hkey a b hab]

theorem Alike.erase (h : Alike R t t') (k : κ) : Alike R (t.erase k) (t'.erase k) :=
  Alike.keep h fun a b hab => by rw [hkey a b hab]

theorem Alike.set (h : Alike R t t') {r r' : ρ} (hr : R r r') : Alike R (t.set r) (t'.set r') := by
  have herase := Alike.erase hkey h (key r)
  have hrows : (t'.set r').rows = (t'.erase (key r)).rows ++ [r'] := by rw [hkey r r' hr]; rfl
  show List.Forall₂ R ((t.erase (key r)).rows ++ [r]) (t'.set r').rows
  rw [hrows]
  exact List.rel_append herase (.cons hr .nil)

end

end Table
