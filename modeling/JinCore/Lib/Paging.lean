import JinCore.Lib.Ranking
import Mathlib.Logic.Relation

/-!
# Following the cursor of a paged listing

A read returns the rows of a page and the cursor of the next one; the rows may have changed between
two reads.

* `Follows read k c pages`   the pages from read `k` on, up to the one without a next cursor;
* `Next`, `Reached`          the reads that follow each other, and those reached from one of them;
* `exists_follows_iff`       the listing ends exactly when no read that is reached fails, where every
                             next cursor is lower;
* `IsPage`                   the first rows a cursor admits, by descending key, and a next cursor
                             that admits what is below the bound of the last one;
* `flatten_sorted`, `tags_nodup`   the pages are in order and repeat nothing;
* `mem_pages_iff`            a row that stays is on a page exactly when no next cursor drops it.
-/

namespace Paging
open Relation

/-! ## the reads of a listing -/

section Reads
variable {α γ : Type*} (read : Nat → Option γ → Option (List α × Option γ))

/-- the pages from read `k` with cursor `c` on, until there is no next cursor -/
inductive Follows : Nat → Option γ → List (List α) → Prop
  | last {k c items} (h : read k c = some (items, none)) : Follows k c [items]
  | next {k c items v pages} (h : read k c = some (items, some v))
      (hp : Follows (k + 1) (some v) pages) : Follows k c (items :: pages)

/-- one read and the next -/
def Next (s t : Nat × Option γ) : Prop :=
  ∃ items v, read s.1 s.2 = some (items, some v) ∧ t = (s.1 + 1, some v)

def Reached : Nat × Option γ → Nat × Option γ → Prop := ReflTransGen (Next read)

variable {read}

theorem next_iff {s t : Nat × Option γ} {items : List α} {v : γ}
    (h : read s.1 s.2 = some (items, some v)) : Next read s t ↔ t = (s.1 + 1, some v) := by
  constructor
  · rintro ⟨items', v', h', rfl⟩
    rw [h, Option.some.injEq, Prod.mk.injEq, Option.some.injEq] at h'
    rw [h'.2]
  · rintro rfl
    exact ⟨items, v, h, rfl⟩

/-- the reads reached from a page with a next cursor: its own, and those reached from the next -/
theorem reached_next {s t : Nat × Option γ} {items : List α} {v : γ}
    (h : read s.1 s.2 = some (items, some v)) :
    Reached read s t ↔ t = s ∨ Reached read (s.1 + 1, some v) t := by
  rw [Reached, ReflTransGen.cases_head_iff]
  constructor
  · rintro (rfl | ⟨u, hu, hr⟩)
    · exact .inl rfl
    · rw [(next_iff h).mp hu] at hr
      exact .inr hr
  · rintro (rfl | hr)
    · exact .inl rfl
    · exact .inr ⟨_, (next_iff h).mpr rfl, hr⟩

theorem reached_last {s t : Nat × Option γ} (h : ∀ items v, read s.1 s.2 ≠ some (items, some v)) :
    Reached read s t ↔ t = s := by
  rw [Reached, ReflTransGen.cases_head_iff]
  constructor
  · rintro (rfl | ⟨u, ⟨items, v, hu, -⟩, -⟩)
    · rfl
    · exact absurd hu (h items v)
  · rintro rfl
    exact .inl rfl

theorem Follows.unique {k : Nat} {c : Option γ} {pages pages' : List (List α)}
    (h : Follows read k c pages) (h' : Follows read k c pages') : pages = pages' := by
  induction h generalizing pages' with
  | last h =>
    cases h' with
    | last h' =>
      rw [h, Option.some.injEq, Prod.mk.injEq] at h'
      rw [h'.1]
    | next h' _ =>
      rw [h] at h'
      cases h'
  | next h _ ih =>
    cases h' with
    | last h' =>
      rw [h] at h'
      cases h'
    | next h' hp' =>
      rw [h] at h'
      cases h'
      rw [ih hp']

theorem Follows.succeeds {k : Nat} {c : Option γ} {pages : List (List α)}
    (h : Follows read k c pages) : ∀ s, Reached read (k, c) s → (read s.1 s.2).isSome := by
  induction h with
  | @last k c items h =>
    intro s hs
    rw [(reached_last (s := (k, c)) fun items v h' => nomatch h.symm.trans h').mp hs, h]
    rfl
  | @next k c items v pages h hp ih =>
    intro s hs
    rcases (reached_next (s := (k, c)) h).mp hs with rfl | hs
    · rw [h]
      rfl
    · exact ih s hs

/-- **where every next cursor is lower, the listing ends unless a read fails** -/
theorem exists_follows_iff (μ : Nat → Option γ → Nat)
    (hμ : ∀ k c items v, read k c = some (items, some v) → μ (k + 1) (some v) < μ k c)
    (k : Nat) (c : Option γ) :
    (∃ pages, Follows read k c pages) ↔ ∀ s, Reached read (k, c) s → (read s.1 s.2).isSome := by
  constructor
  · rintro ⟨pages, h⟩
    exact h.succeeds
  · intro h
    induction hn : μ k c using Nat.strongRecOn generalizing k c with
    | _ n ih =>
      obtain ⟨⟨items, next⟩, hr⟩ := Option.isSome_iff_exists.mp (h (k, c) ReflTransGen.refl)
      cases next with
      | none => exact ⟨[items], .last hr⟩
      | some v =>
        obtain ⟨pages, hp⟩ := ih (μ (k + 1) (some v)) (hn ▸ hμ k c items v hr) (k + 1) (some v)
          (fun s hs => h s ((reached_next (s := (k, c)) hr).mpr (.inr hs))) rfl
        exact ⟨items :: pages, .next hr hp⟩

end Reads

section View
variable {α β γ : Type*} (f : α → β) (read : Nat → Option γ → Option (List α × Option γ))

/-- the reads with a view of every row -/
def view (k : Nat) (c : Option γ) : Option (List β × Option γ) :=
  (read k c).map fun p => (p.1.map f, p.2)

variable {f read}

theorem next_view (s t : Nat × Option γ) : Next (view f read) s t ↔ Next read s t := by
  constructor
  · rintro ⟨items, v, h, ht⟩
    obtain ⟨⟨xs, n⟩, hx, he⟩ := Option.map_eq_some_iff.mp h
    rw [Prod.mk.injEq] at he
    exact ⟨xs, v, by rw [hx, ← he.2], ht⟩
  · rintro ⟨items, v, h, ht⟩
    exact ⟨items.map f, v, by rw [view, h, Option.map_some], ht⟩

theorem reached_view : Reached (view f read) = Reached read := by
  have h : Next (view f read) = Next read := by
    funext s t
    exact propext (next_view s t)
  rw [Reached, Reached, h]

theorem Follows.view {k : Nat} {c : Option γ} {pages : List (List α)}
    (h : Follows read k c pages) : Follows (view f read) k c (pages.map (List.map f)) := by
  induction h with
  | last h =>
    refine .last ?_
    rw [Paging.view, h, Option.map_some]
  | next h _ ih =>
    refine .next ?_ ih
    rw [Paging.view, h, Option.map_some]

theorem Follows.of_view {k : Nat} {c : Option γ} {pages : List (List β)}
    (h : Follows (Paging.view f read) k c pages) :
    ∃ xs, Follows read k c xs ∧ pages = xs.map (List.map f) := by
  induction h with
  | last h =>
    obtain ⟨⟨xs, n⟩, hx, he⟩ := Option.map_eq_some_iff.mp h
    rw [Prod.mk.injEq] at he
    obtain ⟨rfl, rfl⟩ := he
    exact ⟨[xs], .last hx, rfl⟩
  | next h _ ih =>
    obtain ⟨⟨xs, n⟩, hx, he⟩ := Option.map_eq_some_iff.mp h
    rw [Prod.mk.injEq] at he
    obtain ⟨rfl, rfl⟩ := he
    obtain ⟨ys, hy, rfl⟩ := ih
    exact ⟨xs :: ys, .next hx hy, rfl⟩

end View

/-! ## pages in the order of a key -/

section Keyed
variable {α γ τ κ : Type*} [LinearOrder κ]

/-- a request without a cursor admits every key -/
def passes (admits : γ → κ → Bool) (c : Option γ) (x : κ) : Bool := c.all fun v => admits v x

/-- `items` are the first rows that the cursor admits, by descending key, and `rest` the others; the
next cursor, if any, admits what is below the bound of the last item -/
structure IsPage (tag : α → τ) (key : τ → κ) (bound : κ → κ) (admits : γ → κ → Bool) (limit : Nat)
    (rows : List α) (c : Option γ) (items : List α) (next : Option γ) (rest : List α) : Prop where
  nearest : Nearest (fun r => OrderDual.toDual (key (tag r))) limit
    (rows.filter fun r => passes admits c (key (tag r))) items rest
  last : next = none → rest = []
  bound : ∀ v, next = some v → ∃ r ∈ items, (∀ a ∈ items, key (tag r) ≤ key (tag a)) ∧
    ∀ x, admits v x = true ↔ x < bound (key (tag r))

/-- a listing over rows that change from read to read; the tag of a row says which row it is -/
structure Listing (tag : α → τ) (key : τ → κ) (bound : κ → κ) (admits : γ → κ → Bool) (limit : Nat)
    (rows : Nat → List α) (read : Nat → Option γ → Option (List α × Option γ)) : Prop where
  page : ∀ k c items next, read k c = some (items, next) →
    ∃ rest, IsPage tag key bound admits limit (rows k) c items next rest
  nodup : ∀ k, ((rows k).map tag).Nodup
  bound_le : ∀ x, bound x ≤ x

/-- the tag is still to come, the page does not have it, and the next cursor no longer admits it -/
def Dropped (tag : α → τ) (key : τ → κ) (admits : γ → κ → Bool)
    (read : Nat → Option γ → Option (List α × Option γ)) (i : τ) (s : Nat × Option γ) : Prop :=
  ∃ items v, read s.1 s.2 = some (items, some v) ∧ passes admits s.2 (key i) = true ∧
    i ∉ items.map tag ∧ admits v (key i) = false

/-- a cursor that admits a key admits the lower ones -/
def Down (admits : γ → κ → Bool) (c : Option γ) : Prop :=
  ∀ x y, x ≤ y → passes admits c y = true → passes admits c x = true

theorem down_none (admits : γ → κ → Bool) : Down admits none := fun _ _ _ _ => rfl

variable {tag : α → τ} {key : τ → κ} {bound : κ → κ} {admits : γ → κ → Bool} {limit : Nat}
  {rows : Nat → List α} {read : Nat → Option γ → Option (List α × Option γ)}

/-- one row more than the page says whether there is a next page -/
theorem lt_length_lookAhead (xs : List α) (limit : Nat) :
    limit < (xs.take (limit + 1)).length ↔ limit < xs.length := by
  rw [List.length_take]
  omega

theorem take_lookAhead (xs : List α) (limit : Nat) :
    (if limit < (xs.take (limit + 1)).length then (xs.take (limit + 1)).take limit
      else xs.take (limit + 1)) = xs.take limit := by
  split
  · rw [List.take_take, Nat.min_eq_left (Nat.le_succ limit)]
  next h =>
    rw [lt_length_lookAhead] at h
    rw [List.take_of_length_le (by omega), List.take_of_length_le (by omega)]

/-- the last of a sorted page is the least -/
theorem le_of_getLast? {f : α → κ} {xs : List α} (hs : xs.Pairwise fun a b => f b ≤ f a) {r : α}
    (hr : xs.getLast? = some r) : ∀ a ∈ xs, f r ≤ f a := by
  obtain ⟨ys, rfl⟩ := List.getLast?_eq_some_iff.mp hr
  rw [List.pairwise_append] at hs
  intro a ha
  rcases List.mem_append.mp ha with ha | ha
  · exact hs.2.2 a ha r (List.mem_singleton.mpr rfl)
  · rw [List.mem_singleton.mp ha]

/-- the admitted rows in order, cut after the limit, with a cursor made of the last row -/
theorem IsPage.of_take {rs xs : List α} {c next : Option γ}
    (hperm : xs.Perm (rs.filter fun r => passes admits c (key (tag r))))
    (hsorted : xs.Pairwise fun a b => key (tag b) ≤ key (tag a))
    (hnone : next = none → xs.length ≤ limit)
    (hsome : ∀ v, next = some v → ∃ r, (xs.take limit).getLast? = some r ∧
      ∀ x, admits v x = true ↔ x < bound (key (tag r))) :
    IsPage tag key bound admits limit rs c (xs.take limit) next (xs.drop limit) where
  nearest := Nearest.of_sorted hperm hsorted
  last := fun h => List.drop_eq_nil_of_le (hnone h)
  bound := by
    intro v hv
    obtain ⟨r, hr, hx⟩ := hsome v hv
    exact ⟨r, List.mem_of_getLast? hr, le_of_getLast? (hsorted.take (i := limit)) hr, hx⟩

namespace Listing
variable (L : Listing tag key bound admits limit rows read) {k : Nat} {c : Option γ}
  {items : List α} {next : Option γ} {v : γ} {pages : List (List α)}
include L

theorem mem_rows (h : read k c = some (items, next)) {r : α} (hr : r ∈ items) :
    r ∈ rows k ∧ passes admits c (key (tag r)) = true := by
  obtain ⟨rest, hp⟩ := L.page k c items next h
  exact List.mem_filter.mp (hp.nearest.mem hr)

theorem items_sorted (h : read k c = some (items, next)) :
    items.Pairwise fun a b => key (tag b) ≤ key (tag a) := by
  obtain ⟨rest, hp⟩ := L.page k c items next h
  exact hp.nearest.sorted.imp fun h => h

theorem length_le (h : read k c = some (items, next)) : items.length ≤ limit := by
  obtain ⟨rest, hp⟩ := L.page k c items next h
  rw [hp.nearest.length]
  exact Nat.min_le_left _ _

theorem items_nodup (h : read k c = some (items, next)) : (items.map tag).Nodup := by
  obtain ⟨rest, hp⟩ := L.page k c items next h
  have hall : (((rows k).filter fun r => passes admits c (key (tag r))).map tag).Nodup :=
    (L.nodup k).sublist (List.filter_sublist.map tag)
  rw [← (hp.nearest.perm.map tag).nodup_iff, List.map_append, List.nodup_append] at hall
  exact hall.1

/-- without a next cursor, the page has every row that was admitted -/
theorem mem_last (h : read k c = some (items, none)) {r : α} (hr : r ∈ rows k)
    (hc : passes admits c (key (tag r)) = true) : r ∈ items := by
  obtain ⟨rest, hp⟩ := L.page k c items none h
  have hm := hp.nearest.perm
  rw [hp.last rfl, List.append_nil] at hm
  exact hm.mem_iff.mpr (List.mem_filter.mpr ⟨hr, hc⟩)

/-- what the next cursor admits is below every item -/
theorem lt_of_admits (h : read k c = some (items, some v)) {x : κ} (hx : admits v x = true) {a : α}
    (ha : a ∈ items) : x < key (tag a) := by
  obtain ⟨rest, hp⟩ := L.page k c items (some v) h
  obtain ⟨r, hr, hmin, hv⟩ := hp.bound v rfl
  exact ((hv x).mp hx).trans_le ((L.bound_le _).trans (hmin a ha))

theorem down_next (h : read k c = some (items, some v)) : Down admits (some v) := by
  obtain ⟨rest, hp⟩ := L.page k c items (some v) h
  obtain ⟨r, hr, hmin, hv⟩ := hp.bound v rfl
  intro x y hxy hy
  exact (hv x).mpr (hxy.trans_lt ((hv y).mp hy))

theorem passes_of_next (hd : Down admits c) (h : read k c = some (items, some v)) {x : κ}
    (hx : admits v x = true) : passes admits c x = true := by
  obtain ⟨rest, hp⟩ := L.page k c items (some v) h
  obtain ⟨r, hr, -, -⟩ := hp.bound v rfl
  exact hd x _ (L.lt_of_admits h hx hr).le (L.mem_rows h hr).2

/-- what a later read admits was admitted before -/
theorem passes_of_reached {s t : Nat × Option γ} (hr : Reached read s t) (hd : Down admits s.2)
    {x : κ} (hx : passes admits t.2 x = true) : passes admits s.2 x = true := by
  induction hr using Relation.ReflTransGen.head_induction_on with
  | refl => exact hx
  | head hn _ ih =>
    obtain ⟨items, v, h, rfl⟩ := hn
    exact L.passes_of_next hd h (ih (L.down_next h))

theorem flatten_passes (hf : Follows read k c pages) (hd : Down admits c) {r : α}
    (hr : r ∈ pages.flatten) : passes admits c (key (tag r)) = true := by
  induction hf with
  | last h =>
    rw [List.flatten_singleton] at hr
    exact (L.mem_rows h hr).2
  | next h hp ih =>
    rw [List.flatten_cons, List.mem_append] at hr
    rcases hr with hr | hr
    · exact (L.mem_rows h hr).2
    · exact L.passes_of_next hd h (ih (L.down_next h) hr)

/-- the rows of the later pages are below those of this one -/
theorem lt_of_later (h : read k c = some (items, some v)) (hf : Follows read (k + 1) (some v) pages)
    {a b : α} (ha : a ∈ items) (hb : b ∈ pages.flatten) : key (tag b) < key (tag a) :=
  L.lt_of_admits h (L.flatten_passes hf (L.down_next h) hb) ha

theorem flatten_sorted (hf : Follows read k c pages) :
    pages.flatten.Pairwise fun a b => key (tag b) ≤ key (tag a) := by
  induction hf with
  | last h =>
    rw [List.flatten_singleton]
    exact L.items_sorted h
  | next h hp ih =>
    rw [List.flatten_cons, List.pairwise_append]
    exact ⟨L.items_sorted h, ih, fun a ha b hb => (L.lt_of_later h hp ha hb).le⟩

/-- **no row is on two pages, or twice on one** -/
theorem tags_nodup (hf : Follows read k c pages) : (pages.flatten.map tag).Nodup := by
  induction hf with
  | last h =>
    rw [List.flatten_singleton]
    exact L.items_nodup h
  | next h hp ih =>
    rw [List.flatten_cons, List.map_append, List.nodup_append]
    refine ⟨L.items_nodup h, ih, ?_⟩
    intro i hi j hj he
    obtain ⟨a, ha, rfl⟩ := List.mem_map.mp hi
    obtain ⟨b, hb, rfl⟩ := List.mem_map.mp hj
    exact absurd (congrArg key he) (L.lt_of_later h hp ha hb).ne'

theorem page_length_le (hf : Follows read k c pages) : ∀ page ∈ pages, page.length ≤ limit := by
  induction hf with
  | last h =>
    intro page hp
    rw [List.mem_singleton.mp hp]
    exact L.length_le h
  | next h _ ih =>
    intro page hp
    rcases List.mem_cons.mp hp with rfl | hp
    · exact L.length_le h
    · exact ih page hp

/-- **a row that stays is on a page exactly when no read that is reached drops it** -/
theorem mem_pages_iff (hf : Follows read k c pages) (hd : Down admits c) {i : τ}
    (hi : passes admits c (key i) = true) (hstay : ∀ n, i ∈ (rows n).map tag) :
    i ∈ pages.flatten.map tag ↔
      ∀ s, Reached read (k, c) s → ¬ Dropped tag key admits read i s := by
  induction hf with
  | @last k c items h =>
    constructor
    · rintro - s hs ⟨items', v, h', -⟩
      rw [reached_last (s := (k, c)) fun items v h' => nomatch h.symm.trans h'] at hs
      rw [hs] at h'
      exact nomatch h.symm.trans h'
    · intro _
      obtain ⟨r, hr, rfl⟩ := List.mem_map.mp (hstay k)
      rw [List.flatten_singleton]
      exact List.mem_map_of_mem (L.mem_last h hr hi)
  | @next k c items v pages h hp ih =>
    rw [List.flatten_cons, List.map_append, List.mem_append]
    by_cases hit : i ∈ items.map tag
    · refine ⟨fun _ s hs hdrop => ?_, fun _ => .inl hit⟩
      obtain ⟨a, ha, rfl⟩ := List.mem_map.mp hit
      obtain ⟨items', v', h', hpass, hn, -⟩ := hdrop
      rcases (reached_next (s := (k, c)) h).mp hs with rfl | hs
      · rw [h] at h'
        cases h'
        exact hn hit
      · have hv := L.passes_of_reached hs (L.down_next h) hpass
        exact absurd (L.lt_of_admits h hv ha) (lt_irrefl _)
    · rw [or_iff_right hit]
      by_cases hv : admits v (key i) = true
      · rw [ih (L.down_next h) hv]
        constructor
        · intro hall s hs
          rcases (reached_next (s := (k, c)) h).mp hs with rfl | hs
          · rintro ⟨items', v', h', -, -, hdrop⟩
            rw [h] at h'
            cases h'
            rw [hv] at hdrop
            cases hdrop
          · exact hall s hs
        · exact fun hall s hs => hall s ((reached_next (s := (k, c)) h).mpr (.inr hs))
      · constructor
        · intro hm
          obtain ⟨b, hb, rfl⟩ := List.mem_map.mp hm
          exact absurd (L.flatten_passes hp (L.down_next h) hb) hv
        · intro hall
          exact absurd ⟨items, v, h, hi, hit, Bool.eq_false_iff.mpr hv⟩
            (hall (k, c) Relation.ReflTransGen.refl)

theorem mem_of_mem_flatten (hf : Follows read k c pages) {r : α} (hr : r ∈ pages.flatten) :
    ∃ n, r ∈ rows n := by
  induction hf with
  | last h =>
    rw [List.flatten_singleton] at hr
    exact ⟨_, (L.mem_rows h hr).1⟩
  | next h _ ih =>
    rw [List.flatten_cons, List.mem_append] at hr
    rcases hr with hr | hr
    · exact ⟨_, (L.mem_rows h hr).1⟩
    · exact ih hr

/-- a row is only dropped between the last item of its page and the bound of that item -/
theorem close_of_dropped {s : Nat × Option γ} {i : τ} (hi : i ∈ (rows s.1).map tag)
    (h : Dropped tag key admits read i s) :
    ∃ items next r, read s.1 s.2 = some (items, next) ∧ r ∈ items ∧ i ∉ items.map tag ∧
      bound (key (tag r)) ≤ key i ∧ key i ≤ key (tag r) := by
  obtain ⟨items, v, hr, hpass, hn, hv⟩ := h
  obtain ⟨rest, hp⟩ := L.page s.1 s.2 items (some v) hr
  obtain ⟨r, hri, -, hx⟩ := hp.bound v rfl
  obtain ⟨a, ha, rfl⟩ := List.mem_map.mp hi
  refine ⟨items, some v, r, hr, hri, hn, ?_, ?_⟩
  · rw [← not_lt, ← hx, hv]
    exact Bool.false_ne_true
  · have hm := hp.nearest.perm.mem_iff.mpr (List.mem_filter.mpr ⟨ha, hpass⟩)
    rcases List.mem_append.mp hm with hm | hm
    · exact absurd (List.mem_map_of_mem hm) hn
    · exact hp.nearest.nearer r hri a hm

end Listing
end Keyed

end Paging
