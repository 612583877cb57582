import Mathlib.Data.List.Sort
import Mathlib.Order.Defs.LinearOrder

/-!
# The nearest of a list

* `Nearest dist k all chosen rest`   `chosen` are `k` of `all` (all of them, where there are fewer) in
                          order of distance, `rest` are the others, and none of those is nearer;
* `Nearest.of_sorted`     a list in order of distance, cut after `k`;
* `Nearest.of_filter`     a list in order of distance, filtered and then cut after `k`: the nearest of
                          those that meet the filter;
* `byDistance`, `nearest_byDistance`  the stable sort by distance gives the nearest;
* `exists_of_perm_map`    a reordered image is the image of a reordered list.
-/

structure Nearest {α δ : Type*} [LE δ] (dist : α → δ) (k : ℕ) (all chosen rest : List α) : Prop where
  perm : (chosen ++ rest).Perm all
  length : chosen.length = min k all.length
  sorted : chosen.Pairwise fun a b => dist a ≤ dist b
  nearer : ∀ a ∈ chosen, ∀ b ∈ rest, dist a ≤ dist b

namespace Nearest
variable {α β δ : Type*}

section
variable [LE δ] {dist : α → δ} {k : ℕ} {all chosen rest xs : List α}

theorem of_sorted (h : xs.Perm all) (hs : xs.Pairwise fun a b => dist a ≤ dist b) :
    Nearest dist k all (xs.take k) (xs.drop k) where
  perm := by
    rw [List.take_append_drop]
    exact h
  length := by rw [List.length_take, h.length_eq]
  sorted := hs.take
  nearer := fun _ ha _ hb => hs.rel_of_mem_take_of_mem_drop ha hb

theorem of_filter (p : α → Bool) (h : xs.Perm all) (hs : xs.Pairwise fun a b => dist a ≤ dist b) :
    Nearest dist k (all.filter p) ((xs.filter p).take k) ((xs.filter p).drop k) :=
  of_sorted (h.filter p) (hs.filter p)

/-- nothing is left out where there are no more than `k` -/
theorem rest_eq_nil (h : Nearest dist k all chosen rest) (hk : all.length ≤ k) : rest = [] := by
  have hlen := h.perm.length_eq
  rw [List.length_append, h.length, Nat.min_eq_right hk] at hlen
  exact List.length_eq_zero_iff.mp (by omega)

theorem perm_of_le (h : Nearest dist k all chosen rest) (hk : all.length ≤ k) : chosen.Perm all := by
  have hp := h.perm
  rw [h.rest_eq_nil hk, List.append_nil] at hp
  exact hp

theorem mem (h : Nearest dist k all chosen rest) {a : α} (ha : a ∈ chosen) : a ∈ all :=
  h.perm.mem_iff.mp (List.mem_append_left _ ha)

end

section
variable [LinearOrder δ]

/-- the stable sort by distance -/
def byDistance (dist : α → δ) (xs : List α) : List α := xs.mergeSort fun a b => dist a ≤ dist b

theorem byDistance_perm (dist : α → δ) (xs : List α) : (byDistance dist xs).Perm xs :=
  List.mergeSort_perm xs _

theorem byDistance_sorted (dist : α → δ) (xs : List α) :
    (byDistance dist xs).Pairwise fun a b => dist a ≤ dist b := by
  have h : (byDistance dist xs).Pairwise fun a b => decide (dist a ≤ dist b) = true := by
    apply List.pairwise_mergeSort
    · intro a b c hab hbc
      exact decide_eq_true (le_trans (of_decide_eq_true hab) (of_decide_eq_true hbc))
    · intro a b
      rw [Bool.or_eq_true, decide_eq_true_iff, decide_eq_true_iff]
      exact le_total (dist a) (dist b)
  exact h.imp of_decide_eq_true

theorem nearest_byDistance (dist : α → δ) (k : ℕ) (xs : List α) :
    Nearest dist k xs ((byDistance dist xs).take k) ((byDistance dist xs).drop k) :=
  of_sorted (byDistance_perm dist xs) (byDistance_sorted dist xs)

/-- the sort leaves a list that stands in order as it is -/
theorem byDistance_eq {dist : α → δ} {xs : List α} (h : xs.Pairwise fun a b => dist a ≤ dist b) :
    byDistance dist xs = xs :=
  List.mergeSort_of_pairwise (h.imp fun hab => decide_eq_true hab)

end
end Nearest

theorem exists_of_perm_map {α β : Type*} {f : α → β} {xs : List β} {ys : List α}
    (h : xs.Perm (ys.map f)) : ∃ zs : List α, zs.Perm ys ∧ xs = zs.map f := by
  generalize hm : ys.map f = ms at h
  induction h generalizing ys with
  | nil => exact ⟨[], by rw [List.map_eq_nil_iff.mp hm], rfl⟩
  | cons x _ ih =>
    cases ys with
    | nil => exact absurd hm (by simp)
    | cons y ys =>
      obtain ⟨rfl, hys⟩ := List.cons.inj hm
      obtain ⟨zs, hz, rfl⟩ := ih hys
      exact ⟨y :: zs, hz.cons y, rfl⟩
  | swap x x' l =>
    match ys, hm with
    | y :: y' :: ys, hm =>
      obtain ⟨rfl, hys⟩ := List.cons.inj hm
      obtain ⟨rfl, rfl⟩ := List.cons.inj hys
      exact ⟨y' :: y :: ys, List.Perm.swap y y' ys, rfl⟩
  | trans _ _ ih ih' =>
    obtain ⟨zs, hz, hzs⟩ := ih' hm
    obtain ⟨ws, hw, hws⟩ := ih hzs.symm
    exact ⟨ws, hw.trans hz, hws⟩
