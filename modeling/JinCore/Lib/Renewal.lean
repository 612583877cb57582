import Mathlib.Data.List.Basic

/-!
# A value that is renewed when it is old

A cache holds a value and the instant it was made at; a use takes it while it is younger than a
lifetime, and makes another one otherwise.

* `Renewal.use`        one use, with the value that is made if one has to be;
* `Kept`, `kept_use`   what is used has been made, and is younger than the lifetime;
* `InTime`, `inTime_use`   where the clock does not go back: what is used has been made before, and two
                       values are made at least a lifetime apart.
-/

/-- the values that were made and the uses, newest first -/
structure Renewal (ν : Type*) where
  cached : Option (ν × Int)
  made : List (ν × Int)
  uses : List (Int × ν)

namespace Renewal
variable {ν : Type*} {lifetime : Int} {s : Renewal ν} {now : Int} {fresh : ν}

def empty (ν : Type*) : Renewal ν := ⟨none, [], []⟩

/-- the value that is used, and the cache after it -/
def use (lifetime : Int) (s : Renewal ν) (now : Int) (fresh : ν) : ν × Renewal ν :=
  match s.cached.filter fun c => now - c.2 < lifetime with
  | some c => (c.1, { s with uses := (now, c.1) :: s.uses })
  | none => (fresh, ⟨some (fresh, now), (fresh, now) :: s.made, (now, fresh) :: s.uses⟩)

theorem use_cases (lifetime : Int) (s : Renewal ν) (now : Int) (fresh : ν) :
    (∃ v madeAt, s.cached = some (v, madeAt) ∧ now - madeAt < lifetime ∧
      s.use lifetime now fresh = (v, { s with uses := (now, v) :: s.uses })) ∨
    ((∀ v madeAt, s.cached = some (v, madeAt) → lifetime ≤ now - madeAt) ∧
      s.use lifetime now fresh = (fresh, ⟨some (fresh, now), (fresh, now) :: s.made, (now, fresh) :: s.uses⟩)) := by
  unfold use
  cases hcached : s.cached with
  | none =>
    right
    exact ⟨fun v madeAt h => (by cases h), rfl⟩
  | some c =>
    by_cases hyoung : now - c.2 < lifetime
    · left
      refine ⟨c.1, c.2, rfl, hyoung, ?_⟩
      rw [Option.filter_some, if_pos (decide_eq_true hyoung)]
    · right
      refine ⟨fun v madeAt h => ?_, ?_⟩
      · cases h
        omega
      · rw [Option.filter_some, if_neg (by rw [decide_eq_true_eq]; exact hyoung)]

/-- what is cached was made last, and what was used was young -/
structure Kept (lifetime : Int) (s : Renewal ν) : Prop where
  cached : s.cached = s.made.head?
  young : ∀ u ∈ s.uses, ∃ m ∈ s.made, m.1 = u.2 ∧ u.1 < m.2 + lifetime

theorem kept_empty : Kept lifetime (empty ν) := ⟨rfl, fun _ h => absurd h List.not_mem_nil⟩

theorem kept_use (h : Kept lifetime s) (hlifetime : 0 < lifetime) (now : Int) (fresh : ν) :
    Kept lifetime (s.use lifetime now fresh).2 := by
  rcases use_cases lifetime s now fresh with ⟨v, madeAt, hcached, hyoung, huse⟩ | ⟨-, huse⟩
  · rw [huse]
    refine ⟨h.cached, fun u hu => ?_⟩
    rcases List.mem_cons.mp hu with rfl | hu
    · rw [h.cached] at hcached
      exact ⟨(v, madeAt), List.mem_of_head? hcached, rfl, by dsimp only; omega⟩
    · exact h.young u hu
  · rw [huse]
    refine ⟨rfl, fun u hu => ?_⟩
    rcases List.mem_cons.mp hu with rfl | hu
    · exact ⟨(fresh, now), List.mem_cons_self, rfl, by dsimp only; omega⟩
    · obtain ⟨m, hm, hmade⟩ := h.young u hu
      exact ⟨m, List.mem_cons_of_mem _ hm, hmade⟩

/-- no use comes before an earlier one -/
def Later (s : Renewal ν) (now : Int) : Prop := ∀ u ∈ s.uses, u.1 ≤ now

structure InTime (lifetime : Int) (s : Renewal ν) : Prop where
  apart : s.made.Pairwise fun later earlier => earlier.2 + lifetime ≤ later.2
  aged : ∀ u ∈ s.uses, ∃ m ∈ s.made, m.1 = u.2 ∧ m.2 ≤ u.1 ∧ u.1 < m.2 + lifetime
  past : ∀ m ∈ s.made, ∃ u ∈ s.uses, m.2 ≤ u.1

theorem inTime_empty : InTime lifetime (empty ν) :=
  ⟨List.Pairwise.nil, fun _ h => absurd h List.not_mem_nil, fun _ h => absurd h List.not_mem_nil⟩

theorem inTime_use (h : InTime lifetime s) (hkept : Kept lifetime s) (hlifetime : 0 < lifetime)
    (hnow : s.Later now) (fresh : ν) : InTime lifetime (s.use lifetime now fresh).2 := by
  have hpast : ∀ m ∈ s.made, m.2 ≤ now := by
    intro m hm
    obtain ⟨u, hu, hle⟩ := h.past m hm
    exact Int.le_trans hle (hnow u hu)
  have hgrow (v : ν) : ∀ m ∈ s.made, ∃ u ∈ (now, v) :: s.uses, m.2 ≤ u.1 := by
    intro m hm
    obtain ⟨u, hu, hle⟩ := h.past m hm
    exact ⟨u, List.mem_cons_of_mem _ hu, hle⟩
  rcases use_cases lifetime s now fresh with ⟨v, madeAt, hcached, hyoung, huse⟩ | ⟨hold, huse⟩
  · rw [huse]
    refine ⟨h.apart, fun u hu => ?_, hgrow v⟩
    rcases List.mem_cons.mp hu with rfl | hu
    · rw [hkept.cached] at hcached
      have hmade := List.mem_of_head? hcached
      exact ⟨(v, madeAt), hmade, rfl, hpast _ hmade, by dsimp only; omega⟩
    · exact h.aged u hu
  · rw [huse]
    refine ⟨?_, fun u hu => ?_, fun m hm => ?_⟩
    · rw [List.pairwise_cons]
      refine ⟨fun m hm => ?_, h.apart⟩
      -- the one that was made last is old, and the others are older
      cases hmade : s.made with
      | nil =>
        rw [hmade] at hm
        exact absurd hm List.not_mem_nil
      | cons last made =>
        have hlast := hold last.1 last.2 (by rw [hkept.cached, hmade]; rfl)
        have hapart := h.apart
        rw [hmade, List.pairwise_cons] at hapart
        rw [hmade] at hm
        rcases List.mem_cons.mp hm with rfl | hm
        · dsimp only
          omega
        · have hbefore := hapart.1 m hm
          dsimp only
          omega
    · rcases List.mem_cons.mp hu with rfl | hu
      · exact ⟨(fresh, now), List.mem_cons_self, rfl, Int.le_refl now, by dsimp only; omega⟩
      · obtain ⟨m, hm, hmade⟩ := h.aged u hu
        exact ⟨m, List.mem_cons_of_mem _ hm, hmade⟩
    · rcases List.mem_cons.mp hm with rfl | hm
      · exact ⟨(now, fresh), List.mem_cons_self, Int.le_refl now⟩
      · exact hgrow fresh m hm

end Renewal
