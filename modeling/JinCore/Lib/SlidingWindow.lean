import Mathlib.Algebra.Order.Group.Defs
import Mathlib.Algebra.Order.Group.Basic
import Mathlib.Data.Finset.Dedup
import Mathlib.Data.Finset.Order
import Mathlib.Data.List.Basic
import Mathlib.Order.Directed

/-!
# A sliding window

A limiter keeps the times of the calls that it let in.  A call drops the times that have left the
window and is let in if fewer than the limit are left.

* `prune`, `call`          a call, and the queue that it leaves;
* `Run`                    a run, with all the times that were let in;
* `Kept`, `kept_run`       the queue is the part of these that is still in the window;
* `rejected_iff`           a call is rejected if and only if its window is full;
* `outcomes_rejected`      a rejected call changes no later outcome.
-/

namespace SlidingWindow

section
variable {T : Type*} [LinearOrder T]

theorem dropWhile_sorted {queue : List T} (cut : T) (h : queue.Pairwise (· ≤ ·)) :
    queue.dropWhile (fun t => decide (t ≤ cut)) = queue.filter fun t => decide (cut < t) := by
  induction queue with
  | nil => rfl
  | cons t queue ih =>
    rw [List.pairwise_cons] at h
    by_cases ht : t ≤ cut
    · rw [List.dropWhile_cons_of_pos (by simpa using ht), List.filter_cons_of_neg (by simpa using ht)]
      exact ih h.2
    · rw [List.dropWhile_cons_of_neg (by simpa using ht), List.filter_eq_self.mpr]
      intro t' ht'
      rw [not_le] at ht
      rcases List.mem_cons.mp ht' with rfl | hmem
      · exact decide_eq_true ht
      · exact decide_eq_true (lt_of_lt_of_le ht (h.1 t' hmem))

theorem dropWhile_twice {queue : List T} {cut cut' : T} (h : cut ≤ cut') :
    (queue.dropWhile fun t => decide (t ≤ cut)).dropWhile (fun t => decide (t ≤ cut'))
      = queue.dropWhile fun t => decide (t ≤ cut') := by
  induction queue with
  | nil => rfl
  | cons t queue ih =>
    by_cases ht : t ≤ cut
    · rw [List.dropWhile_cons_of_pos (by simpa using ht), ih,
        List.dropWhile_cons_of_pos (by simpa using le_trans ht h)]
    · rw [List.dropWhile_cons_of_neg (by simpa using ht)]

end

variable {T : Type*} [AddCommGroup T] [LinearOrder T]

section
variable (limit : Nat) (window : T)

def prune (now : T) (queue : List T) : List T := queue.dropWhile fun t => decide (t ≤ now - window)

/-- the queue after a call, and whether it was let in -/
def call (queue : List T) (now : T) : List T × Bool :=
  if limit ≤ (prune window now queue).length then (prune window now queue, false)
  else (prune window now queue ++ [now], true)

/-- the outcomes of the calls that meet this queue -/
def outcomes : List T → List T → List Bool
  | _, [] => []
  | queue, now :: calls =>
    (call limit window queue now).2 :: outcomes (call limit window queue now).1 calls

/-- the queue, and all that was let in so far -/
structure Run (T : Type*) where
  queue : List T
  admitted : List T

def Run.step (run : Run T) (now : T) : Run T :=
  ⟨(call limit window run.queue now).1,
    if (call limit window run.queue now).2 then run.admitted ++ [now] else run.admitted⟩

def Run.empty : Run T := ⟨[], []⟩

/-- the calls that were let in after `a` and until a window later -/
def countIn (a : T) (times : List T) : Nat :=
  times.countP fun t => decide (a < t) && decide (t ≤ a + window)

/-- what a call at `now` relies on -/
structure Kept (run : Run T) (now : T) : Prop where
  sorted : run.admitted.Pairwise (· ≤ ·)
  past : ∀ t ∈ run.admitted, t ≤ now
  queue : ∃ cut, cut ≤ now - window ∧ run.queue = run.admitted.filter fun t => decide (cut < t)
  bounded : ∀ a, countIn window a run.admitted ≤ limit

end

variable [IsOrderedAddMonoid T] {limit : Nat} {window : T} {run : Run T} {now : T}

theorem kept_empty (now : T) : Kept limit window .empty now :=
  ⟨List.Pairwise.nil, fun _ h => absurd h List.not_mem_nil, ⟨now - window, le_refl _, rfl⟩,
    fun _ => Nat.zero_le _⟩

theorem Kept.later (h : Kept limit window run now) {now' : T} (hle : now ≤ now') :
    Kept limit window run now' := by
  obtain ⟨cut, hcut, hqueue⟩ := h.queue
  exact ⟨h.sorted, fun t ht => le_trans (h.past t ht) hle,
    ⟨cut, le_trans hcut (sub_le_sub_right hle window), hqueue⟩, h.bounded⟩

theorem Kept.prune (h : Kept limit window run now) :
    prune window now run.queue = run.admitted.filter fun t => decide (now - window < t) := by
  obtain ⟨cut, hcut, hqueue⟩ := h.queue
  rw [SlidingWindow.prune, hqueue, dropWhile_sorted _ (h.sorted.sublist List.filter_sublist),
    List.filter_filter]
  refine List.filter_congr fun t _ => ?_
  by_cases ht : now - window < t
  · simp [ht, lt_of_le_of_lt hcut ht]
  · simp [ht]

/-- what is left of the queue is what was let in since a window ago -/
theorem Kept.length_prune (h : Kept limit window run now) :
    (SlidingWindow.prune window now run.queue).length = countIn window (now - window) run.admitted := by
  rw [h.prune, ← List.countP_eq_length_filter, countIn]
  refine List.countP_congr fun t ht => ?_
  rw [sub_add_cancel]
  simp [h.past t ht]

/-- **a call is rejected if and only if its window is full** -/
theorem Kept.rejected_iff (h : Kept limit window run now) :
    (call limit window run.queue now).2 = false
      ↔ countIn window (now - window) run.admitted = limit := by
  rw [call, h.length_prune]
  have hbounded := h.bounded (now - window)
  by_cases hfull : limit ≤ countIn window (now - window) run.admitted
  · rw [if_pos hfull]
    exact ⟨fun _ => le_antisymm hbounded hfull, fun _ => rfl⟩
  · rw [if_neg hfull]
    exact ⟨fun hfalse => (nomatch hfalse), fun heq => absurd (Eq.ge heq) hfull⟩

omit [IsOrderedAddMonoid T] in
theorem countIn_snoc (a now : T) (times : List T) :
    countIn window a (times ++ [now])
      = countIn window a times + if a < now ∧ now ≤ a + window then 1 else 0 := by
  rw [countIn, List.countP_append, List.countP_singleton, countIn]
  by_cases hin : a < now ∧ now ≤ a + window
  · simp [hin.1, hin.2]
  · rw [if_neg hin, if_neg]
    rw [Bool.and_eq_true, decide_eq_true_iff, decide_eq_true_iff]
    exact hin

/-- one call -/
theorem Kept.step (h : Kept limit window run now) (hwindow : 0 < window) :
    Kept limit window (run.step limit window now) now := by
  have hlength := h.length_prune
  have hprune := h.prune
  by_cases hfull : limit ≤ (SlidingWindow.prune window now run.queue).length
  · have hstep : run.step limit window now
        = ⟨SlidingWindow.prune window now run.queue, run.admitted⟩ := by
      simp [Run.step, call, hfull]
    rw [hstep]
    exact ⟨h.sorted, h.past, ⟨now - window, le_refl _, hprune⟩, h.bounded⟩
  · have hstep : run.step limit window now
        = ⟨SlidingWindow.prune window now run.queue ++ [now], run.admitted ++ [now]⟩ := by
      simp [Run.step, call, hfull]
    rw [hstep]
    refine ⟨?_, ?_, ⟨now - window, le_refl _, ?_⟩, fun a => ?_⟩
    · refine List.pairwise_append.mpr ⟨h.sorted, List.pairwise_singleton _ _, fun t ht t' ht' => ?_⟩
      rw [List.mem_singleton.mp ht']
      exact h.past t ht
    · intro t ht
      rcases List.mem_append.mp ht with ht | ht
      · exact h.past t ht
      · exact (List.mem_singleton.mp ht).le
    · show SlidingWindow.prune window now run.queue ++ [now] = _
      rw [List.filter_append, hprune]
      congr 1
      simp [hwindow]
    · show countIn window a (run.admitted ++ [now]) ≤ limit
      rw [countIn_snoc]
      by_cases hin : a < now ∧ now ≤ a + window
      · rw [if_pos hin]
        -- what is in the window of `a` has not left that of the call
        have hmono : countIn window a run.admitted
            ≤ countIn window (now - window) run.admitted := by
          refine List.countP_mono_left fun t ht hta => ?_
          rw [Bool.and_eq_true, decide_eq_true_iff, decide_eq_true_iff] at hta ⊢
          refine ⟨lt_of_le_of_lt (sub_le_iff_le_add.mpr hin.2) hta.1, ?_⟩
          rw [sub_add_cancel]
          exact h.past t ht
        omega
      · rw [if_neg hin]
        exact h.bounded a

/-- a run -/
theorem kept_run {calls : List T} (hwindow : 0 < window) (hsorted : calls.Pairwise (· ≤ ·))
    (hcalls : ∀ t ∈ calls, Kept limit window run t) (hnow : ∀ t ∈ calls, t ≤ now)
    (h : Kept limit window run now) :
    Kept limit window (calls.foldl (Run.step limit window) run) now := by
  induction calls generalizing run with
  | nil => exact h
  | cons t calls ih =>
    rw [List.pairwise_cons] at hsorted
    have hstep := (hcalls t List.mem_cons_self).step hwindow
    exact ih hsorted.2 (fun t' ht' => hstep.later (hsorted.1 t' ht'))
      (fun t' ht' => hnow t' (List.mem_cons_of_mem _ ht'))
      (hstep.later (hnow t List.mem_cons_self))

theorem kept_calls {calls : List T} (hwindow : 0 < window) (hsorted : calls.Pairwise (· ≤ ·))
    (hnow : ∀ t ∈ calls, t ≤ now) :
    Kept limit window (calls.foldl (Run.step limit window) .empty) now :=
  kept_run hwindow hsorted (fun t _ => kept_empty t) hnow (kept_empty now)

/-- **no window has more calls than the limit** -/
theorem countIn_le {calls : List T} (hwindow : 0 < window) (hsorted : calls.Pairwise (· ≤ ·)) (a : T) :
    countIn window a (calls.foldl (Run.step limit window) .empty).admitted ≤ limit := by
  obtain ⟨now, hnow⟩ := Finset.exists_le calls.toFinset
  exact (kept_calls hwindow hsorted fun t ht => hnow t (List.mem_toFinset.mpr ht)).bounded a

/-- **a rejected call changes no later outcome** -/
theorem outcomes_rejected {queue calls : List T} (h : (call limit window queue now).2 = false)
    (hcalls : ∀ t ∈ calls, now ≤ t) :
    outcomes limit window (call limit window queue now).1 calls = outcomes limit window queue calls := by
  have hqueue : (call limit window queue now).1 = prune window now queue := by
    rw [call] at h ⊢
    split
    · rfl
    · next hroom =>
      rw [if_neg hroom] at h
      cases h
  cases calls with
  | nil => rfl
  | cons t calls =>
    have hprune : prune window t (prune window now queue) = prune window t queue :=
      dropWhile_twice (sub_le_sub_right (hcalls t List.mem_cons_self) window)
    rw [hqueue, outcomes, outcomes, call, hprune, call]

end SlidingWindow
