import Mathlib.Data.List.Basic
import Mathlib.Tactic.Ring

/-!
# Occurrences of patterns in a list

* `occurrences ps xs`        the positions of `xs` at which one of the patterns `ps` begins;
* `occurrences_append_cons`  an element of no pattern separates what comes before from what follows;
* `occurrences_append`       nothing begins in a part without the first element of the patterns;
* `replaceFrom`              the occurrences of one pattern replaced, from left to right;
* `replaceFrom_singleton`, `replaceFrom_flatMap`   an element replaced by a code, and a code in a list
                             of codes replaced back.
-/

namespace Occurrences
variable {α : Type*} [DecidableEq α]

def begins (ps : List (List α)) (xs : List α) : Bool := ps.any fun p => p.isPrefixOf xs

def occurrences (ps : List (List α)) : List α → Nat
  | [] => 0
  | x :: xs => (begins ps (x :: xs)).toNat + occurrences ps xs

theorem isPrefixOf_append_cons {p : List α} {s : α} (hs : s ∉ p) (xs ys : List α) :
    p.isPrefixOf (xs ++ s :: ys) = p.isPrefixOf xs := by
  induction p generalizing xs with
  | nil => rfl
  | cons c p ih =>
    rw [List.mem_cons, not_or] at hs
    cases xs with
    | nil =>
      show (c == s && _) = false
      rw [beq_false_of_ne (Ne.symm hs.1), Bool.false_and]
    | cons x xs =>
      show (c == x && p.isPrefixOf (xs ++ s :: ys)) = (c == x && p.isPrefixOf xs)
      rw [ih hs.2]

theorem occurrences_append_cons {ps : List (List α)} {s : α} (hs : ∀ p ∈ ps, s ∉ p)
    (xs ys : List α) :
    occurrences ps (xs ++ s :: ys) = occurrences ps xs + occurrences ps (s :: ys) := by
  induction xs with
  | nil => exact (Nat.zero_add _).symm
  | cons x xs ih =>
    have hbegins : begins ps (x :: (xs ++ s :: ys)) = begins ps (x :: xs) := by
      rw [begins, begins, Bool.eq_iff_iff, List.any_eq_true, List.any_eq_true]
      refine exists_congr fun p => and_congr_right fun hp => ?_
      rw [← List.cons_append, isPrefixOf_append_cons (hs p hp)]
    rw [List.cons_append, occurrences, occurrences, hbegins, ih, Nat.add_assoc]

theorem isPrefixOf_cons_of_ne {p : List α} {c x : α} (hp : p.head? = some c) (hx : x ≠ c)
    (xs : List α) : p.isPrefixOf (x :: xs) = false := by
  cases p with
  | nil => cases hp
  | cons d p =>
    rw [List.head?_cons, Option.some.injEq] at hp
    show (d == x && _) = false
    rw [hp, beq_false_of_ne (Ne.symm hx), Bool.false_and]

/-- a pattern begins with `c` -/
theorem begins_of_ne {ps : List (List α)} {c x : α} (hps : ∀ p ∈ ps, p.head? = some c) (hx : x ≠ c)
    (xs : List α) : begins ps (x :: xs) = false := by
  rw [begins, List.any_eq_false]
  intro p hp
  rw [isPrefixOf_cons_of_ne (hps p hp) hx]
  exact Bool.false_ne_true

theorem occurrences_append {ps : List (List α)} {c : α} (hps : ∀ p ∈ ps, p.head? = some c)
    {xs : List α} (hc : c ∉ xs) (ys : List α) :
    occurrences ps (xs ++ ys) = occurrences ps ys := by
  induction xs with
  | nil => rfl
  | cons x xs ih =>
    rw [List.mem_cons, not_or] at hc
    rw [List.cons_append, occurrences, begins_of_ne hps (Ne.symm hc.1), ih hc.2]
    exact Nat.zero_add _

theorem occurrences_eq_zero {ps : List (List α)} {c : α} (hps : ∀ p ∈ ps, p.head? = some c)
    {xs : List α} (hc : c ∉ xs) : occurrences ps xs = 0 := by
  have h := occurrences_append hps hc []
  rwa [List.append_nil] at h

/-! ## replacing -/

/-- the first argument counts the elements of a match that are still to be dropped -/
def replaceFrom (pattern replacement : List α) : Nat → List α → List α
  | _, [] => []
  | skip + 1, _ :: xs => replaceFrom pattern replacement skip xs
  | 0, x :: xs =>
    if pattern.isPrefixOf (x :: xs) then
      replacement ++ replaceFrom pattern replacement (pattern.length - 1) xs
    else x :: replaceFrom pattern replacement 0 xs

/-- a pattern of one element -/
theorem replaceFrom_singleton (c : α) (replacement xs : List α) :
    replaceFrom [c] replacement 0 xs = xs.flatMap fun x => if x = c then replacement else [x] := by
  induction xs with
  | nil => rfl
  | cons x xs ih =>
    have hprefix : [c].isPrefixOf (x :: xs) = decide (x = c) := by
      show (c == x && true) = _
      rw [Bool.and_true, Bool.beq_eq_decide_eq]
      exact decide_eq_decide.mpr eq_comm
    rw [replaceFrom, hprefix, List.flatMap_cons]
    by_cases hx : x = c
    · rw [if_pos (decide_eq_true hx), if_pos hx]
      exact congrArg _ ih
    · rw [if_neg (by rw [decide_eq_false hx]; exact Bool.false_ne_true), if_neg hx, ih]
      rfl

theorem notMem_replaceFrom {c d : α} {replacement xs : List α} (hr : d ∉ replacement)
    (hd : d = c ∨ d ∉ xs) : d ∉ replaceFrom [c] replacement 0 xs := by
  rw [replaceFrom_singleton, List.mem_flatMap]
  rintro ⟨x, hx, hmem⟩
  split at hmem
  · exact hr hmem
  next hne =>
    rw [List.mem_singleton] at hmem
    subst hmem
    rcases hd with hd | hd
    · exact hne hd
    · exact hd hx

/-- the rest of a match is dropped -/
theorem replaceFrom_skip (pattern replacement : List α) (skip : Nat) (xs : List α) :
    replaceFrom pattern replacement skip xs
      = replaceFrom pattern replacement 0 (xs.drop skip) := by
  induction skip generalizing xs with
  | zero => rfl
  | succ skip ih =>
    cases xs with
    | nil => rfl
    | cons x xs => exact ih xs

theorem replaceFrom_match {c : α} {pattern : List α} (hp : pattern.head? = some c)
    (replacement ys : List α) :
    replaceFrom pattern replacement 0 (pattern ++ ys)
      = replacement ++ replaceFrom pattern replacement 0 ys := by
  cases pattern with
  | nil => cases hp
  | cons d pattern =>
    have hmatch : (d :: pattern).isPrefixOf (d :: (pattern ++ ys)) = true :=
      List.isPrefixOf_iff_prefix.mpr (List.prefix_append (d :: pattern) ys)
    rw [List.cons_append, replaceFrom, if_pos hmatch, replaceFrom_skip, List.length_cons,
      Nat.add_sub_cancel, List.drop_left]

/-- no match begins in a part without the first element of the pattern -/
theorem replaceFrom_append {c : α} {pattern : List α} (hp : pattern.head? = some c) {xs : List α}
    (hc : c ∉ xs) (replacement ys : List α) :
    replaceFrom pattern replacement 0 (xs ++ ys)
      = xs ++ replaceFrom pattern replacement 0 ys := by
  induction xs with
  | nil => rfl
  | cons x xs ih =>
    rw [List.mem_cons, not_or] at hc
    have hno : pattern.isPrefixOf (x :: (xs ++ ys)) = false :=
      isPrefixOf_cons_of_ne hp (Ne.symm hc.1) _
    rw [List.cons_append, replaceFrom, hno, if_neg Bool.false_ne_true, ih hc.2, List.cons_append]

/-- neither of two lists is the beginning of the other, whatever comes after it -/
theorem isPrefixOf_append_eq_false {p e : List α} (hpe : ¬ p <+: e) (hep : ¬ e <+: p)
    (ys : List α) : p.isPrefixOf (e ++ ys) = false := by
  rw [Bool.eq_false_iff]
  intro hprefix
  rcases List.prefix_or_prefix_of_prefix (List.isPrefixOf_iff_prefix.mp hprefix)
    (List.prefix_append e ys) with h | h
  · exact hpe h
  · exact hep h

section
variable {β : Type*} {c : α} {pattern : List α} {f : β → List α}

/-- a list in blocks, each of which is the pattern or has no match that begins in it -/
theorem replaceFrom_flatMap_append (hp : pattern.head? = some c) (hf : ∀ x, f x = pattern ∨
      (∀ ys, pattern.isPrefixOf (f x ++ ys) = false) ∧ c ∉ (f x).tail)
    (replacement : List α) (xs : List β) (ys : List α) :
    replaceFrom pattern replacement 0 (xs.flatMap f ++ ys)
      = (xs.flatMap fun x => if f x = pattern then replacement else f x)
        ++ replaceFrom pattern replacement 0 ys := by
  induction xs with
  | nil => rfl
  | cons x xs ih =>
    rw [List.flatMap_cons, List.flatMap_cons, List.append_assoc, List.append_assoc, ← ih]
    rcases hf x with hx | ⟨hno, htail⟩
    · rw [if_pos hx, hx, replaceFrom_match hp]
    · have hne : f x ≠ pattern := by
        intro hx
        have hself := hno []
        rw [hx, List.append_nil, List.isPrefixOf_iff_prefix.mpr (List.prefix_refl pattern)] at hself
        cases hself
      rw [if_neg hne]
      cases hblock : f x with
      | nil => rfl
      | cons y b =>
        have hhead := hno (xs.flatMap f ++ ys)
        rw [hblock, List.cons_append] at hhead
        rw [hblock, List.tail_cons] at htail
        rw [List.cons_append, replaceFrom, hhead, if_neg Bool.false_ne_true,
          replaceFrom_append hp htail, List.cons_append]

theorem replaceFrom_flatMap (hp : pattern.head? = some c) (hf : ∀ x, f x = pattern ∨
      (∀ ys, pattern.isPrefixOf (f x ++ ys) = false) ∧ c ∉ (f x).tail)
    (replacement : List α) (xs : List β) :
    replaceFrom pattern replacement 0 (xs.flatMap f)
      = xs.flatMap fun x => if f x = pattern then replacement else f x := by
  have happend := replaceFrom_flatMap_append hp hf replacement xs []
  rw [List.append_nil] at happend
  exact happend.trans (List.append_nil _)

end

end Occurrences
