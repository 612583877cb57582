import JinCore.Lib.Reading

/-!
# Elements that nest

Words that open and close elements, read with the stack of the open elements as the state.

* `Mark`, `Mark.step`   what a word does to the open elements;
* `Markup`, `nested`    the automaton that follows them, `others` without the elements of one name;
* `reads_frame`         what is read reads as well inside of more elements;
* `reads_wrap`          an element put around a part of a text that keeps the elements of other
                        names whole leads where the part did.
-/

namespace Nesting
open Reading

/-- what a word does to the open elements -/
inductive Mark (ν : Type*) where
  | text
  | opening (n : ν)
  | closing (n : ν)
  deriving DecidableEq

variable {α τ ν : Type*} [DecidableEq ν]

/-- the open elements after a word, innermost first -/
def Mark.step : Mark ν → List ν → Option (List ν)
  | .text, s => some s
  | .opening n, s => some (n :: s)
  | .closing _, [] => none
  | .closing n, m :: s => if m = n then some s else none

/-- elements of a name do not count -/
def Mark.without (n : ν) : Mark ν → Mark ν
  | .text => .text
  | .opening m => if m = n then .text else .opening m
  | .closing m => if m = n then .text else .closing m

theorem Mark.step_closing {n : ν} {s s' : List ν} (h : (Mark.closing n).step s = some s') :
    s = n :: s' := by
  cases s with
  | nil => cases h
  | cons m s =>
    obtain ⟨hm, hs⟩ := Option.ite_none_right_eq_some.mp h
    rw [hm, Option.some.inj hs]

theorem Mark.step_frame {k : Mark ν} {s s' : List ν} (h : k.step s = some s') (e : List ν) :
    k.step (s ++ e) = some (s' ++ e) := by
  cases k with
  | text =>
    cases h
    rfl
  | opening n =>
    cases h
    rfl
  | closing n =>
    rw [step_closing h]
    exact if_pos rfl

/-- the plain symbols, the words that are allowed, and what they do -/
structure Markup (C : Code α τ) (ν : Type*) where
  ok : α → Prop
  not_begins : ∀ {c}, ok c → ¬ C.begins c
  allowed : τ → Bool
  mark : τ → Mark ν

variable {C : Code α τ}

/-- the open elements are followed -/
def nested (M : Markup C ν) : Reader C (List ν) where
  plain c _ := M.ok c
  plain_not_begins := M.not_begins
  move t s := if M.allowed t then (M.mark t).step s else none

/-- the open elements of other names are followed -/
def others (M : Markup C ν) (n : ν) : Reader C (List ν) :=
  nested { M with mark := fun t => (M.mark t).without n }

variable {M : Markup C ν} {s s' : List ν} {us : List α}

theorem nested_move {t : τ} (ht : M.allowed t = true) (s : List ν) :
    (nested M).move t s = (M.mark t).step s := if_pos ht

theorem of_nested_move {t : τ} (h : (nested M).move t s = some s') :
    M.allowed t = true ∧ (M.mark t).step s = some s' := Option.ite_none_right_eq_some.mp h

theorem reads_frame (h : Reads (nested M) s us s') (e : List ν) :
    Reads (nested M) (s ++ e) us (s' ++ e) := by
  induction h with
  | nil => exact .nil _
  | plain hc _ ih => exact .plain hc ih
  | word hmove _ ih =>
    obtain ⟨ht, hstep⟩ := of_nested_move hmove
    exact .word ((nested_move ht _).trans (Mark.step_frame hstep e)) ih

/-- `inner` are the elements that the text itself has opened; an element `n` can be open around them
as well, as long as the text leaves the elements of other names that it finds open -/
theorem reads_around {n : ν} {inner outer : List ν} (h : Reads (nested M) (inner ++ outer) us s')
    (hothers : Reads (others M n) (inner.filter (· ≠ n)) us []) :
    Reads (nested M) (inner ++ n :: outer) us (n :: s') := by
  generalize hs : inner ++ outer = s at h
  induction h generalizing inner outer with
  | nil s =>
    have hall := List.filter_eq_nil_iff.mp hothers.nil_inv.symm
    have hinner : inner = List.replicate inner.length n :=
      List.eq_replicate_of_mem fun m hm => by simpa using hall m hm
    subst hs
    have hsame : inner ++ n :: outer = n :: (inner ++ outer) := by
      rw [hinner, ← List.cons_append, ← List.replicate_succ, List.replicate_succ', List.append_assoc]
      simp
    rw [hsame]
    exact .nil _
  | @plain c s s' us hc _ ih =>
    exact .plain hc (ih (hothers.plain_inv (M.not_begins hc)).2 hs)
  | @word t s s₁ s' us hmove _ ih =>
    obtain ⟨r, hmove', hrest⟩ := hothers.word_inv
    obtain ⟨ht, hmove⟩ := of_nested_move hmove
    obtain ⟨-, hmove'⟩ := of_nested_move hmove'
    dsimp only at hmove'
    have hgo : ∀ inner' outer', inner' ++ outer' = s₁ → r = inner'.filter (· ≠ n) →
        (M.mark t).step (inner ++ n :: outer) = some (inner' ++ n :: outer') →
        Reads (nested M) (inner ++ n :: outer) (C.word t ++ us) (n :: s') :=
      fun inner' outer' hs₁ hr hstep =>
        .word ((nested_move ht _).trans hstep) (ih (hr ▸ hrest) hs₁)
    cases hmark : M.mark t with
    | text =>
      rw [hmark] at hmove hmove'
      cases hmove
      cases hmove'
      exact hgo inner outer hs rfl (by rw [hmark]; rfl)
    | opening m =>
      rw [hmark] at hmove hmove'
      cases hmove
      refine hgo (m :: inner) outer (congrArg (m :: ·) hs) ?_ (by rw [hmark]; rfl)
      rw [Mark.without] at hmove'
      by_cases hm : m = n
      · rw [if_pos hm] at hmove'
        rw [List.filter_cons_of_neg (by simpa using hm)]
        exact (Option.some.inj hmove').symm
      · rw [if_neg hm] at hmove'
        rw [List.filter_cons_of_pos (by simpa using hm)]
        exact (Option.some.inj hmove').symm
    | closing m =>
      rw [hmark] at hmove hmove'
      have hopen := Mark.step_closing hmove
      rw [Mark.without] at hmove'
      cases inner with
      | cons o inner =>
        rw [← hs, List.cons_append, List.cons.injEq] at hopen
        obtain ⟨rfl, hs₁⟩ := hopen
        refine hgo inner outer hs₁ ?_ (by rw [hmark]; exact if_pos rfl)
        by_cases hm : o = n
        · rw [if_pos hm, List.filter_cons_of_neg (by simpa using hm)] at hmove'
          exact (Option.some.inj hmove').symm
        · rw [if_neg hm, List.filter_cons_of_pos (by simpa using hm)] at hmove'
          exact (List.cons.inj (Mark.step_closing hmove')).2.symm
      | nil =>
        rw [← hs, List.nil_append] at hopen
        subst hopen
        by_cases hm : m = n
        · subst hm
          rw [if_pos rfl] at hmove'
          exact hgo [] s₁ rfl (Option.some.inj hmove').symm (by rw [hmark]; exact if_pos rfl)
        · rw [if_neg hm] at hmove'
          cases hmove'

theorem reads_wrap {n : ν} {o c : τ} (ho : M.mark o = .opening n) (hc : M.mark c = .closing n)
    (hallowed : M.allowed o = true ∧ M.allowed c = true) (h : Reads (nested M) s us s')
    (hothers : Reads (others M n) [] us []) :
    Reads (nested M) s (C.word o ++ (us ++ C.word c)) s' := by
  have hopen : (nested M).move o s = some (n :: s) := by
    rw [nested_move hallowed.1, ho]
    rfl
  have hclose : (nested M).move c (n :: s') = some s' := by
    rw [nested_move hallowed.2, hc]
    exact if_pos rfl
  have haround : Reads (nested M) (n :: s) us (n :: s') :=
    reads_around (List.nil_append s ▸ h) hothers
  exact .word hopen (haround.append (.word_single hclose))

end Nesting
