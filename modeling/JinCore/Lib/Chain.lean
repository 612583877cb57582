import Mathlib.Data.List.Induction
import Mathlib.Tactic.Tauto

/-!
# Chains linked by a hash

An entry carries the hash of the entry before it and its own hash, `link prev body`.

* `Linked link g es`   the entries `es` form a chain that starts after the hash `g`;
* `tip g es`           the last hash of the chain, `g` for the empty one;
* `linked_snoc`        a chain grows by an entry linked to its tip;
* `eq_of_tip`          if `link` is injective on the hashes in use and never gives `g` back, the
                       tip of a chain determines the whole chain.
-/

namespace Chain

structure Entry (H B : Type*) where
  prev : H
  body : B
  hash : H
  deriving DecidableEq

variable {H B : Type*}

def Linked (link : H → B → H) : H → List (Entry H B) → Prop
  | _, [] => True
  | p, e :: es => e.prev = p ∧ e.hash = link e.prev e.body ∧ Linked link e.hash es

/-- the hash the next entry has to carry -/
def tip (g : H) (es : List (Entry H B)) : H := (es.getLast?.map Entry.hash).getD g

@[simp] theorem tip_nil (g : H) : tip g ([] : List (Entry H B)) = g := rfl

@[simp] theorem tip_snoc (g : H) (es : List (Entry H B)) (e : Entry H B) :
    tip g (es ++ [e]) = e.hash := by simp [tip]

theorem tip_cons (g : H) (e : Entry H B) (es : List (Entry H B)) :
    tip g (e :: es) = tip e.hash es := by
  cases es with
  | nil => rfl
  | cons f fs => simp [tip, List.getLast?_cons]

theorem linked_append (link : H → B → H) (g : H) (es fs : List (Entry H B)) :
    Linked link g (es ++ fs) ↔ Linked link g es ∧ Linked link (tip g es) fs := by
  induction es generalizing g with
  | nil => exact ⟨fun h => ⟨trivial, h⟩, fun h => h.2⟩
  | cons e es ih =>
    rw [List.cons_append, tip_cons]
    show _ ∧ _ ∧ Linked link e.hash (es ++ fs) ↔ (_ ∧ _ ∧ Linked link e.hash es) ∧ _
    rw [ih]
    tauto

theorem linked_snoc (link : H → B → H) (g : H) (es : List (Entry H B)) (e : Entry H B) :
    Linked link g (es ++ [e]) ↔
      Linked link g es ∧ e.prev = tip g es ∧ e.hash = link e.prev e.body := by
  rw [linked_append]
  show _ ∧ _ ∧ _ ∧ True ↔ _
  tauto

section
variable (link : H → B → H) (g : H) (S : H → Prop)

/-- the hashes of a chain stay in a set that `link` does not leave -/
theorem tip_mem (hg : S g) (hS : ∀ p b, S p → S (link p b)) (es : List (Entry H B))
    (h : Linked link g es) : S (tip g es) := by
  induction es using List.reverseRecOn with
  | nil => exact hg
  | append_singleton es e ih =>
    obtain ⟨hes, hp, hh⟩ := (linked_snoc link g es e).mp h
    rw [tip_snoc, hh, hp]
    exact hS _ _ (ih hes)

/-- **the tip of a chain determines the chain** -/
theorem eq_of_tip (hg : S g) (hS : ∀ p b, S p → S (link p b))
    (hinj : ∀ p q a b, S p → S q → link p a = link q b → p = q ∧ a = b)
    (hgen : ∀ p b, S p → link p b ≠ g) :
    ∀ es fs : List (Entry H B), Linked link g es → Linked link g fs → tip g es = tip g fs →
      es = fs := by
  intro es
  induction es using List.reverseRecOn with
  | nil =>
    intro fs _ hf ht
    induction fs using List.reverseRecOn with
    | nil => rfl
    | append_singleton fs f _ =>
      obtain ⟨hfs, hp, hh⟩ := (linked_snoc link g fs f).mp hf
      rw [tip_nil, tip_snoc, hh, hp] at ht
      exact absurd ht.symm (hgen _ _ (tip_mem link g S hg hS fs hfs))
  | append_singleton es e ih =>
    intro fs he hf ht
    obtain ⟨hes, hpe, hhe⟩ := (linked_snoc link g es e).mp he
    have hse : S e.prev := hpe ▸ tip_mem link g S hg hS es hes
    induction fs using List.reverseRecOn with
    | nil =>
      rw [tip_nil, tip_snoc, hhe] at ht
      exact absurd ht (hgen _ _ hse)
    | append_singleton fs f _ =>
      obtain ⟨hfs, hpf, hhf⟩ := (linked_snoc link g fs f).mp hf
      have hsf : S f.prev := hpf ▸ tip_mem link g S hg hS fs hfs
      rw [tip_snoc, tip_snoc] at ht
      obtain ⟨hprev, hbody⟩ := hinj _ _ _ _ hse hsf (by rw [← hhe, ← hhf, ht])
      have hef : e = f := by
        cases e
        cases f
        simp_all
      rw [ih fs hes hfs (by rw [← hpe, ← hpf, hprev]), hef]

end

end Chain
