import Mathlib.Data.List.Basic

/-!
# The order of two kinds of events in one list

* `lefts`, `rights`   the events of each kind, in order;
* `Precedes es k l`   the `k`-th left event comes before the `l`-th right one;
* `Keeps R xs ys`     related events that come in this order in `xs` do so in `ys`;
* `keeps_append`      an order kept by a concatenation is kept by each part;
* `keeps_rightsFirst` what a list with its right events first keeps.
-/

namespace Precedence

variable {α β : Type*}

def lefts (es : List (α ⊕ β)) : List α := es.filterMap Sum.getLeft?
def rights (es : List (α ⊕ β)) : List β := es.filterMap Sum.getRight?

@[simp] theorem lefts_append (xs ys : List (α ⊕ β)) : lefts (xs ++ ys) = lefts xs ++ lefts ys :=
  List.filterMap_append

@[simp] theorem rights_append (xs ys : List (α ⊕ β)) :
    rights (xs ++ ys) = rights xs ++ rights ys :=
  List.filterMap_append

@[simp] theorem lefts_inl_cons (a : α) (es : List (α ⊕ β)) :
    lefts (.inl a :: es) = a :: lefts es := rfl
@[simp] theorem lefts_inr_cons (b : β) (es : List (α ⊕ β)) : lefts (.inr b :: es) = lefts es := rfl
@[simp] theorem rights_inl_cons (a : α) (es : List (α ⊕ β)) :
    rights (.inl a :: es) = rights es := rfl
@[simp] theorem rights_inr_cons (b : β) (es : List (α ⊕ β)) :
    rights (.inr b :: es) = b :: rights es := rfl

@[simp] theorem lefts_map_inl (as : List α) : lefts (as.map (Sum.inl (β := β))) = as := by
  induction as with
  | nil => rfl
  | cons a as ih => rw [List.map_cons, lefts_inl_cons, ih]

@[simp] theorem rights_map_inl (as : List α) : rights (as.map (Sum.inl (β := β))) = [] := by
  induction as with
  | nil => rfl
  | cons a as ih => rw [List.map_cons, rights_inl_cons, ih]

@[simp] theorem lefts_map_inr (bs : List β) : lefts (bs.map (Sum.inr (α := α))) = [] := by
  induction bs with
  | nil => rfl
  | cons b bs ih => rw [List.map_cons, lefts_inr_cons, ih]

@[simp] theorem rights_map_inr (bs : List β) : rights (bs.map (Sum.inr (α := α))) = bs := by
  induction bs with
  | nil => rfl
  | cons b bs ih => rw [List.map_cons, rights_inr_cons, ih]

/-- the `k`-th left event comes before the `l`-th right one -/
def Precedes (es : List (α ⊕ β)) (k l : Nat) : Prop :=
  ∃ p b s, es = p ++ .inr b :: s ∧ (rights p).length = l ∧ k < (lefts p).length

theorem Precedes.left_lt {es : List (α ⊕ β)} {k l : Nat} (h : Precedes es k l) :
    k < (lefts es).length := by
  obtain ⟨p, b, s, rfl, -, hk⟩ := h
  rw [lefts_append, List.length_append]
  omega

theorem Precedes.right_lt {es : List (α ⊕ β)} {k l : Nat} (h : Precedes es k l) :
    l < (rights es).length := by
  obtain ⟨p, b, s, rfl, rfl, -⟩ := h
  rw [rights_append, List.length_append, rights_inr_cons, List.length_cons]
  omega

theorem Precedes.append {xs : List (α ⊕ β)} {k l : Nat} (h : Precedes xs k l)
    (ys : List (α ⊕ β)) : Precedes (xs ++ ys) k l := by
  obtain ⟨p, b, s, rfl, hl, hk⟩ := h
  exact ⟨p, b, s ++ ys, by rw [List.append_assoc, List.cons_append], hl, hk⟩

theorem Precedes.prepend {ys : List (α ⊕ β)} {k l : Nat} (h : Precedes ys k l)
    (xs : List (α ⊕ β)) :
    Precedes (xs ++ ys) ((lefts xs).length + k) ((rights xs).length + l) := by
  obtain ⟨p, b, s, rfl, hl, hk⟩ := h
  refine ⟨xs ++ p, b, s, by rw [List.append_assoc], ?_, ?_⟩
  · rw [rights_append, List.length_append, hl]
  · rw [lefts_append, List.length_append]
    omega

/-- an event of the first part comes before every event of the second -/
theorem precedes_across (xs ys : List (α ⊕ β)) (k l : Nat) (hk : k < (lefts xs).length)
    (hl : l < (rights ys).length) : Precedes (xs ++ ys) k ((rights xs).length + l) := by
  induction ys generalizing xs l with
  | nil => exact absurd hl (Nat.not_lt_zero l)
  | cons e ys ih =>
    cases e with
    | inl a =>
      have h := ih (xs ++ [.inl a]) l (by rw [lefts_append, List.length_append]; omega) hl
      rw [List.append_assoc, List.singleton_append, rights_append, rights_inl_cons] at h
      simpa [rights] using h
    | inr b =>
      cases l with
      | zero => exact ⟨xs, b, ys, rfl, rfl, hk⟩
      | succ l =>
        rw [rights_inr_cons, List.length_cons] at hl
        have h := ih (xs ++ [.inr b]) l
          (by rw [lefts_append, List.length_append]; omega) (by omega)
        rw [List.append_assoc, List.singleton_append, rights_append, List.length_append] at h
        have e : (rights xs).length + (rights [Sum.inr (α := α) b]).length + l
            = (rights xs).length + (l + 1) := by
          show (rights xs).length + 1 + l = _
          omega
        rwa [e] at h

theorem precedes_append {xs ys : List (α ⊕ β)} {k l : Nat} (h : Precedes (xs ++ ys) k l) :
    Precedes xs k l ∨ ((rights xs).length ≤ l ∧
      (k < (lefts xs).length ∨
        Precedes ys (k - (lefts xs).length) (l - (rights xs).length))) := by
  obtain ⟨p, b, s, he, hl, hk⟩ := h
  rw [List.append_eq_append_iff] at he
  obtain ⟨q, rfl, rfl⟩ | ⟨q, rfl, he⟩ := he
  · rw [rights_append, List.length_append] at hl
    rw [lefts_append, List.length_append] at hk
    refine .inr ⟨by omega, ?_⟩
    by_cases h : k < (lefts xs).length
    · exact .inl h
    · exact .inr ⟨q, b, s, rfl, by omega, by omega⟩
  · cases q with
    | nil =>
      rw [List.append_nil]
      exact .inr ⟨Nat.le_of_eq hl, .inl hk⟩
    | cons e q =>
      rw [List.cons_append, List.cons.injEq] at he
      obtain ⟨rfl, -⟩ := he
      exact .inl ⟨p, b, q, rfl, hl, hk⟩

/-! ## orders that are kept -/

/-- related events that come in this order in `xs` do so in `ys` -/
def Keeps (R : α → β → Prop) (xs ys : List (α ⊕ β)) : Prop :=
  ∀ k l a b, (lefts xs)[k]? = some a → (rights xs)[l]? = some b → R a b →
    Precedes xs k l → Precedes ys k l

theorem keeps_nil (R : α → β → Prop) : Keeps R ([] : List (α ⊕ β)) [] := by
  intro k l a b ha hb hR h
  exact h

/-- **an order kept by a concatenation is kept by each part, and conversely** -/
theorem keeps_append {R : α → β → Prop} {xs ys xs' ys' : List (α ⊕ β)}
    (hl : lefts ys = lefts xs) (hr : rights ys = rights xs) (hr' : rights ys' = rights xs') :
    Keeps R (xs ++ xs') (ys ++ ys') ↔ Keeps R xs ys ∧ Keeps R xs' ys' := by
  constructor
  · intro h
    constructor
    · intro k l a b ha hb hR hp
      have hkl := h k l a b
        (by rw [lefts_append, List.getElem?_append_left hp.left_lt, ha])
        (by rw [rights_append, List.getElem?_append_left hp.right_lt, hb]) hR (hp.append xs')
      obtain hq | ⟨hq, -⟩ := precedes_append hkl
      · exact hq
      · rw [hr] at hq
        exact absurd hp.right_lt (by omega)
    · intro k l a b ha hb hR hp
      have hkl := h ((lefts xs).length + k) ((rights xs).length + l) a b
        (by rw [lefts_append, List.getElem?_append_right (by omega), Nat.add_sub_cancel_left, ha])
        (by rw [rights_append, List.getElem?_append_right (by omega), Nat.add_sub_cancel_left, hb])
        hR (hp.prepend xs)
      obtain hq | ⟨-, hq | hq⟩ := precedes_append hkl
      · have := hq.right_lt
        rw [hr] at this
        omega
      · rw [hl] at hq
        omega
      · rwa [hl, hr, Nat.add_sub_cancel_left, Nat.add_sub_cancel_left] at hq
  · rintro ⟨h, h'⟩ k l a b ha hb hR hp
    have hlt := hp.right_lt
    rw [rights_append, List.length_append] at hlt
    obtain hq | ⟨hle, hq | hq⟩ := precedes_append hp
    · rw [lefts_append, List.getElem?_append_left hq.left_lt] at ha
      rw [rights_append, List.getElem?_append_left hq.right_lt] at hb
      exact (h k l a b ha hb hR hq).append ys'
    · have hp' := precedes_across ys ys' k (l - (rights xs).length)
        (by rw [hl]; exact hq) (by rw [hr']; omega)
      rw [hr] at hp'
      rwa [show (rights xs).length + (l - (rights xs).length) = l by omega] at hp'
    · by_cases hk : k < (lefts xs).length
      · have hp' := precedes_across ys ys' k (l - (rights xs).length)
          (by rw [hl]; exact hk) (by rw [hr']; omega)
        rw [hr] at hp'
        rwa [show (rights xs).length + (l - (rights xs).length) = l by omega] at hp'
      · rw [lefts_append, List.getElem?_append_right (by omega)] at ha
        rw [rights_append, List.getElem?_append_right hle] at hb
        have hp' := (h' _ _ a b ha hb hR hq).prepend ys
        rw [hl, hr] at hp'
        rwa [show (lefts xs).length + (k - (lefts xs).length) = k by omega,
          show (rights xs).length + (l - (rights xs).length) = l by omega] at hp'

/-- the right events, then the left ones -/
def rightsFirst (es : List (α ⊕ β)) : List (α ⊕ β) :=
  (rights es).map .inr ++ (lefts es).map .inl

@[simp] theorem lefts_rightsFirst (es : List (α ⊕ β)) : lefts (rightsFirst es) = lefts es := by
  rw [rightsFirst, lefts_append, lefts_map_inr, lefts_map_inl, List.nil_append]

@[simp] theorem rights_rightsFirst (es : List (α ⊕ β)) : rights (rightsFirst es) = rights es := by
  rw [rightsFirst, rights_append, rights_map_inr, rights_map_inl, List.append_nil]

theorem not_precedes_rightsFirst (es : List (α ⊕ β)) (k l : Nat) :
    ¬ Precedes (rightsFirst es) k l := by
  intro h
  have hl := h.right_lt
  rw [rights_rightsFirst] at hl
  obtain hq | ⟨hq, -⟩ := precedes_append h
  · have := hq.left_lt
    rw [lefts_map_inr] at this
    exact Nat.not_lt_zero _ this
  · rw [rights_map_inr] at hq
    omega

theorem mem_of_mem_lefts {es : List (α ⊕ β)} {a : α} (h : a ∈ lefts es) : Sum.inl a ∈ es := by
  obtain ⟨e, he, ha⟩ := List.mem_filterMap.mp h
  cases e with
  | inl b =>
    rw [Sum.getLeft?_inl, Option.some.injEq] at ha
    rwa [← ha]
  | inr b => exact absurd ha (by simp)

/-- **with its right events first, a list keeps its order only where no left event comes before
a related right one** -/
theorem keeps_rightsFirst {R : α → β → Prop} {es : List (α ⊕ β)} :
    Keeps R es (rightsFirst es) ↔
      ∀ p a q b s, es = p ++ .inl a :: (q ++ .inr b :: s) → ¬ R a b := by
  constructor
  · intro h p a q b s he hR
    have hl : lefts es = lefts p ++ a :: lefts (q ++ .inr b :: s) := by
      rw [he, lefts_append, lefts_inl_cons]
    have hr : rights es = rights (p ++ .inl a :: q) ++ b :: rights s := by
      rw [he, rights_append, rights_append, rights_inl_cons, rights_inl_cons, rights_append,
        rights_inr_cons, List.append_assoc]
    refine not_precedes_rightsFirst es _ _ (h (lefts p).length (rights (p ++ .inl a :: q)).length
      a b (by rw [hl]; simp) (by rw [hr]; simp) hR ?_)
    refine ⟨p ++ .inl a :: q, b, s, by rw [he]; simp, rfl, ?_⟩
    rw [lefts_append, lefts_inl_cons, List.length_append, List.length_cons]
    omega
  · rintro h k l a b ha hb hR ⟨p, b', s, rfl, hl, hk⟩
    rw [lefts_append, List.getElem?_append_left hk] at ha
    rw [rights_append, List.getElem?_append_right (by omega), hl, Nat.sub_self,
      rights_inr_cons, List.getElem?_cons_zero, Option.some.injEq] at hb
    obtain ⟨p, q, rfl⟩ := List.append_of_mem (mem_of_mem_lefts (List.mem_of_getElem? ha))
    exact absurd hR (h p a q b s (by rw [hb, List.append_assoc, List.cons_append]))


theorem lefts_flatMap {ι : Type*} (f : ι → List (α ⊕ β)) (is : List ι) :
    lefts (is.flatMap f) = is.flatMap fun i => lefts (f i) := by
  induction is with
  | nil => rfl
  | cons i is ih => rw [List.flatMap_cons, lefts_append, ih, List.flatMap_cons]

theorem rights_flatMap {ι : Type*} (f : ι → List (α ⊕ β)) (is : List ι) :
    rights (is.flatMap f) = is.flatMap fun i => rights (f i) := by
  induction is with
  | nil => rfl
  | cons i is ih => rw [List.flatMap_cons, rights_append, ih, List.flatMap_cons]

theorem keeps_flatMap_rightsFirst {ι : Type*} {R : α → β → Prop} (f : ι → List (α ⊕ β))
    (is : List ι) :
    Keeps R (is.flatMap f) (is.flatMap fun i => rightsFirst (f i)) ↔
      ∀ i ∈ is, Keeps R (f i) (rightsFirst (f i)) := by
  induction is with
  | nil => exact ⟨fun _ i hi => (nomatch hi), fun _ => keeps_nil R⟩
  | cons i is ih =>
    have hr : rights (is.flatMap fun i => rightsFirst (f i)) = rights (is.flatMap f) := by
      rw [rights_flatMap, rights_flatMap]
      exact List.flatMap_congr fun j _ => rights_rightsFirst (f j)
    rw [List.flatMap_cons, List.flatMap_cons, List.forall_mem_cons,
      keeps_append (lefts_rightsFirst _) (rights_rightsFirst _) hr, ih]

end Precedence
