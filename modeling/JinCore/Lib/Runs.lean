import Mathlib.Data.List.Basic

/-!
# Runs of a step function and the histories they leave

A system is a partial step function `step : σ → α → Option σ`: `none` means that the label is
not enabled in the state.

* `run step s as`         the state after the labels `as`;
* `Guarded step G s as`   every label taken along the way meets `G` in the state it is taken in;
* `run_inv`, `run_inv_guarded`  what one step preserves, every run preserves;
* `run_related`  two systems that keep step keep it along every run;
* `checkAll`              a check of a concrete run, `guarded_of_checkAll`;
* `count step p s as`     how many labels of a run meet `p`; `count_add_le` bounds it by a potential;
* `length_add_le`         a potential that every label lowers bounds the length of a run;
* `split_append`          where an event stands in two histories one after the other;
* `Each φ h`              every event of the history `h` (newest first) meets `φ` together with
                          the events before it; `each_iff` splits a history at an event.
-/

namespace Runs

section
variable {σ α : Type*} (step : σ → α → Option σ)

/-- the state after the labels of a list, if each of them is enabled where it is taken -/
def run : σ → List α → Option σ
  | s, [] => some s
  | s, a :: as => (step s a).bind fun t => run t as

/-- every label of the list meets `G` in the state where it is taken -/
def Guarded (G : σ → α → Prop) : σ → List α → Prop
  | _, [] => True
  | s, a :: as => G s a ∧ ∀ t, step s a = some t → Guarded G t as

variable {step}

theorem run_cons (s : σ) (a : α) (as : List α) :
    run step s (a :: as) = (step s a).bind fun t => run step t as := rfl

theorem run_cons_some {s u : σ} {a : α} {as : List α} :
    run step s (a :: as) = some u ↔ ∃ t, step s a = some t ∧ run step t as = some u := by
  rw [run_cons, Option.bind_eq_some_iff]

theorem run_append (s : σ) (as bs : List α) :
    run step s (as ++ bs) = (run step s as).bind fun t => run step t bs := by
  induction as generalizing s with
  | nil => rfl
  | cons a as ih =>
    rw [List.cons_append, run_cons, run_cons, Option.bind_assoc]
    congr 1
    funext t
    exact ih t

theorem run_append_some {s u : σ} {as bs : List α} :
    run step s (as ++ bs) = some u ↔ ∃ t, run step s as = some t ∧ run step t bs = some u := by
  rw [run_append, Option.bind_eq_some_iff]

theorem guarded_cons_some {G : σ → α → Prop} {s t : σ} {a : α} {as : List α}
    (h : step s a = some t) : Guarded step G s (a :: as) ↔ G s a ∧ Guarded step G t as := by
  refine ⟨fun hg => ⟨hg.1, hg.2 t h⟩, fun hg => ⟨hg.1, fun u hu => ?_⟩⟩
  rw [h, Option.some.injEq] at hu
  exact hu ▸ hg.2

theorem guarded_append {G : σ → α → Prop} (s : σ) (as bs : List α) :
    Guarded step G s (as ++ bs) ↔
      Guarded step G s as ∧ ∀ t, run step s as = some t → Guarded step G t bs := by
  induction as generalizing s with
  | nil =>
    refine ⟨fun h => ⟨trivial, fun t ht => ?_⟩, fun h => h.2 s rfl⟩
    cases ht
    exact h
  | cons a as ih =>
    constructor
    · rintro ⟨ha, hrest⟩
      refine ⟨⟨ha, fun t ht => ((ih t).mp (hrest t ht)).1⟩, fun u hu => ?_⟩
      obtain ⟨t, ht, hu⟩ := run_cons_some.mp hu
      exact ((ih t).mp (hrest t ht)).2 u hu
    · rintro ⟨⟨ha, hrest⟩, hlast⟩
      refine ⟨ha, fun t ht => (ih t).mpr ⟨hrest t ht, fun u hu => ?_⟩⟩
      exact hlast u (run_cons_some.mpr ⟨t, ht, hu⟩)

/-- a check of every label of a run that can be evaluated -/
def checkAll (step : σ → α → Option σ) (c : σ → α → Bool) : σ → List α → Bool
  | _, [] => true
  | s, a :: as => c s a && match step s a with
    | some t => checkAll step c t as
    | none => true

theorem guarded_of_checkAll {G : σ → α → Prop} {c : σ → α → Bool}
    (hc : ∀ s a, c s a = true → G s a) (as : List α) :
    ∀ s, checkAll step c s as = true → Guarded step G s as := by
  induction as with
  | nil => exact fun _ _ => trivial
  | cons a as ih =>
    intro s h
    obtain ⟨ha, hrest⟩ := Bool.and_eq_true_iff.mp h
    refine ⟨hc s a ha, fun t ht => ih t ?_⟩
    rw [ht] at hrest
    exact hrest

/-- labels that all meet a predicate guard every run of them -/
theorem guarded_of_forall {G : α → Prop} (as : List α) :
    ∀ s, (∀ a ∈ as, G a) → Guarded step (fun _ a => G a) s as := by
  induction as with
  | nil => exact fun _ _ => trivial
  | cons a as ih =>
    intro s h
    exact ⟨h a List.mem_cons_self, fun t _ => ih t fun b hb => h b (List.mem_cons_of_mem _ hb)⟩

/-- a guard, and what every label of the list meets, guard together -/
theorem guarded_and_mem {G : σ → α → Prop} {H : α → Prop} {as : List α} (hH : ∀ a ∈ as, H a) :
    ∀ {s}, Guarded step G s as → Guarded step (fun s a => H a ∧ G s a) s as := by
  induction as with
  | nil => exact fun _ => trivial
  | cons a as ih =>
    rintro s ⟨ha, hrest⟩
    refine ⟨⟨hH a List.mem_cons_self, ha⟩, fun t ht => ?_⟩
    exact ih (fun b hb => hH b (List.mem_cons_of_mem _ hb)) (hrest t ht)

/-- what one step preserves, every run preserves -/
theorem run_inv {P : σ → Prop} (hP : ∀ s a t, P s → step s a = some t → P t) :
    ∀ (as : List α) (s u : σ), P s → run step s as = some u → P u := by
  intro as
  induction as with
  | nil =>
    intro s u hs h
    cases h
    exact hs
  | cons a as ih =>
    intro s u hs h
    obtain ⟨t, ht, hu⟩ := run_cons_some.mp h
    exact ih t u (hP s a t hs ht) hu

/-- what the steps that meet `G` preserve, every run of such steps preserves -/
theorem run_inv_guarded {P : σ → Prop} {G : σ → α → Prop}
    (hP : ∀ s a t, P s → G s a → step s a = some t → P t) :
    ∀ (as : List α) (s u : σ), P s → Guarded step G s as → run step s as = some u → P u := by
  intro as
  induction as with
  | nil =>
    intro s u hs _ h
    cases h
    exact hs
  | cons a as ih =>
    intro s u hs hG h
    obtain ⟨t, ht, hu⟩ := run_cons_some.mp h
    exact ih t u (hP s a t hs hG.1 ht) (hG.2 t ht) hu

/-- two systems of which one follows every step of the other follow each other along every run -/
theorem run_related {τ β : Type*} {step' : τ → β → Option τ} {R : σ → τ → Prop} {L : α → β → Prop}
    (hstep : ∀ s s' a b t, R s s' → L a b → step s a = some t → ∃ t', step' s' b = some t' ∧ R t t')
    {as : List α} {bs : List β} (hL : List.Forall₂ L as bs) :
    ∀ {s s' u}, R s s' → run step s as = some u → ∃ u', run step' s' bs = some u' ∧ R u u' := by
  induction hL with
  | nil =>
    intro s s' u hs h
    cases h
    exact ⟨s', rfl, hs⟩
  | cons hab _ ih =>
    intro s s' u hs h
    obtain ⟨t, ht, hu⟩ := run_cons_some.mp h
    obtain ⟨t', ht', hR⟩ := hstep _ _ _ _ _ hs hab ht
    obtain ⟨u', hu', hRu⟩ := ih hR hu
    exact ⟨u', run_cons_some.mpr ⟨t', ht', hu'⟩, hRu⟩

/-! ## counting along a run -/

/-- how many labels of a run meet `p` in the state they are taken in -/
def count (step : σ → α → Option σ) (p : σ → α → Bool) : σ → List α → Nat
  | _, [] => 0
  | s, a :: as => (p s a).toNat + match step s a with
    | some t => count step p t as
    | none => 0

/-- a label that meets `p` costs one unit of a potential that no label raises -/
theorem count_add_le {P : σ → Prop} {G : σ → α → Prop} {p : σ → α → Bool} {f : σ → Nat}
    (hP : ∀ s a t, P s → G s a → step s a = some t → P t ∧ (p s a).toNat + f t ≤ f s) :
    ∀ (as : List α) (s u : σ), P s → Guarded step G s as → run step s as = some u →
      count step p s as + f u ≤ f s := by
  intro as
  induction as with
  | nil =>
    intro s u _ _ h
    cases h
    show 0 + f s ≤ f s
    omega
  | cons a as ih =>
    intro s u hs hG h
    obtain ⟨t, ht, hu⟩ := run_cons_some.mp h
    obtain ⟨hPt, hstep⟩ := hP s a t hs hG.1 ht
    have hrest : count step p t as + f u ≤ f t := ih t u hPt (hG.2 t ht) hu
    have hcount : count step p s (a :: as) = (p s a).toNat + count step p t as := by
      rw [count, ht]
    omega

/-- a potential that every label lowers bounds the length of a run -/
theorem length_add_le {P : σ → Prop} {G : σ → α → Prop} {f : σ → Nat}
    (hP : ∀ s a t, P s → G s a → step s a = some t → P t ∧ f t + 1 ≤ f s) :
    ∀ (as : List α) (s u : σ), P s → Guarded step G s as → run step s as = some u →
      as.length + f u ≤ f s := by
  intro as
  induction as with
  | nil =>
    intro s u _ _ h
    cases h
    show 0 + f s ≤ f s
    omega
  | cons a as ih =>
    intro s u hs hG h
    obtain ⟨t, ht, hu⟩ := run_cons_some.mp h
    obtain ⟨hPt, hstep⟩ := hP s a t hs hG.1 ht
    have hrest : as.length + f u ≤ f t := ih t u hPt (hG.2 t ht) hu
    rw [List.length_cons]
    omega

end

/-! ## histories, newest event first -/

section
variable {ε : Type*}

/-- an event of two histories one after the other -/
theorem split_append {xs ys pre post : List ε} {a : ε} (h : xs ++ ys = pre ++ a :: post) :
    (∃ post', xs = pre ++ a :: post') ∨ ∃ as, pre = xs ++ as ∧ ys = as ++ a :: post := by
  rcases List.append_eq_append_iff.mp h with ⟨as, hpre, hys⟩ | ⟨bs, hxs, hrest⟩
  · exact Or.inr ⟨as, hpre, hys⟩
  · cases bs with
    | nil => exact Or.inr ⟨[], by rw [hxs, List.append_nil, List.append_nil], hrest.symm⟩
    | cons b bs =>
      rw [List.cons_append, List.cons.injEq] at hrest
      exact Or.inl ⟨bs, hrest.1 ▸ hxs⟩

/-- every event of the history meets `φ` together with the events before it -/
def Each (φ : ε → List ε → Prop) : List ε → Prop
  | [] => True
  | e :: pre => φ e pre ∧ Each φ pre

theorem each_cons {φ : ε → List ε → Prop} {e : ε} {pre : List ε} :
    Each φ (e :: pre) ↔ φ e pre ∧ Each φ pre := Iff.rfl

/-- splitting a history at one of its events -/
theorem each_iff {φ : ε → List ε → Prop} {h : List ε} :
    Each φ h ↔ ∀ post e pre, h = post ++ e :: pre → φ e pre := by
  induction h with
  | nil =>
    refine ⟨fun _ post e pre he => ?_, fun _ => trivial⟩
    exact absurd he.symm (by simp)
  | cons x h ih =>
    rw [each_cons, ih]
    constructor
    · rintro ⟨hx, hh⟩ post e pre he
      cases post with
      | nil =>
        cases he
        exact hx
      | cons y post =>
        rw [List.cons_append, List.cons.injEq] at he
        exact hh post e pre he.2
    · intro hall
      refine ⟨hall [] x h rfl, fun post e pre he => ?_⟩
      exact hall (x :: post) e pre (by rw [he, List.cons_append])

/-- events that meet `φ` whatever came before may be added -/
theorem Each.append {φ : ε → List ε → Prop} {es h : List ε} (hes : ∀ e ∈ es, ∀ pre, φ e pre)
    (hh : Each φ h) : Each φ (es ++ h) := by
  induction es with
  | nil => exact hh
  | cons e es ih =>
    exact ⟨hes e List.mem_cons_self _, ih fun x hx => hes x (List.mem_cons_of_mem _ hx)⟩

theorem Each.imp {φ ψ : ε → List ε → Prop} (hφ : ∀ e pre, φ e pre → ψ e pre) {h : List ε}
    (hh : Each φ h) : Each ψ h := by
  rw [each_iff] at hh ⊢
  exact fun post e pre he => hφ e pre (hh post e pre he)

end

end Runs
