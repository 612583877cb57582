import Mathlib.Data.List.Infix

/-!
# Texts that an automaton reads

A text is made of plain symbols and of the words of a prefix code.  A plain symbol leaves the state
as it is, where it is allowed; a word moves to another state.

* `Code`, `Reader`, `Reads`   the words, an automaton over them, and what it reads;
* `Reads.cancel`, `Reads.functional`   reading is deterministic;
* `Apart`, `Reads.split`, `Reads.cut`   a text can be cut where no word stands across;
* `Reads.covered`             a symbol that is not plain belongs to a word;
* `Foreign`, `Reads.cut_around`        symbols of no word, and what stands between them;
* `Reader.eval`, `eval_iff`   the automaton run.
-/

namespace Reading

/-- words that begin with symbols of their own; none is the beginning of another -/
structure Code (α τ : Type*) where
  word : τ → List α
  begins : α → Prop
  begins_word : ∀ t, ∃ c us, word t = c :: us ∧ begins c
  prefixFree : ∀ {t t'}, word t <+: word t' → t = t'

/-- where a plain symbol is allowed, and where a word leads -/
structure Reader {α τ : Type*} (C : Code α τ) (σ : Type*) where
  plain : α → σ → Prop
  plain_not_begins : ∀ {c s}, plain c s → ¬ C.begins c
  move : τ → σ → Option σ

variable {α τ σ : Type*} {C : Code α τ}

/-- `us` is read from the state `s` to the state `s'` -/
inductive Reads (R : Reader C σ) : σ → List α → σ → Prop
  | nil (s : σ) : Reads R s [] s
  | plain {c : α} {s s' : σ} {us : List α} : R.plain c s → Reads R s us s' → Reads R s (c :: us) s'
  | word {t : τ} {s s₁ s' : σ} {us : List α} : R.move t s = some s₁ → Reads R s₁ us s' →
      Reads R s (C.word t ++ us) s'

theorem Code.word_ne_nil (C : Code α τ) (t : τ) : C.word t ≠ [] := by
  obtain ⟨c, us, hword, -⟩ := C.begins_word t
  rw [hword]
  exact List.cons_ne_nil c us

/-- the word at the beginning of a text is determined -/
theorem Code.word_unique {t t' : τ} {us vs : List α} (h : C.word t ++ us = C.word t' ++ vs) :
    t = t' := by
  have ht := List.prefix_append (C.word t) us
  rw [h] at ht
  rcases List.prefix_or_prefix_of_prefix ht (List.prefix_append (C.word t') vs) with h | h
  · exact C.prefixFree h
  · exact (C.prefixFree h).symm

theorem Code.word_append_begins {t : τ} {c : α} {us vs : List α} (h : C.word t ++ us = c :: vs) :
    C.begins c := by
  obtain ⟨d, ds, hword, hd⟩ := C.begins_word t
  rw [hword, List.cons_append, List.cons.injEq] at h
  exact h.1 ▸ hd

namespace Reads
variable {R : Reader C σ} {s s₁ s' : σ} {c : α} {t : τ} {us a b : List α}

theorem single (h : R.plain c s) : Reads R s [c] s := .plain h (.nil s)

theorem word_single (h : R.move t s = some s') : Reads R s (C.word t) s' := by
  have hword := Reads.word h (.nil s')
  rwa [List.append_nil] at hword

theorem of_plain (h : ∀ c ∈ us, R.plain c s) : Reads R s us s := by
  induction us with
  | nil => exact .nil s
  | cons c us ih =>
    exact .plain (h c List.mem_cons_self) (ih fun d hd => h d (List.mem_cons_of_mem c hd))

theorem append (ha : Reads R s a s₁) (hb : Reads R s₁ b s') : Reads R s (a ++ b) s' := by
  induction ha with
  | nil => exact hb
  | plain hc _ ih => exact .plain hc (ih hb)
  | word hmove _ ih =>
    rw [List.append_assoc]
    exact .word hmove (ih hb)

/-! ## reading is deterministic -/

theorem nil_inv (h : Reads R s [] s') : s' = s := by
  generalize htext : ([] : List α) = text at h
  cases h with
  | nil => rfl
  | plain => cases htext
  | word => exact absurd (List.append_eq_nil_iff.mp htext.symm).1 (C.word_ne_nil _)

theorem plain_inv (h : Reads R s (c :: us) s') (hc : ¬ C.begins c) :
    R.plain c s ∧ Reads R s us s' := by
  generalize htext : c :: us = text at h
  cases h with
  | nil => cases htext
  | plain hplain hrest =>
    cases htext
    exact ⟨hplain, hrest⟩
  | word => exact absurd (C.word_append_begins htext.symm) hc

theorem word_inv (h : Reads R s (C.word t ++ us) s') :
    ∃ s₁, R.move t s = some s₁ ∧ Reads R s₁ us s' := by
  generalize htext : C.word t ++ us = text at h
  cases h with
  | nil => exact absurd (List.append_eq_nil_iff.mp htext).1 (C.word_ne_nil t)
  | plain hplain => exact absurd (C.word_append_begins htext) (R.plain_not_begins hplain)
  | word hmove hrest =>
    obtain rfl := C.word_unique htext
    rw [List.append_cancel_left htext]
    exact ⟨_, hmove, hrest⟩

theorem begins_inv (h : Reads R s (c :: us) s') (hc : C.begins c) :
    ∃ t vs, c :: us = C.word t ++ vs := by
  generalize htext : c :: us = text at h
  cases h with
  | nil => cases htext
  | plain hplain =>
    cases htext
    exact absurd hc (R.plain_not_begins hplain)
  | word => exact ⟨_, _, rfl⟩

theorem cancel (ha : Reads R s a s₁) (hab : Reads R s (a ++ b) s') : Reads R s₁ b s' := by
  induction ha with
  | nil => exact hab
  | plain hc _ ih => exact ih (hab.plain_inv (R.plain_not_begins hc)).2
  | word hmove _ ih =>
    rw [List.append_assoc] at hab
    obtain ⟨s₂, hmove', hrest⟩ := hab.word_inv
    obtain rfl := Option.some.inj (hmove.symm.trans hmove')
    exact ih hrest

theorem functional (h : Reads R s us s₁) (h' : Reads R s us s') : s' = s₁ := by
  rw [← List.append_nil us] at h'
  exact nil_inv (h.cancel h')

/-- plain symbols leave the state as it is -/
theorem eq_of_not_begins (h : Reads R s us s') (hus : ∀ c ∈ us, ¬ C.begins c) : s' = s := by
  induction us with
  | nil => exact h.nil_inv
  | cons c us ih =>
    exact ih (h.plain_inv (hus c List.mem_cons_self)).2 fun d hd => hus d (List.mem_cons_of_mem c hd)

/-- another automaton over the same words follows -/
theorem map {ρ : Type*} {R' : Reader C ρ} (f : σ → ρ → Prop)
    (hplain : ∀ c s r, f s r → R.plain c s → R'.plain c r)
    (hmove : ∀ t s s₁ r, f s r → R.move t s = some s₁ → ∃ r₁, R'.move t r = some r₁ ∧ f s₁ r₁)
    (h : Reads R s us s') {r : ρ} (hr : f s r) : ∃ r', Reads R' r us r' ∧ f s' r' := by
  induction h generalizing r with
  | nil => exact ⟨r, .nil r, hr⟩
  | plain hc _ ih =>
    obtain ⟨r', hreads, hr'⟩ := ih hr
    exact ⟨r', .plain (hplain _ _ _ hr hc) hreads, hr'⟩
  | word hm _ ih =>
    obtain ⟨r₁, hm', hr₁⟩ := hmove _ _ _ _ hr hm
    obtain ⟨r', hreads, hr'⟩ := ih hr₁
    exact ⟨r', .word hm' hreads, hr'⟩

/-- another automaton over the same words with the same states, that refuses no more -/
theorem mono {R' : Reader C σ} (hplain : ∀ {c s}, R.plain c s → R'.plain c s)
    (hmove : ∀ {t s s₁}, R.move t s = some s₁ → R'.move t s = some s₁) (h : Reads R s us s') :
    Reads R' s us s' := by
  induction h with
  | nil => exact .nil _
  | plain hc _ ih => exact .plain (hplain hc) ih
  | word hm _ ih => exact .word (hmove hm) ih

end Reads

/-! ## cutting a text -/

/-- the automaton can take the word somewhere -/
def Reader.Live (R : Reader C σ) (t : τ) : Prop := ∃ s s', R.move t s = some s'

/-- no word stands across the place between `a` and `b` -/
def Apart (R : Reader C σ) (a b : List α) : Prop :=
  ∀ t u v, R.Live t → C.word t = u ++ v → u ≠ [] → v ≠ [] → ¬ (u <:+ a ∧ v <+: b)

section
variable {R : Reader C σ} {s s' : σ} {a b : List α}

theorem apart_nil_left : Apart R [] b :=
  fun _ _ _ _ _ hu _ h => hu (List.suffix_nil.mp h.1)

theorem apart_nil_right : Apart R a [] :=
  fun _ _ _ _ _ _ hv h => hv (List.prefix_nil.mp h.2)

/-- the symbol after the place stands in no word but at its beginning -/
theorem apart_of_head {c : α} {us : List α} (hc : ∀ t, R.Live t → c ∉ (C.word t).tail) :
    Apart R a (c :: us) := by
  intro t u v hlive hword hu hv h
  obtain ⟨d, v, rfl⟩ := List.exists_cons_of_ne_nil hv
  obtain ⟨e, u, rfl⟩ := List.exists_cons_of_ne_nil hu
  obtain ⟨rest, hrest⟩ := h.2
  rw [List.cons_append, List.cons.injEq] at hrest
  refine hc t hlive ?_
  rw [hword, List.cons_append, List.tail_cons, hrest.1]
  exact List.mem_append_right u List.mem_cons_self

/-- the symbol before the place stands in no word but at its end -/
theorem apart_of_last {c : α} {us : List α} (hc : ∀ t, R.Live t → c ∉ (C.word t).dropLast) :
    Apart R (us ++ [c]) b := by
  intro t u v hlive hword hu hv h
  obtain ⟨rest, hrest⟩ := h.1
  obtain ⟨u, d, rfl⟩ := (List.eq_nil_or_concat' u).resolve_left hu
  rw [← List.append_assoc] at hrest
  have hd : d = c := List.singleton_inj.mp (List.append_inj_right' hrest rfl)
  refine hc t hlive ?_
  rw [hword, hd, List.dropLast_append_of_ne_nil hv, List.append_assoc]
  exact List.mem_append_right u List.mem_cons_self

namespace Reads

/-- a text is cut between its words, or inside of one -/
theorem split (h : Reads R s (a ++ b) s') : (∃ m, Reads R s a m ∧ Reads R m b s') ∨
    ∃ t u v a' b' m m', C.word t = u ++ v ∧ u ≠ [] ∧ v ≠ [] ∧ a = a' ++ u ∧ b = v ++ b' ∧
      Reads R s a' m ∧ R.move t m = some m' ∧ Reads R m' b' s' := by
  generalize htext : a ++ b = text at h
  induction h generalizing a with
  | nil s =>
    obtain ⟨rfl, rfl⟩ := List.append_eq_nil_iff.mp htext
    exact Or.inl ⟨s, .nil s, .nil s⟩
  | @plain c s s' us hc hrest ih =>
    cases a with
    | nil =>
      rw [List.nil_append] at htext
      rw [htext]
      exact Or.inl ⟨s, .nil s, .plain hc hrest⟩
    | cons d a =>
      obtain ⟨rfl, rfl⟩ := List.cons.inj htext
      rcases ih rfl with ⟨m, ha, hb⟩ | ⟨t, u, v, a', b', m, m', hword, hu, hv, rfl, rfl, ha, hrest⟩
      · exact Or.inl ⟨m, .plain hc ha, hb⟩
      · exact Or.inr ⟨t, u, v, d :: a', b', m, m', hword, hu, hv, rfl, rfl, .plain hc ha, hrest⟩
  | @word t s s₁ s' us hmove hrest ih =>
    rcases List.append_eq_append_iff.mp htext with ⟨v, hword, rfl⟩ | ⟨a', rfl, rfl⟩
    · by_cases ha : a = []
      · subst ha
        rw [List.nil_append] at hword
        exact Or.inl ⟨s, .nil s, hword ▸ .word hmove hrest⟩
      by_cases hv : v = []
      · subst hv
        rw [List.append_nil] at hword
        exact Or.inl ⟨s₁, hword ▸ .word_single hmove, hrest⟩
      · exact Or.inr ⟨t, a, v, [], us, s, s₁, hword, ha, hv, rfl, rfl, .nil s, hmove, hrest⟩
    · rcases ih rfl with ⟨m, ha, hb⟩ | ⟨t', u, v, a', b', m, m', hword, hu, hv, rfl, rfl, ha, hrest⟩
      · exact Or.inl ⟨m, .word hmove ha, hb⟩
      · refine Or.inr ⟨t', u, v, C.word t ++ a', b', m, m', hword, hu, hv, ?_, rfl, .word hmove ha, hrest⟩
        rw [List.append_assoc]

theorem cut (hapart : Apart R a b) (h : Reads R s (a ++ b) s') :
    ∃ m, Reads R s a m ∧ Reads R m b s' := by
  rcases h.split with h | ⟨t, u, v, a', b', m, m', hword, hu, hv, rfl, rfl, -, hmove, -⟩
  · exact h
  · exact absurd ⟨List.suffix_append a' u, List.prefix_append v b'⟩
      (hapart t u v ⟨m, m', hmove⟩ hword hu hv)

/-- a symbol that is nowhere plain belongs to a word -/
theorem covered {c : α} (hc : ∀ s, ¬ R.plain c s) (h : Reads R s (a ++ c :: b) s') :
    ∃ t u v, R.Live t ∧ C.word t = u ++ c :: v ∧ u <:+ a ∧ v <+: b := by
  generalize htext : a ++ c :: b = text at h
  induction h generalizing a with
  | nil s => exact absurd (List.append_eq_nil_iff.mp htext).2 (List.cons_ne_nil c b)
  | @plain d s s' us hd hrest ih =>
    cases a with
    | nil =>
      obtain ⟨rfl, rfl⟩ := List.cons.inj htext
      exact absurd hd (hc s)
    | cons e a =>
      obtain ⟨rfl, rfl⟩ := List.cons.inj htext
      obtain ⟨t, u, v, hlive, hword, hu, hv⟩ := ih rfl
      exact ⟨t, u, v, hlive, hword, hu.trans (List.suffix_cons e a), hv⟩
  | @word t s s₁ s' us hmove hrest ih =>
    rcases List.append_eq_append_iff.mp htext with ⟨v, hword, hb⟩ | ⟨a', rfl, rfl⟩
    · cases v with
      | nil =>
        obtain ⟨t', u, v, hlive, hword', hu, hv⟩ := @ih [] hb
        exact ⟨t', u, v, hlive, hword', hu.trans (List.nil_suffix), hv⟩
      | cons d v =>
        obtain ⟨rfl, rfl⟩ := List.cons.inj hb
        exact ⟨t, a, v, ⟨s, s₁, hmove⟩, hword, List.suffix_refl a, List.prefix_append v us⟩
    · obtain ⟨t', u, v, hlive, hword, hu, hv⟩ := ih rfl
      exact ⟨t', u, v, hlive, hword, hu.trans (List.suffix_append _ a'), hv⟩

end Reads

end

/-! ## symbols of no word -/

/-- the symbols begin no word, and stand in none that the automaton takes -/
def Foreign (R : Reader C σ) (us : List α) : Prop :=
  ∀ c ∈ us, ¬ C.begins c ∧ ∀ t, R.Live t → c ∉ C.word t

section
variable {R : Reader C σ} {s s' : σ} {us vs a b : List α}

theorem Foreign.append (hu : Foreign R us) (hv : Foreign R vs) : Foreign R (us ++ vs) :=
  fun c hc => (List.mem_append.mp hc).elim (hu c) (hv c)

theorem Foreign.apart_before (hus : Foreign R us) (hne : us ≠ []) : Apart R a (us ++ b) := by
  obtain ⟨c, us, rfl⟩ := List.exists_cons_of_ne_nil hne
  exact apart_of_head fun t ht h => (hus c List.mem_cons_self).2 t ht (List.mem_of_mem_tail h)

theorem Foreign.apart_behind (hus : Foreign R us) (hne : us ≠ []) : Apart R (a ++ us) b := by
  obtain ⟨us, c, rfl⟩ := (List.eq_nil_or_concat' us).resolve_left hne
  rw [← List.append_assoc]
  exact apart_of_last fun t ht h =>
    (hus c (List.mem_append_right us List.mem_cons_self)).2 t ht (List.mem_of_mem_dropLast h)

theorem Foreign.apart_after (hus : Foreign R us) : Apart R us b := by
  by_cases hne : us = []
  · rw [hne]
    exact apart_nil_left
  · exact hus.apart_behind (a := []) hne

namespace Reads

theorem eq_of_foreign (hus : Foreign R us) (h : Reads R s us s') : s' = s :=
  h.eq_of_not_begins fun c hc => (hus c hc).1

/-- they are read where they stand -/
theorem cut_foreign (hus : Foreign R us) (h : Reads R s (us ++ vs) s') :
    Reads R s us s ∧ Reads R s vs s' := by
  obtain ⟨m, hm, hrest⟩ := h.cut hus.apart_after
  obtain rfl := hm.eq_of_foreign hus
  exact ⟨hm, hrest⟩

/-- a part between them -/
theorem cut_around {p d body e q : List α} (hne : d ≠ []) (hd : Foreign R d) (he : Foreign R e)
    (hend : Apart R body (e ++ q)) (h : Reads R s (p ++ (d ++ (body ++ (e ++ q)))) s') :
    ∃ b c, Reads R s p b ∧ Reads R b d b ∧ Reads R b body c ∧ Reads R c e c ∧ Reads R c q s' := by
  obtain ⟨b, hp, h⟩ := h.cut (hd.apart_before hne)
  obtain ⟨hdelimiter, h⟩ := h.cut_foreign hd
  obtain ⟨c, hbody, h⟩ := h.cut hend
  obtain ⟨hrest, hq⟩ := h.cut_foreign he
  exact ⟨b, c, hp, hdelimiter, hbody, hrest, hq⟩

end Reads

end

/-! ## the automaton run -/

section
variable (R : Reader C σ) [∀ c s, Decidable (R.plain c s)] (wordAt : List α → Option τ)

/-- the first argument counts the symbols of a word that are still to be passed over -/
def Reader.evalFrom : Nat → σ → List α → Option σ
  | 0, s, [] => some s
  | _ + 1, _, [] => none
  | skip + 1, s, _ :: us => evalFrom skip s us
  | 0, s, c :: us =>
    match wordAt (c :: us) with
    | some t => (R.move t s).bind fun s₁ => evalFrom ((C.word t).length - 1) s₁ us
    | none => if R.plain c s then evalFrom 0 s us else none

/-- the state after a text -/
def Reader.eval (s : σ) (us : List α) : Option σ := R.evalFrom wordAt 0 s us

variable {R wordAt}

theorem evalFrom_skip (s : σ) (w us : List α) :
    R.evalFrom wordAt w.length s (w ++ us) = R.eval wordAt s us := by
  induction w with
  | nil => rfl
  | cons c w ih => exact ih

/-- the automaton run agrees with what it reads -/
theorem eval_iff (hwordAt : ∀ us t, wordAt us = some t ↔ C.word t <+: us) {s s' : σ} {us : List α} :
    R.eval wordAt s us = some s' ↔ Reads R s us s' := by
  induction hn : us.length using Nat.strong_induction_on generalizing us s with
  | h n ih =>
    subst hn
    cases us with
    | nil =>
      refine ⟨fun h => ?_, fun h => congrArg some h.nil_inv.symm⟩
      cases h
      exact .nil _
    | cons c us =>
      cases hword : wordAt (c :: us) with
      | none =>
        have hnot : ∀ t vs, c :: us ≠ C.word t ++ vs := fun t vs h => by
          rw [(hwordAt _ t).mpr ⟨vs, h.symm⟩] at hword
          cases hword
        rw [Reader.eval, Reader.evalFrom, hword]
        have hrest := ih us.length (Nat.lt_succ_self _) (s := s) rfl
        refine ⟨fun h => ?_, fun h => ?_⟩
        · obtain ⟨hc, h⟩ := Option.ite_none_right_eq_some.mp h
          exact .plain hc (hrest.mp h)
        · have hc : ¬ C.begins c := fun hc => by
            obtain ⟨t, vs, heq⟩ := h.begins_inv hc
            exact hnot t vs heq
          obtain ⟨hplain, h⟩ := h.plain_inv hc
          exact (if_pos hplain).trans (hrest.mpr h)
      | some t =>
        obtain ⟨vs, htext⟩ := (hwordAt _ t).mp hword
        obtain ⟨d, w, ht, -⟩ := C.begins_word t
        have htext' := htext
        rw [ht, List.cons_append, List.cons.injEq] at htext'
        obtain ⟨rfl, rfl⟩ := htext'
        have hlt : vs.length < (d :: (w ++ vs)).length := by
          rw [List.length_cons, List.length_append]
          omega
        rw [Reader.eval, Reader.evalFrom, hword]
        dsimp only
        rw [ht, List.length_cons, Nat.add_sub_cancel, Option.bind_eq_some_iff]
        refine ⟨fun ⟨s₁, hmove, h⟩ => ?_, fun h => ?_⟩
        · rw [evalFrom_skip] at h
          rw [← htext]
          exact .word hmove ((ih vs.length hlt rfl).mp h)
        · rw [← htext] at h
          obtain ⟨s₁, hmove, h⟩ := h.word_inv
          refine ⟨s₁, hmove, ?_⟩
          rw [evalFrom_skip]
          exact (ih vs.length hlt rfl).mpr h

end

end Reading
