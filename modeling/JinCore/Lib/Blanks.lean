import Mathlib.Data.List.Chain
import Mathlib.Data.List.DropRight
import Mathlib.Algebra.Order.BigOperators.Group.List
import Mathlib.Algebra.Order.Ring.Nat

/-!
# Lines up to their blanks

A line is a list over any type with a predicate `blank`.  Its normal form has one `space` for each
run of blanks and none at its ends; it grows with the line, one item at a time.

* `normalize`, `normalize_concat_blank`, `normalize_concat_text`   the normal form of a longer line;
* `normalize_grows`, `normalize_ne`  the normal form of a prefix is a prefix of the normal form, and
                            another one once a word has come;
* `mem_normalize_text`, `infix_of_normalize`   words are kept as they are, and none are joined;
* `Spaced`, `spaced_normalize`, `normalize_normalize`   what a normal form looks like;
* `Trails r q`              `r` is `q` with some blanks left out, without joining two words (both
                            read backwards, from the end where a line is edited);
* `Trails.normalize_eq`, `Trails.append`, `Trails.tail`, `Trails.eraseWord`   the edits keep it.
-/

namespace Blanks

variable {α : Type*} {blank : α → Bool} {space : α}

/-- the last item, of a line read backwards, belongs to a word -/
def inWord (blank : α → Bool) (r : List α) : Bool := r.head?.any fun c => !blank c

@[simp] theorem inWord_nil : inWord blank ([] : List α) = false := rfl
@[simp] theorem inWord_cons (c : α) (r : List α) : inWord blank (c :: r) = !blank c := rfl

/-! ## the normal form -/

/-- each run of blanks becomes one `space` -/
def collapse (blank : α → Bool) (space : α) : List α → List α
  | [] => []
  | c :: cs =>
    if blank c then
      if cs.head?.any blank then collapse blank space cs else space :: collapse blank space cs
    else c :: collapse blank space cs

def trim (blank : α → Bool) (l : List α) : List α := (l.dropWhile blank).rdropWhile blank

def normalize (blank : α → Bool) (space : α) (l : List α) : List α :=
  trim blank (collapse blank space l)

/-- the normal form of a line that goes on -/
def body (blank : α → Bool) (space : α) (l : List α) : List α :=
  (collapse blank space l).dropWhile blank

theorem collapse_cons_text {c : α} (hc : blank c = false) (cs : List α) :
    collapse blank space (c :: cs) = c :: collapse blank space cs := by
  rw [collapse, hc]
  rfl

theorem collapse_cons_blank {b : α} (hb : blank b = true) (cs : List α) :
    collapse blank space (b :: cs)
      = if cs.head?.any blank then collapse blank space cs else space :: collapse blank space cs := by
  rw [collapse, if_pos hb]

theorem collapse_concat_text {c : α} (hc : blank c = false) (l : List α) :
    collapse blank space (l ++ [c]) = collapse blank space l ++ [c] := by
  induction l with
  | nil => exact collapse_cons_text hc []
  | cons a l ih =>
    have hhead : (l ++ [c]).head?.any blank = l.head?.any blank := by
      cases l with
      | nil => exact hc
      | cons d l => rfl
    cases ha : blank a with
    | false =>
      rw [List.cons_append, collapse_cons_text ha, collapse_cons_text ha, ih, List.cons_append]
    | true =>
      rw [List.cons_append, collapse_cons_blank ha, collapse_cons_blank ha, ih, hhead]
      split <;> rfl

theorem collapse_concat_blank {b : α} (hb : blank b = true) (l : List α) :
    collapse blank space (l ++ [b])
      = collapse blank space l ++ if l.getLast?.any blank then [] else [space] := by
  induction l with
  | nil => exact collapse_cons_blank hb []
  | cons a l ih =>
    cases l with
    | nil =>
      cases ha : blank a with
      | false =>
        show collapse blank space [a, b] = collapse blank space [a] ++ _
        rw [collapse_cons_text ha, collapse_cons_text ha, collapse_cons_blank hb,
          if_neg (by simp), if_neg (by simp [ha])]
        rfl
      | true =>
        show collapse blank space [a, b] = collapse blank space [a] ++ _
        rw [collapse_cons_blank ha, collapse_cons_blank hb, collapse_cons_blank ha,
          if_pos (by simpa using hb), if_neg (by simp), if_pos (by simpa using ha)]
        rfl
    | cons d l =>
      have hlast : (a :: d :: l).getLast?.any blank = (d :: l).getLast?.any blank := by
        rw [List.getLast?_cons_cons]
      cases ha : blank a with
      | false =>
        rw [List.cons_append, collapse_cons_text ha, collapse_cons_text ha, ih, hlast,
          List.cons_append]
      | true =>
        rw [List.cons_append, collapse_cons_blank ha, collapse_cons_blank ha, ih, hlast]
        show (if blank d = true then _ else _) = (if blank d = true then _ else _) ++ _
        split <;> rfl

theorem dropWhile_concat (p : α → Bool) (l : List α) (c : α) :
    (l ++ [c]).dropWhile p
      = if l.dropWhile p = [] then [c].dropWhile p else l.dropWhile p ++ [c] := by
  rw [List.dropWhile_append]
  cases l.dropWhile p <;> rfl

theorem body_concat_text {c : α} (hc : blank c = false) (l : List α) :
    body blank space (l ++ [c]) = body blank space l ++ [c] := by
  rw [body, collapse_concat_text hc, dropWhile_concat]
  split
  next h => rw [body, h, List.dropWhile_cons_of_neg (by simp [hc])]; rfl
  · rfl

theorem body_concat_blank (hs : blank space = true) {b : α} (hb : blank b = true) (l : List α) :
    body blank space (l ++ [b]) = body blank space l
      ++ if l.getLast?.any blank ∨ body blank space l = [] then [] else [space] := by
  rw [body, collapse_concat_blank hb]
  cases hl : l.getLast?.any blank with
  | true => simp [body]
  | false =>
    rw [if_neg (by simp), dropWhile_concat]
    by_cases h : (collapse blank space l).dropWhile blank = []
    · rw [if_pos h, body, h, if_pos (Or.inr rfl), List.dropWhile_cons_of_pos hs]
      rfl
    · rw [if_neg h, if_neg (by simpa [body] using h)]
      rfl

theorem normalize_eq_body (l : List α) :
    normalize blank space l = (body blank space l).rdropWhile blank := rfl

theorem normalize_concat_text {c : α} (hc : blank c = false) (l : List α) :
    normalize blank space (l ++ [c]) = body blank space l ++ [c] := by
  rw [normalize_eq_body, body_concat_text hc, List.rdropWhile_concat_neg _ _ _ (by simp [hc])]

theorem normalize_concat_blank (hs : blank space = true) {b : α} (hb : blank b = true) (l : List α) :
    normalize blank space (l ++ [b]) = normalize blank space l := by
  rw [normalize_eq_body, body_concat_blank hs hb, normalize_eq_body]
  split
  · rw [List.append_nil]
  · exact List.rdropWhile_concat_pos _ _ _ hs

theorem body_eq_nil_of_normalize {l : List α} (h : body blank space l = []) :
    normalize blank space l = [] := by
  rw [normalize_eq_body, h]
  rfl

/-- what goes on depends only on the normal form, and on whether the line ends in a word -/
theorem body_eq (hs : blank space = true) (r : List α) :
    body blank space r.reverse = normalize blank space r.reverse
      ++ if inWord blank r ∨ normalize blank space r.reverse = [] then [] else [space] := by
  induction r with
  | nil => rfl
  | cons c r ih =>
    rw [List.reverse_cons]
    cases hc : blank c with
    | false =>
      rw [body_concat_text hc, normalize_concat_text hc, inWord_cons, hc, Bool.not_false,
        if_pos (Or.inl rfl), List.append_nil]
    | true =>
      have hword : inWord blank (c :: r) = false := by rw [inWord_cons, hc]; rfl
      rw [body_concat_blank hs hc, normalize_concat_blank hs hc, hword, List.getLast?_reverse]
      by_cases hnil : normalize blank space r.reverse = []
      · rw [if_pos (Or.inr hnil), List.append_nil, hnil] at ih
        rw [ih, hnil, if_pos (Or.inr rfl), if_pos (Or.inr rfl)]
      · have hbody : body blank space r.reverse ≠ [] := fun h => hnil (body_eq_nil_of_normalize h)
        rw [if_neg (not_or_intro Bool.false_ne_true hnil)]
        cases hr : inWord blank r with
        | true =>
          rw [hr, if_pos (Or.inl rfl), List.append_nil] at ih
          have hhead : r.head?.any blank = false := by
            cases r with
            | nil => cases hr
            | cons d r => simpa using hr
          rw [if_neg (not_or_intro (by simp [hhead]) hbody), ih]
        | false =>
          rw [hr, if_neg (not_or_intro Bool.false_ne_true hnil)] at ih
          have hhead : r.head?.any blank = true := by
            cases r with
            | nil => exact absurd rfl hnil
            | cons d r => simpa using hr
          rw [if_pos (Or.inl hhead), List.append_nil, ih]

/-- nothing is left of a blank line, and of no other -/
theorem normalize_eq_nil (hs : blank space = true) (r : List α) :
    normalize blank space r.reverse = [] ↔ r.all blank = true := by
  induction r with
  | nil => exact ⟨fun _ => rfl, fun _ => rfl⟩
  | cons c r ih =>
    rw [List.reverse_cons, List.all_cons]
    cases hc : blank c with
    | false => simp [normalize_concat_text hc]
    | true => rw [normalize_concat_blank hs hc, ih, Bool.true_and]

theorem normalize_grows (hs : blank space = true) (r x : List α) :
    normalize blank space r.reverse <+: normalize blank space (x ++ r).reverse := by
  induction x with
  | nil => exact List.prefix_refl _
  | cons c x ih =>
    rw [List.cons_append, List.reverse_cons]
    cases hc : blank c with
    | true => rwa [normalize_concat_blank hs hc]
    | false =>
      rw [normalize_concat_text hc, body_eq hs, List.append_assoc]
      exact ih.trans (List.prefix_append _ _)

/-- a line with more words has another normal form -/
theorem normalize_ne (hs : blank space = true) (r : List α) {x : List α}
    (hx : x.all blank = false) :
    normalize blank space r.reverse ≠ normalize blank space (x ++ r).reverse := by
  induction x with
  | nil => cases hx
  | cons c x ih =>
    rw [List.cons_append, List.reverse_cons]
    cases hc : blank c with
    | true =>
      rw [List.all_cons, hc, Bool.true_and] at hx
      rw [normalize_concat_blank hs hc]
      exact ih hx
    | false =>
      rw [normalize_concat_text hc, body_eq hs]
      intro heq
      have hlength := congrArg List.length heq
      have hle := (normalize_grows hs r x).length_le
      simp only [List.length_append, List.length_singleton] at hlength
      omega

/-! ## words -/

theorem mem_dropWhile_text {c : α} (hc : blank c = false) {l : List α} :
    c ∈ l.dropWhile blank ↔ c ∈ l := by
  refine ⟨fun h => (List.dropWhile_sublist blank).subset h, fun h => ?_⟩
  rw [← List.takeWhile_append_dropWhile (p := blank) (l := l), List.mem_append] at h
  rcases h with h | h
  · rw [List.mem_takeWhile_imp h] at hc
    cases hc
  · exact h

theorem mem_trim_text {c : α} (hc : blank c = false) {l : List α} : c ∈ trim blank l ↔ c ∈ l := by
  rw [trim, List.rdropWhile, List.mem_reverse, mem_dropWhile_text hc, List.mem_reverse,
    mem_dropWhile_text hc]

theorem trim_eq_nil_iff {l : List α} : trim blank l = [] ↔ ∀ c ∈ l, blank c = true := by
  constructor
  · intro h c hc
    by_contra hblank
    have hmem := (mem_trim_text (Bool.eq_false_iff.mpr hblank)).mpr hc
    rw [h] at hmem
    cases hmem
  · intro h
    rw [trim, List.dropWhile_eq_nil_iff.mpr h]
    rfl

theorem eq_space_of_mem_collapse {c : α} (hc : blank c = true) {l : List α}
    (h : c ∈ collapse blank space l) : c = space := by
  induction l with
  | nil => cases h
  | cons d l ih =>
    cases hd : blank d with
    | false =>
      rw [collapse_cons_text hd, List.mem_cons] at h
      rcases h with rfl | h
      · exact absurd hc (Bool.eq_false_iff.mp hd)
      · exact ih h
    | true =>
      rw [collapse_cons_blank hd] at h
      split at h
      · exact ih h
      · exact (List.mem_cons.mp h).elim id ih

theorem trim_isInfix (l : List α) : trim blank l <:+: l :=
  (List.rdropWhile_prefix blank _).isInfix.trans (List.dropWhile_suffix blank).isInfix

theorem trim_between (l : List α) : ∃ a b, l = a ++ (trim blank l ++ b) ∧
    (∀ c ∈ a, blank c = true) ∧ ∀ c ∈ b, blank c = true := by
  refine ⟨l.takeWhile blank, (l.dropWhile blank).rtakeWhile blank, ?_,
    fun _ hc => List.mem_takeWhile_imp hc, fun _ hc => List.mem_rtakeWhile_imp hc⟩
  rw [trim, List.rdropWhile_append_rtakeWhile, List.takeWhile_append_dropWhile]

/-- no blanks but `space`, no two of them side by side, and none at the beginning -/
structure Spaced (blank : α → Bool) (space : α) (l : List α) : Prop where
  spaces : ∀ c ∈ l, blank c = true → c = space
  apart : l.IsChain fun a b => blank a = false ∨ blank b = false
  start : l.head?.any blank = false

theorem head?_collapse {l : List α} (h : l.head?.any blank = false) :
    (collapse blank space l).head? = l.head? := by
  cases l with
  | nil => rfl
  | cons c cs =>
    have hc : blank c = false := h
    rw [collapse_cons_text hc]
    rfl

theorem collapse_apart (l : List α) :
    (collapse blank space l).IsChain fun a b => blank a = false ∨ blank b = false := by
  induction l with
  | nil => exact .nil
  | cons c cs ih =>
    cases hc : blank c with
    | false =>
      rw [collapse_cons_text hc, List.isChain_cons]
      exact ⟨fun _ _ => Or.inl hc, ih⟩
    | true =>
      rw [collapse_cons_blank hc]
      cases hnext : cs.head?.any blank with
      | true =>
        rw [if_pos rfl]
        exact ih
      | false =>
        rw [if_neg Bool.false_ne_true, List.isChain_cons, head?_collapse hnext]
        refine ⟨fun d hd => Or.inr ?_, ih⟩
        rw [Option.mem_def.mp hd] at hnext
        exact hnext

theorem collapse_eq_self {l : List α} (hspaces : ∀ c ∈ l, blank c = true → c = space)
    (hapart : l.IsChain fun a b => blank a = false ∨ blank b = false) : collapse blank space l = l := by
  induction l with
  | nil => rfl
  | cons c cs ih =>
    rw [List.isChain_cons] at hapart
    have hrest := ih (fun d hd => hspaces d (List.mem_cons_of_mem _ hd)) hapart.2
    cases hc : blank c with
    | false => rw [collapse_cons_text hc, hrest]
    | true =>
      have hnext : cs.head?.any blank = false := by
        cases hhead : cs.head? with
        | none => rfl
        | some d => exact (hapart.1 d hhead).resolve_left (by simp [hc])
      rw [collapse_cons_blank hc, hnext, if_neg Bool.false_ne_true, hrest,
        hspaces c List.mem_cons_self hc]

namespace Spaced
variable {l : List α}

theorem of_prefix {m : List α} (h : Spaced blank space l) (hm : m <+: l) : Spaced blank space m where
  spaces c hc := h.spaces c (hm.subset hc)
  apart := by
    obtain ⟨rest, rfl⟩ := hm
    exact h.apart.left_of_append
  start := by
    obtain ⟨rest, rfl⟩ := hm
    cases m with
    | nil => rfl
    | cons c m => exact h.start

theorem body_eq_self (h : Spaced blank space l) : body blank space l = l := by
  rw [body, collapse_eq_self h.spaces h.apart]
  cases l with
  | nil => rfl
  | cons c cs =>
    have hc : blank c = false := h.start
    exact List.dropWhile_cons_of_neg (by simp [hc])

theorem normalize_concat (h : Spaced blank space l) {c : α} (hc : blank c = false) :
    normalize blank space (l ++ [c]) = l ++ [c] := by
  rw [normalize_concat_text hc, h.body_eq_self]

/-- a word may follow -/
theorem concat (h : Spaced blank space l) {c : α} (hc : blank c = false) :
    Spaced blank space (l ++ [c]) where
  spaces d hd hblank := by
    rcases List.mem_append.mp hd with hd | hd
    · exact h.spaces d hd hblank
    · rw [List.mem_singleton.mp hd, hc] at hblank
      cases hblank
  apart := by
    rw [List.isChain_append]
    refine ⟨h.apart, .singleton c, fun a _ b hb => Or.inr ?_⟩
    rw [List.head?_cons, Option.mem_some_iff] at hb
    rw [← hb]
    exact hc
  start := by
    cases l with
    | nil => exact hc
    | cons d l => exact h.start

end Spaced

theorem spaced_normalize (l : List α) : Spaced blank space (normalize blank space l) := by
  have hbody : Spaced blank space (body blank space l) := by
    refine ⟨fun c hc hblank => ?_, ?_, ?_⟩
    · exact eq_space_of_mem_collapse hblank ((List.dropWhile_suffix _).subset hc)
    · have hapart : (collapse blank space l).IsChain fun a b => blank a = false ∨ blank b = false := collapse_apart l
      obtain ⟨blanks, hblanks⟩ : (collapse blank space l).dropWhile blank <:+ collapse blank space l :=
        List.dropWhile_suffix _
      rw [← hblanks] at hapart
      exact hapart.right_of_append
    · have hhead := List.head?_dropWhile_not blank (collapse blank space l)
      rw [body]
      cases hc : ((collapse blank space l).dropWhile blank).head? with
      | none => rfl
      | some c =>
        rw [hc] at hhead
        exact hhead
  rw [normalize_eq_body]
  exact hbody.of_prefix (List.rdropWhile_prefix _ _)

theorem normalize_normalize (l : List α) :
    normalize blank space (normalize blank space l) = normalize blank space l := by
  have hspaced : Spaced blank space (normalize blank space l) := spaced_normalize l
  by_cases hnil : normalize blank space l = []
  · rw [hnil]
    rfl
  · have hlast : blank ((normalize blank space l).getLast hnil) = false := by
      rw [Bool.eq_false_iff]
      exact List.rdropWhile_last_not blank _ hnil
    rw [← List.dropLast_append_getLast hnil]
    exact (hspaced.of_prefix (List.dropLast_prefix _)).normalize_concat hlast

/-! ## blanks left out -/

/-- `r` is `q` with some blanks left out, never all those between two words (read backwards) -/
inductive Trails (blank : α → Bool) : List α → List α → Prop
  | nil : Trails blank [] []
  | both {r q : List α} (c : α) : Trails blank r q →
      (blank c = false → inWord blank r = inWord blank q) → Trails blank (c :: r) (c :: q)
  | skip {r q : List α} (b : α) : Trails blank r q → blank b = true → Trails blank r (b :: q)

namespace Trails

variable {r q : List α}

theorem refl (r : List α) : Trails blank r r := by
  induction r with
  | nil => exact .nil
  | cons c r ih => exact .both c ih fun _ => rfl

theorem normalize_eq (hs : blank space = true) (h : Trails blank r q) :
    normalize blank space r.reverse = normalize blank space q.reverse := by
  induction h with
  | nil => rfl
  | both c _ hword ih =>
    rw [List.reverse_cons, List.reverse_cons]
    cases hc : blank c with
    | true => rw [normalize_concat_blank hs hc, normalize_concat_blank hs hc, ih]
    | false =>
      rw [normalize_concat_text hc, normalize_concat_text hc, body_eq hs, body_eq hs, ih, hword hc]
  | skip b _ hb ih => rw [List.reverse_cons, normalize_concat_blank hs hb, ih]

/-- a line with blanks left out is no longer, however its items are measured -/
theorem sum_le (weight : α → Nat) (h : Trails blank r q) :
    (r.map weight).sum ≤ (q.map weight).sum := by
  induction h with
  | nil => exact Nat.le_refl _
  | both c _ _ ih =>
    rw [List.map_cons, List.map_cons, List.sum_cons, List.sum_cons]
    exact Nat.add_le_add_left ih (weight c)
  | skip b _ _ ih =>
    rw [List.map_cons, List.sum_cons]
    exact Nat.le_trans ih (Nat.le_add_left _ (weight b))

theorem all_blank (h : Trails blank r q) : r.all blank = q.all blank := by
  induction h with
  | nil => rfl
  | both c _ _ ih => rw [List.all_cons, List.all_cons, ih]
  | skip b _ hb ih => rw [List.all_cons, hb, Bool.true_and, ih]

/-- and where both are blank, neither ends in a word -/
theorem inWord_of_all_blank (hr : r.all blank = true) : inWord blank r = false := by
  cases r with
  | nil => rfl
  | cons c r =>
    rw [List.all_cons, Bool.and_eq_true] at hr
    rw [inWord_cons, hr.1]
    rfl

theorem skips {x : List α} (h : Trails blank r q) (hx : ∀ c ∈ x, blank c = true) :
    Trails blank r (x ++ q) := by
  induction x with
  | nil => exact h
  | cons b x ih =>
    exact .skip b (ih fun c hc => hx c (List.mem_cons_of_mem _ hc)) (hx b List.mem_cons_self)

/-- one more blank may be left out at the end -/
theorem drop_blank {b : α} (hb : blank b = true) (h : Trails blank (b :: r) q) :
    Trails blank r q := by
  generalize hl : b :: r = l at h
  induction h with
  | nil => cases hl
  | both c h _ _ =>
    cases hl
    exact .skip b h hb
  | skip d _ hd ih => exact .skip d (ih hl) hd

theorem dropWhile_blank (h : Trails blank r q) : Trails blank (r.dropWhile blank) q := by
  induction r with
  | nil => exact h
  | cons c r ih =>
    cases hc : blank c with
    | true =>
      rw [List.dropWhile_cons_of_pos hc]
      exact ih (h.drop_blank hc)
    | false => rwa [List.dropWhile_cons_of_neg (by simp [hc])]

/-- a word is added at the same place -/
theorem append (h : Trails blank r q) (text : List α)
    (hword : text.head?.any (fun c => !blank c) → inWord blank r = inWord blank q) :
    Trails blank (text.reverse ++ r) (text.reverse ++ q) := by
  induction text generalizing r q with
  | nil => exact h
  | cons c text ih =>
    rw [List.reverse_cons, List.append_assoc, List.append_assoc]
    refine ih (.both c h fun hc => hword ?_) fun _ => rfl
    simp [hc]

/-- the last item is taken off both -/
theorem tail (h : Trails blank r q) (hword : inWord blank r = inWord blank q) :
    Trails blank r.tail q.tail := by
  cases h with
  | nil => exact .nil
  | both c h _ => exact h
  | skip b h hb =>
    rw [inWord_cons, hb] at hword
    cases r with
    | nil => exact h
    | cons c r =>
      rw [inWord_cons, Bool.not_true, Bool.not_eq_false'] at hword
      exact h.drop_blank hword

/-- the blanks after the last word are taken off the longer line only -/
theorem dropWhile_blank_right (h : Trails blank r q) (hr : inWord blank r = true) :
    Trails blank r (q.dropWhile blank) := by
  induction h with
  | nil => exact .nil
  | both c h hword _ =>
    rw [inWord_cons, Bool.not_eq_true'] at hr
    rw [List.dropWhile_cons_of_neg (by simp [hr])]
    exact .both c h hword
  | skip b _ hb ih =>
    rw [List.dropWhile_cons_of_pos hb]
    exact ih hr

theorem dropWhile_text (h : Trails blank r q) (hword : inWord blank r = inWord blank q) :
    Trails blank (r.dropWhile fun c => !blank c) (q.dropWhile fun c => !blank c) := by
  induction h with
  | nil => exact .nil
  | both c h hboth ih =>
    cases hc : blank c with
    | true =>
      rw [List.dropWhile_cons_of_neg (by simp [hc]), List.dropWhile_cons_of_neg (by simp [hc])]
      exact .both c h hboth
    | false =>
      rw [List.dropWhile_cons_of_pos (by simp [hc]), List.dropWhile_cons_of_pos (by simp [hc])]
      exact ih (hboth hc)
  | @skip r q b h hb _ =>
    rw [inWord_cons, hb] at hword
    have hr : r.dropWhile (fun c => !blank c) = r := by
      cases r with
      | nil => rfl
      | cons c r => exact List.dropWhile_cons_of_neg (by simpa using hword)
    rw [hr, List.dropWhile_cons_of_neg (by simp [hb])]
    exact .skip b h hb

theorem inWord_dropWhile_blank (h : Trails blank r q) (hr : inWord blank r = true) :
    inWord blank (q.dropWhile blank) = true := by
  induction h with
  | nil => cases hr
  | both c _ _ _ =>
    rw [inWord_cons, Bool.not_eq_true'] at hr
    rw [List.dropWhile_cons_of_neg (by simp [hr]), inWord_cons, hr]
    rfl
  | skip b _ hb ih =>
    rw [List.dropWhile_cons_of_pos hb]
    exact ih hr

/-- the last word goes: one line loses the blanks after it, the other those before it -/
theorem eraseWord (h : Trails blank r q) (hr : inWord blank r = true ∨ r.all blank = true) :
    Trails blank ((r.dropWhile fun c => !blank c).dropWhile blank)
      ((q.dropWhile blank).dropWhile fun c => !blank c) := by
  rcases hr with hr | hr
  · have hq := h.inWord_dropWhile_blank hr
    exact ((h.dropWhile_blank_right hr).dropWhile_text (hr.trans hq.symm)).dropWhile_blank
  · have hq : q.all blank = true := h.all_blank ▸ hr
    have hall : ∀ l : List α, l.all blank = true → l.dropWhile blank = [] := by
      intro l hl
      rw [List.dropWhile_eq_nil_iff]
      exact List.all_eq_true.mp hl
    have htext : r.dropWhile (fun c => !blank c) = r := by
      cases r with
      | nil => rfl
      | cons c r =>
        have hc := (Bool.and_eq_true_iff.mp hr).1
        exact List.dropWhile_cons_of_neg (by simp [hc])
    rw [htext, hall r hr, hall q hq]
    exact .nil

end Trails

end Blanks
