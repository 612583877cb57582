import JinCore.Lib.Occurrences
import Mathlib.Data.List.Infix
import Mathlib.Logic.Function.Basic

/-!
# Regular expressions that backtrack

Expressions over any symbols, matched as ECMAScript matches them: an alternative, or one more
round of a repetition, is tried in the order of preference, and the first way in which the rest
matches too is taken.

* `Regex`, `Regex.run`   expressions and their matcher, which is given what has to match next;
* `Regex.Spans`          the text between two positions is matched; `run_sound`;
* `scan`, `Scanned`      the matches of a global search from left to right, and what lies between;
* `Segments`             the same, with all symbols between two matches taken together;
* `replace`              `text.replace(/../g, f)`;
* `Needs P r`            each match has a symbol that meets `P`; `replace_of_needs`;
* `replace_rel`          what is read from state to state is read so after a replacement, if each
                         match and its replacement are;
* `replace_literal`      a literal pattern is replaced as `Occurrences.replaceFrom` does.
-/

/-- an expression; groups are numbered, and none of them stands inside a repetition -/
inductive Regex (α : Type*) where
  | empty
  /-- reads as many symbols as `width` says of what follows, if it says so -/
  | token (width : List α → Option Nat)
  /-- holds of what comes before (read backwards) and of what follows -/
  | look (p : List α → List α → Bool)
  | seq (a b : Regex α)
  | alt (a b : Regex α)
  /-- `{min,max}`, without an upper bound if there is no `max`; lazy if not `greedy` -/
  | rep (min : Nat) (max : Option Nat) (greedy : Bool) (a : Regex α)
  | group (i : Nat) (a : Regex α)

namespace Regex
variable {α : Type*}

/-! ## the matcher -/

/-- a position in a text, and what the groups have matched so far -/
structure Cursor (α : Type*) where
  /-- read backwards -/
  before : List α
  after : List α
  groups : Nat → List α

def Cursor.read (c : Cursor α) (n : Nat) : Cursor α :=
  ⟨(c.after.take n).reverse ++ c.before, c.after.drop n, c.groups⟩

/-- what is matched from `c` to `d` -/
def Cursor.upTo (c d : Cursor α) : List α := c.after.take (c.after.length - d.after.length)

/-- a matcher is given what has to match next -/
abbrev Matcher (α : Type*) := Cursor α → (Cursor α → Option (Cursor α)) → Option (Cursor α)

/-- the first of two ways that succeeds -/
def choose {β : Type*} (greedy : Bool) (again stop : Unit → Option β) : Option β :=
  if greedy then (again ()).orElse stop else (stop ()).orElse again

/-- exactly `n` times -/
def times (m : Matcher α) : Nat → Matcher α
  | 0, c, k => k c
  | n + 1, c, k => m c fun d => times m n d k

/-- at most `max` times; a round that reads nothing fails, so that the length of what follows bounds
their number -/
def more (m : Matcher α) (greedy : Bool) : Nat → Option Nat → Matcher α
  | 0, _, c, k => k c
  | fuel + 1, max, c, k =>
    if max = some 0 then k c
    else choose greedy
      (fun _ => m c fun d =>
        if d.after.length < c.after.length then more m greedy fuel (max.map (· - 1)) d k else none)
      fun _ => k c

def run : Regex α → Matcher α
  | .empty, c, k => k c
  | .token width, c, k =>
    match width c.after with
    | some n => if n ≤ c.after.length then k (c.read n) else none
    | none => none
  | .look p, c, k => if p c.before c.after then k c else none
  | .seq a b, c, k => run a c fun d => run b d k
  | .alt a b, c, k => choose true (fun _ => run a c k) fun _ => run b c k
  | .rep min max greedy a, c, k =>
    times (run a) min c fun d => more (run a) greedy d.after.length (max.map (· - min)) d k
  | .group i a, c, k =>
    run a c fun d => k { d with groups := Function.update d.groups i (c.upTo d) }

/-! ## common expressions -/

/-- a symbol of a class -/
def one (p : α → Bool) : Regex α :=
  .token fun
    | [] => none
    | c :: _ => if p c then some 1 else none

/-- as many symbols of a class as possible -/
def many (p : α → Bool) : Regex α := .rep 0 none true (one p)

/-- at least one symbol of a class, as many as possible -/
def some₁ (p : α → Bool) : Regex α := .rep 1 none true (one p)

def cat : List (Regex α) → Regex α
  | [] => .empty
  | a :: as => .seq a (cat as)

def literal [DecidableEq α] (l : List α) : Regex α := cat (l.map fun c => one fun d => decide (d = c))

/-! ## what a match covers -/

/-- rounds of `S` one after the other -/
def Rounds (S : List α → List α → List α → (Nat → List α) → (Nat → List α) → Prop) :
    Nat → List α → List α → List α → (Nat → List α) → (Nat → List α) → Prop
  | 0, _, w, _, g, g' => w = [] ∧ g' = g
  | n + 1, before, w, after, g, g' => ∃ u v g₁, w = u ++ v ∧ S before u (v ++ after) g g₁ ∧
      Rounds S n (u.reverse ++ before) v after g₁ g'

/-- `w`, between `before` (read backwards) and `after`, is matched, and the groups go from `g` to
`g'` -/
def Spans : Regex α → List α → List α → List α → (Nat → List α) → (Nat → List α) → Prop
  | .empty, _, w, _, g, g' => w = [] ∧ g' = g
  | .token width, _, w, after, g, g' => width (w ++ after) = some w.length ∧ g' = g
  | .look p, before, w, after, g, g' => w = [] ∧ p before after = true ∧ g' = g
  | .seq a b, before, w, after, g, g' => ∃ u v g₁, w = u ++ v ∧
      Spans a before u (v ++ after) g g₁ ∧ Spans b (u.reverse ++ before) v after g₁ g'
  | .alt a b, before, w, after, g, g' =>
    Spans a before w after g g' ∨ Spans b before w after g g'
  | .rep min max _ a, before, w, after, g, g' => ∃ n, min ≤ n ∧
      (∀ m, max = some m → n ≤ min + (m - min)) ∧ Rounds (Spans a) n before w after g g'
  | .group i a, before, w, after, g, g' => ∃ g₁, Spans a before w after g g₁ ∧
      g' = Function.update g₁ i w

/-- what a matcher finds, and hands on to what has to match next, is an `S` -/
def Sound (m : Matcher α)
    (S : List α → List α → List α → (Nat → List α) → (Nat → List α) → Prop) : Prop :=
  ∀ c k x, m c k = some x → ∃ w after g, c.after = w ++ after ∧ S c.before w after c.groups g ∧
    k ⟨w.reverse ++ c.before, after, g⟩ = some x

section
variable {m : Matcher α} {S : List α → List α → List α → (Nat → List α) → (Nat → List α) → Prop}

theorem choose_eq_some {β : Type*} {greedy : Bool} {again stop : Unit → Option β} {x : β}
    (h : choose greedy again stop = some x) : again () = some x ∨ stop () = some x := by
  rw [choose] at h
  split at h
  · rw [Option.orElse_eq_or, Option.or_eq_some_iff] at h
    exact h.imp_right And.right
  · rw [Option.orElse_eq_or, Option.or_eq_some_iff] at h
    exact (h.imp_right And.right).symm

theorem rounds_append {n j : Nat} {before u v after : List α} {g g₁ g' : Nat → List α}
    (hu : Rounds S n before u (v ++ after) g g₁)
    (hv : Rounds S j (u.reverse ++ before) v after g₁ g') :
    Rounds S (n + j) before (u ++ v) after g g' := by
  induction n generalizing before u g with
  | zero =>
    obtain ⟨rfl, rfl⟩ := hu
    rw [Nat.zero_add]
    exact hv
  | succ n ih =>
    obtain ⟨u₁, u₂, g₂, rfl, hfirst, hrest⟩ := hu
    rw [List.reverse_append, List.append_assoc] at hv
    rw [Nat.succ_add]
    refine ⟨u₁, u₂ ++ v, g₂, List.append_assoc .., ?_, ih hrest hv⟩
    rw [List.append_assoc]
    exact hfirst

theorem times_sound (hm : Sound m S) (n : Nat) : Sound (times m n) (Rounds S n) := by
  induction n with
  | zero => exact fun c k x h => ⟨[], c.after, c.groups, rfl, ⟨rfl, rfl⟩, h⟩
  | succ n ih =>
    intro c k x h
    obtain ⟨u, after₁, g₁, hafter, hfirst, hnext⟩ := hm c _ x h
    obtain ⟨v, after, g, rfl, hrest, hk⟩ := ih _ k x hnext
    refine ⟨u ++ v, after, g, by rw [hafter, List.append_assoc],
      ⟨u, v, g₁, rfl, hfirst, hrest⟩, ?_⟩
    rw [List.reverse_append, List.append_assoc]
    exact hk

theorem more_sound (hm : Sound m S) (greedy : Bool) (fuel : Nat) (max : Option Nat) :
    Sound (more m greedy fuel max) fun before w after g g' => ∃ n, (∀ b, max = some b → n ≤ b) ∧
      Rounds S n before w after g g' := by
  induction fuel generalizing max with
  | zero =>
    exact fun c k x h => ⟨[], c.after, c.groups, rfl, ⟨0, fun b _ => Nat.zero_le b, rfl, rfl⟩, h⟩
  | succ fuel ih =>
    intro c k x h
    have hstop : k c = some x → ∃ w after g, c.after = w ++ after ∧
        (∃ n, (∀ b, max = some b → n ≤ b) ∧ Rounds S n c.before w after c.groups g) ∧
        k ⟨w.reverse ++ c.before, after, g⟩ = some x :=
      fun h => ⟨[], c.after, c.groups, rfl, ⟨0, fun b _ => Nat.zero_le b, rfl, rfl⟩, h⟩
    rw [more] at h
    split at h
    · exact hstop h
    next hmax =>
      rcases choose_eq_some h with hagain | h
      · obtain ⟨u, after₁, g₁, hafter, hfirst, hround⟩ := hm c _ x hagain
        obtain ⟨-, hnext⟩ := Option.ite_none_right_eq_some.mp hround
        obtain ⟨v, after, g, rfl, ⟨n, hn, hrest⟩, hk⟩ := ih _ _ k x hnext
        refine ⟨u ++ v, after, g, by rw [hafter, List.append_assoc],
          ⟨n + 1, fun b hb => ?_, u, v, g₁, rfl, hfirst, hrest⟩, ?_⟩
        · have hpos : b ≠ 0 := fun h => hmax (h ▸ hb)
          have hle := hn (b - 1) (by rw [hb]; rfl)
          omega
        · rw [List.reverse_append, List.append_assoc]
          exact hk
      · exact hstop h

end

/-- the matcher finds only what the expression covers -/
theorem run_sound (r : Regex α) : Sound (run r) (Spans r) := by
  induction r with
  | empty => exact fun c k x h => ⟨[], c.after, c.groups, rfl, ⟨rfl, rfl⟩, h⟩
  | token width =>
    intro c k x h
    rw [run] at h
    split at h
    next n hwidth =>
      obtain ⟨hle, h⟩ := Option.ite_none_right_eq_some.mp h
      refine ⟨c.after.take n, c.after.drop n, c.groups, (List.take_append_drop n c.after).symm,
        ⟨?_, rfl⟩, h⟩
      rw [List.take_append_drop, hwidth, List.length_take, Nat.min_eq_left hle]
    next => cases h
  | look p =>
    intro c k x h
    obtain ⟨hp, h⟩ := Option.ite_none_right_eq_some.mp h
    exact ⟨[], c.after, c.groups, rfl, ⟨rfl, hp, rfl⟩, h⟩
  | seq a b iha ihb =>
    intro c k x h
    obtain ⟨u, after₁, g₁, hafter, ha, hnext⟩ := iha c _ x h
    obtain ⟨v, after, g, rfl, hb, hk⟩ := ihb _ k x hnext
    refine ⟨u ++ v, after, g, by rw [hafter, List.append_assoc], ⟨u, v, g₁, rfl, ha, hb⟩, ?_⟩
    rw [List.reverse_append, List.append_assoc]
    exact hk
  | alt a b iha ihb =>
    intro c k x h
    rcases choose_eq_some h with h | h
    · obtain ⟨w, after, g, hafter, ha, hk⟩ := iha c k x h
      exact ⟨w, after, g, hafter, Or.inl ha, hk⟩
    · obtain ⟨w, after, g, hafter, hb, hk⟩ := ihb c k x h
      exact ⟨w, after, g, hafter, Or.inr hb, hk⟩
  | rep low high greedy a ih =>
    intro c k x h
    obtain ⟨u, after₁, g₁, hafter, hmin, hnext⟩ := times_sound ih low c _ x h
    obtain ⟨v, after, g, rfl, ⟨n, hn, hmore⟩, hk⟩ := more_sound ih greedy _ _ _ k x hnext
    refine ⟨u ++ v, after, g, by rw [hafter, List.append_assoc],
      ⟨low + n, Nat.le_add_right low n, fun m hm => ?_, rounds_append hmin hmore⟩, ?_⟩
    · have hle := hn (m - low) (by rw [hm]; rfl)
      omega
    · rw [List.reverse_append, List.append_assoc]
      exact hk
  | group i a ih =>
    intro c k x h
    obtain ⟨w, after, g, hafter, ha, hk⟩ := ih c _ x h
    refine ⟨w, after, Function.update g i w, hafter, ⟨g, ha, rfl⟩, ?_⟩
    have hw : c.upTo ⟨w.reverse ++ c.before, after, g⟩ = w := by
      rw [Cursor.upTo, hafter, List.length_append, Nat.add_sub_cancel, List.take_left]
    rw [hw] at hk
    exact hk

/-! ## what common expressions cover -/

section
variable {before w after : List α} {g g' : Nat → List α}

theorem spans_one {p : α → Bool} (h : Spans (one p) before w after g g') :
    (∃ c, p c = true ∧ w = [c]) ∧ g' = g := by
  obtain ⟨hwidth, hg⟩ := h
  refine ⟨?_, hg⟩
  cases htext : w ++ after with
  | nil => rw [htext] at hwidth; cases hwidth
  | cons c cs =>
    rw [htext] at hwidth
    obtain ⟨hc, hlength⟩ := Option.ite_none_right_eq_some.mp hwidth
    obtain ⟨d, rfl⟩ := List.length_eq_one_iff.mp (Option.some.inj hlength).symm
    rw [List.singleton_append, List.cons.injEq] at htext
    exact ⟨d, htext.1 ▸ hc, rfl⟩

/-- each round reads something made of `p`, and sets no group -/
theorem rounds_all {S : List α → List α → List α → (Nat → List α) → (Nat → List α) → Prop}
    {p : α → Prop} (hS : ∀ before w after g g', S before w after g g' →
      (∀ c ∈ w, p c) ∧ w ≠ [] ∧ g' = g) {n : Nat} (h : Rounds S n before w after g g') :
    (∀ c ∈ w, p c) ∧ n ≤ w.length ∧ g' = g := by
  induction n generalizing before w g with
  | zero =>
    obtain ⟨rfl, rfl⟩ := h
    exact ⟨fun c hc => (List.not_mem_nil hc).elim, Nat.le_refl 0, rfl⟩
  | succ n ih =>
    obtain ⟨u, v, g₁, rfl, hfirst, hrest⟩ := h
    obtain ⟨hu, hne, rfl⟩ := hS _ _ _ _ _ hfirst
    obtain ⟨hv, hle, rfl⟩ := ih hrest
    refine ⟨fun c hc => (List.mem_append.mp hc).elim (hu c) (hv c), ?_, rfl⟩
    have hpos := List.length_pos_iff.mpr hne
    rw [List.length_append]
    omega

theorem spans_rep {a : Regex α} {p : α → Prop} (ha : ∀ before w after g g',
      Spans a before w after g g' → (∀ c ∈ w, p c) ∧ w ≠ [] ∧ g' = g)
    {low : Nat} {high : Option Nat} {greedy : Bool}
    (h : Spans (.rep low high greedy a) before w after g g') :
    (∀ c ∈ w, p c) ∧ low ≤ w.length ∧ g' = g := by
  obtain ⟨n, hlow, -, h⟩ := h
  obtain ⟨hall, hle, hg⟩ := rounds_all ha h
  exact ⟨hall, hlow.trans hle, hg⟩

/-- a repeated class -/
theorem spans_class {p : α → Bool} {low : Nat} {high : Option Nat} {greedy : Bool}
    (h : Spans (.rep low high greedy (one p)) before w after g g') :
    (∀ c ∈ w, p c = true) ∧ low ≤ w.length ∧ g' = g := by
  refine spans_rep (fun before w after g g' h => ?_) h
  obtain ⟨⟨c, hc, rfl⟩, rfl⟩ := spans_one h
  exact ⟨fun d hd => List.mem_singleton.mp hd ▸ hc, List.cons_ne_nil c [], rfl⟩

theorem spans_literal [DecidableEq α] {l : List α} (h : Spans (literal l) before w after g g') :
    w = l ∧ g' = g := by
  induction l generalizing before w g with
  | nil => exact h
  | cons c l ih =>
    obtain ⟨u, v, g₁, rfl, hc, hl⟩ := h
    obtain ⟨⟨d, hd, rfl⟩, rfl⟩ := spans_one hc
    obtain ⟨rfl, rfl⟩ := ih hl
    exact ⟨by rw [of_decide_eq_true hd, List.singleton_append], rfl⟩

end

/-! ## the matches of a text -/

/-- the match that is found at a position, and its groups -/
def exec (r : Regex α) (before after : List α) : Option (List α × (Nat → List α)) :=
  (run r ⟨before, after, fun _ => []⟩ some).map fun c =>
    (after.take (after.length - c.after.length), c.groups)

theorem exec_spans {r : Regex α} {before text w : List α} {g : Nat → List α}
    (h : exec r before text = some (w, g)) :
    ∃ after, text = w ++ after ∧ Spans r before w after (fun _ => []) g := by
  obtain ⟨c, hc, hw⟩ := Option.map_eq_some_iff.mp h
  obtain ⟨v, after, g₁, htext, hspans, hd⟩ := run_sound r _ _ c hc
  cases hd
  have htext' : text = v ++ after := htext
  rw [htext', List.length_append, Nat.add_sub_cancel, List.take_left] at hw
  cases hw
  exact ⟨after, htext', hspans⟩

/-- a symbol that no match covers, or a match -/
inductive Item (α : Type*) where
  | kept (c : α)
  | found (w : List α) (groups : Nat → List α)

/-- the first argument counts the symbols of a match that are still to be passed over -/
def scanFrom (r : Regex α) : Nat → List α → List α → List (Item α)
  | _, before, [] =>
    match exec r before [] with
    | some (w, g) => [.found w g]
    | none => []
  | skip + 1, before, c :: cs => scanFrom r skip (c :: before) cs
  | 0, before, c :: cs =>
    match exec r before (c :: cs) with
    | some ([], g) => .found [] g :: .kept c :: scanFrom r 0 (c :: before) cs
    | some (d :: w, g) => .found (d :: w) g :: scanFrom r w.length (c :: before) cs
    | none => .kept c :: scanFrom r 0 (c :: before) cs

/-- the matches of a global search, and what lies between them -/
def scan (r : Regex α) (text : List α) : List (Item α) := scanFrom r 0 [] text

def Item.render (f : List α → (Nat → List α) → List α) : Item α → List α
  | .kept c => [c]
  | .found w g => f w g

/-- `text.replace(/../g, f)` -/
def replace (r : Regex α) (f : List α → (Nat → List α) → List α) (text : List α) : List α :=
  (scan r text).flatMap (Item.render f)

/-- the items that a search can give from a position on -/
inductive Scanned (r : Regex α) : List α → List α → List (Item α) → Prop
  | nil (before : List α) : Scanned r before [] []
  | kept {before after : List α} {items : List (Item α)} (c : α) :
      Scanned r (c :: before) after items → Scanned r before (c :: after) (.kept c :: items)
  | found {before after : List α} {items : List (Item α)} (w : List α) (g : Nat → List α) :
      Spans r before w after (fun _ => []) g → Scanned r (w.reverse ++ before) after items →
      Scanned r before (w ++ after) (.found w g :: items)

theorem scanFrom_skip (r : Regex α) (before w after : List α) :
    scanFrom r w.length before (w ++ after) = scanFrom r 0 (w.reverse ++ before) after := by
  induction w generalizing before with
  | nil => rfl
  | cons c w ih =>
    rw [List.cons_append, List.length_cons, scanFrom, ih, List.reverse_cons, List.append_assoc,
      List.singleton_append]

theorem scanned_from (r : Regex α) (n : Nat) : ∀ before after : List α, after.length = n →
    Scanned r before after (scanFrom r 0 before after) := by
  induction n using Nat.strong_induction_on with
  | h n ih =>
    intro before after hn
    cases after with
    | nil =>
      rw [scanFrom]
      split
      next w g hexec =>
        obtain ⟨after, htext, hspans⟩ := exec_spans hexec
        obtain ⟨rfl, rfl⟩ := List.append_eq_nil_iff.mp htext.symm
        exact .found [] g hspans (.nil _)
      next => exact .nil before
    | cons c cs =>
      have hlt : cs.length < n := by rw [← hn]; exact Nat.lt_succ_self _
      have hkept := Scanned.kept c (ih cs.length hlt (c :: before) cs rfl)
      rw [scanFrom]
      split
      next g hexec =>
        obtain ⟨after, rfl, hspans⟩ := exec_spans hexec
        exact .found [] g hspans hkept
      next d w g hexec =>
        obtain ⟨after, htext, hspans⟩ := exec_spans hexec
        rw [List.cons_append, List.cons.injEq] at htext
        obtain ⟨rfl, rfl⟩ := htext
        have hle : after.length < n := by
          rw [List.length_append] at hlt
          omega
        have hreverse : (c :: w).reverse ++ before = w.reverse ++ c :: before := by
          rw [List.reverse_cons, List.append_assoc, List.singleton_append]
        have hrest := ih after.length hle ((c :: w).reverse ++ before) after rfl
        rw [scanFrom_skip, ← hreverse]
        exact .found (c :: w) g hspans hrest
      next => exact hkept

theorem scanned (r : Regex α) (text : List α) : Scanned r [] text (scan r text) :=
  scanned_from r text.length [] text rfl

namespace Scanned
variable {r : Regex α} {before after : List α} {items : List (Item α)}

/-- each match stands somewhere in the text -/
theorem found_spans (h : Scanned r before after items) {w : List α} {g : Nat → List α}
    (hmem : .found w g ∈ items) : ∃ p q, before.reverse ++ after = p ++ (w ++ q) ∧
      Spans r p.reverse w q (fun _ => []) g := by
  induction h with
  | nil => cases hmem
  | kept c _ ih =>
    have hrest := (List.mem_cons.mp hmem).resolve_left (by simp)
    obtain ⟨p, q, htext, hspans⟩ := ih hrest
    refine ⟨p, q, ?_, hspans⟩
    rw [← htext, List.reverse_cons, List.append_assoc, List.singleton_append]
  | @found before after items v g' hspans _ ih =>
    rcases List.mem_cons.mp hmem with heq | hmem
    · cases heq
      exact ⟨before.reverse, after, rfl, by rw [List.reverse_reverse]; exact hspans⟩
    · obtain ⟨p, q, htext, hspans⟩ := ih hmem
      refine ⟨p, q, ?_, hspans⟩
      rw [← htext, List.reverse_append, List.reverse_reverse, List.append_assoc]

end Scanned

theorem scan_found {r : Regex α} {text w : List α} {g : Nat → List α}
    (hmem : .found w g ∈ scan r text) : ∃ p q, text = p ++ (w ++ q) ∧
      Spans r p.reverse w q (fun _ => []) g := (scanned r text).found_spans hmem

/-- the items of a search, with the symbols between two matches taken together -/
inductive Segments (r : Regex α) : List α → List α → List (Item α) → Prop
  | last (before p : List α) : Segments r before p (p.map .kept)
  | found {before after : List α} {items : List (Item α)} (p w : List α) (g : Nat → List α) :
      Spans r (p.reverse ++ before) w after (fun _ => []) g →
      Segments r (w.reverse ++ (p.reverse ++ before)) after items →
      Segments r before (p ++ (w ++ after)) (p.map .kept ++ .found w g :: items)

theorem Scanned.segments {r : Regex α} {before after : List α} {items : List (Item α)}
    (h : Scanned r before after items) : Segments r before after items := by
  induction h with
  | nil before => exact .last before []
  | @kept before after items c _ ih =>
    generalize hb : c :: before = before' at ih
    cases ih with
    | last => exact .last before (c :: after)
    | found p w g hspans hrest =>
      subst hb
      have hreverse : (c :: p).reverse ++ before = p.reverse ++ c :: before := by
        rw [List.reverse_cons, List.append_assoc, List.singleton_append]
      rw [← hreverse] at hspans hrest
      exact .found (c :: p) w g hspans hrest
  | found w g hspans _ ih => exact .found [] w g hspans ih

/-! ## what a match needs -/

/-- each match has a symbol that meets `P` -/
def Needs (P : α → Prop) (r : Regex α) : Prop := ∀ before w after g g',
  Spans r before w after g g' → ∃ c ∈ w, P c

section
variable {P : α → Prop} {a b : Regex α}

theorem Needs.seq_left (h : Needs P a) : Needs P (.seq a b) := by
  rintro before w after g g' ⟨u, v, g₁, rfl, hspans, -⟩
  obtain ⟨c, hc, hP⟩ := h _ _ _ _ _ hspans
  exact ⟨c, List.mem_append_left v hc, hP⟩

theorem Needs.seq_right (h : Needs P b) : Needs P (.seq a b) := by
  rintro before w after g g' ⟨u, v, g₁, rfl, -, hspans⟩
  obtain ⟨c, hc, hP⟩ := h _ _ _ _ _ hspans
  exact ⟨c, List.mem_append_right u hc, hP⟩

theorem Needs.alt (ha : Needs P a) (hb : Needs P b) : Needs P (.alt a b) :=
  fun _ _ _ _ _ h => h.elim (ha _ _ _ _ _) (hb _ _ _ _ _)

theorem Needs.group {i : Nat} (h : Needs P a) : Needs P (.group i a) := by
  rintro before w after g g' ⟨g₁, hspans, -⟩
  exact h _ _ _ _ _ hspans

theorem Needs.rep {low : Nat} {high : Option Nat} {greedy : Bool} (hlow : 0 < low) (h : Needs P a) :
    Needs P (.rep low high greedy a) := by
  rintro before w after g g' ⟨n, hn, -, hrounds⟩
  cases n with
  | zero => exact absurd hn (Nat.not_le_of_lt hlow)
  | succ n =>
    obtain ⟨u, v, g₁, rfl, hspans, -⟩ := hrounds
    obtain ⟨c, hc, hP⟩ := h _ _ _ _ _ hspans
    exact ⟨c, List.mem_append_left v hc, hP⟩

theorem needs_one {p : α → Bool} (h : ∀ c, p c = true → P c) : Needs P (one p) := by
  intro before w after g g' hspans
  obtain ⟨⟨c, hc, rfl⟩, -⟩ := spans_one hspans
  exact ⟨c, List.mem_singleton_self c, h c hc⟩

theorem needs_literal [DecidableEq α] {l : List α} (h : ∃ c ∈ l, P c) : Needs P (literal l) := by
  intro before w after g g' hspans
  obtain ⟨rfl, -⟩ := spans_literal hspans
  exact h

theorem scan_of_needs {r : Regex α} (h : Needs P r) {text : List α} (htext : ∀ c ∈ text, ¬ P c) :
    scan r text = text.map .kept := by
  have hall : ∀ before after items, Scanned r before after items → (∀ c ∈ after, ¬ P c) →
      items = after.map .kept := by
    intro before after items hscanned
    induction hscanned with
    | nil => exact fun _ => rfl
    | kept c _ ih =>
      intro hafter
      rw [ih fun d hd => hafter d (List.mem_cons_of_mem c hd)]
      rfl
    | found w g hspans _ _ =>
      intro hafter
      obtain ⟨c, hc, hP⟩ := h _ _ _ _ _ hspans
      exact absurd hP (hafter c (List.mem_append_left _ hc))
  exact hall [] text _ (scanned r text) htext

theorem replace_of_needs {r : Regex α} (h : Needs P r) (f : List α → (Nat → List α) → List α)
    {text : List α} (htext : ∀ c ∈ text, ¬ P c) : replace r f text = text := by
  rw [replace, scan_of_needs h htext, List.flatMap_map]
  exact List.flatMap_singleton' text

end

/-! ## what is certainly found -/

/-- `text` is read from one state to another; if a match and what replaces it are always read from
the same state to the same state, then the replaced text is read as the text was -/
theorem replace_rel {σ : Type*} {R : σ → List α → σ → Prop}
    (hcomp : ∀ {a b c u v}, R a u b → R b v c → R a (u ++ v) c)
    (hcancel : ∀ {a b c u v}, R a u b → R a (u ++ v) c → R b v c)
    {r : Regex α} {f : List α → (Nat → List α) → List α} {text : List α} {a z : σ}
    (hnil : R a [] a) (htext : R a text z)
    (hmatch : ∀ p w q g, text = p ++ (w ++ q) → Item.found w g ∈ scan r text →
      Spans r p.reverse w q (fun _ => []) g →
      ∃ b c, R a p b ∧ R b w c ∧ R b (f w g) c ∧ R c q z) :
    R a (replace r f text) z := by
  have hpart : ∀ before after items, Scanned r before after items →
      (∀ i ∈ items, i ∈ scan r text) → text = before.reverse ++ after →
      ∀ done since b, before.reverse = done ++ since → R a done b → R b (since ++ after) z →
        R b (since ++ items.flatMap (Item.render f)) z := by
    intro before after items h
    induction h with
    | nil => exact fun _ _ _ _ _ _ _ hrest => hrest
    | kept c _ ih =>
      intro hitems heq done since b hbefore hdone hrest
      rw [List.append_cons] at hrest
      rw [List.flatMap_cons, Item.render, ← List.append_assoc]
      refine ih (fun i hi => hitems i (List.mem_cons_of_mem _ hi)) ?_ done _ b ?_ hdone hrest
      · rw [heq, List.reverse_cons, List.append_assoc, List.singleton_append]
      · rw [List.reverse_cons, hbefore, List.append_assoc]
    | @found before after items w g hspans _ ih =>
      intro hitems heq done since b hbefore hdone hrest
      obtain ⟨c, d, hc, hw, hf, hq⟩ := hmatch before.reverse w after g heq
        (hitems _ List.mem_cons_self) (by rw [List.reverse_reverse]; exact hspans)
      have hsince : R b since c := hcancel hdone (hbefore ▸ hc)
      have hnext := ih (fun i hi => hitems i (List.mem_cons_of_mem _ hi))
        (by rw [heq, List.reverse_append, List.reverse_reverse, List.append_assoc])
        (before.reverse ++ w) [] d
        (by rw [List.reverse_append, List.reverse_reverse, List.append_nil]) (hcomp hc hw) hq
      rw [List.flatMap_cons, Item.render]
      exact hcomp hsince (hcomp hf hnext)
  exact hpart [] text _ (scanned r text) (fun _ hi => hi) rfl [] [] a rfl hnil htext

/-! ## literal patterns -/

theorem run_one (p : α → Bool) (before after : List α) (groups : Nat → List α) (c : α)
    (k : Cursor α → Option (Cursor α)) :
    run (one p) ⟨before, c :: after, groups⟩ k
      = if p c then k ⟨c :: before, after, groups⟩ else none := by
  show (match if p c then some 1 else none with
    | some n => if n ≤ (c :: after).length then k (Cursor.read ⟨before, c :: after, groups⟩ n) else none
    | none => none) = _
  cases p c with
  | false => rfl
  | true => exact if_pos (Nat.le_add_left 1 after.length)

/-- all symbols of a class are tried first -/
theorem more_class {p : α → Bool} {body rest : List α} (hbody : ∀ c ∈ body, p c = true)
    (hrest : rest.head?.all (fun c => !p c) = true) {fuel : Nat} (hfuel : body.length ≤ fuel)
    {before : List α} {groups : Nat → List α} {k : Cursor α → Option (Cursor α)} {d : Cursor α}
    (hk : k ⟨body.reverse ++ before, rest, groups⟩ = some d) :
    more (run (one p)) true fuel none ⟨before, body ++ rest, groups⟩ k = some d := by
  induction body generalizing fuel before with
  | nil =>
    cases fuel with
    | zero => exact hk
    | succ fuel =>
      rw [more, if_neg (fun h => nomatch h), choose, if_pos rfl]
      have hstop : ∀ k' : Cursor α → Option (Cursor α),
          run (one p) ⟨before, [] ++ rest, groups⟩ k' = none := by
        intro k'
        cases rest with
        | nil => rfl
        | cons c rest =>
          rw [List.head?_cons, Option.all_some, Bool.not_eq_true'] at hrest
          rw [List.nil_append, run_one, hrest]
          rfl
      rw [hstop]
      exact hk
  | cons c body ih =>
    cases fuel with
    | zero => exact absurd hfuel (Nat.not_succ_le_zero _)
    | succ fuel =>
      have hnext : more (run (one p)) true fuel none ⟨c :: before, body ++ rest, groups⟩ k = some d := by
        refine ih (fun c hc => hbody c (List.mem_cons_of_mem _ hc)) (Nat.le_of_succ_le_succ hfuel) ?_
        rw [← hk, List.reverse_cons, List.append_assoc, List.singleton_append]
      have hlt : (body ++ rest).length < (c :: (body ++ rest)).length := Nat.lt_succ_self _
      rw [more, if_neg (fun h => nomatch h), choose, if_pos rfl, List.cons_append, run_one,
        if_pos (hbody c List.mem_cons_self), if_pos hlt]
      show (more (run (one p)) true fuel none _ k).orElse _ = some d
      rw [hnext]
      rfl

theorem run_some₁_class {p : α → Bool} {c : α} {body rest : List α}
    (hbody : ∀ d ∈ c :: body, p d = true) (hrest : rest.head?.all (fun d => !p d) = true)
    {before : List α} {groups : Nat → List α} {k : Cursor α → Option (Cursor α)} {d : Cursor α}
    (hk : k ⟨(c :: body).reverse ++ before, rest, groups⟩ = some d) :
    run (some₁ p) ⟨before, (c :: body) ++ rest, groups⟩ k = some d := by
  rw [some₁, run]
  show run (one p) ⟨before, c :: (body ++ rest), groups⟩ _ = some d
  rw [run_one, if_pos (hbody c List.mem_cons_self)]
  refine more_class (fun e he => hbody e (List.mem_cons_of_mem c he)) hrest ?_ ?_
  · rw [List.length_append]
    exact Nat.le_add_right _ _
  · rw [← hk, List.reverse_cons, List.append_assoc, List.singleton_append]

section
variable [DecidableEq α]

theorem run_literal (l : List α) (c : Cursor α) (k : Cursor α → Option (Cursor α)) :
    run (literal l) c k = if l.isPrefixOf c.after then k (c.read l.length) else none := by
  induction l generalizing c with
  | nil => exact (if_pos rfl).symm
  | cons d l ih =>
    obtain ⟨before, after, groups⟩ := c
    cases after with
    | nil => rfl
    | cons e after =>
      have hrun : run (literal (d :: l)) ⟨before, e :: after, groups⟩ k
          = if decide (e = d) then run (literal l) ⟨e :: before, after, groups⟩ k else none := by
        rw [literal, List.map_cons, cat, run]
        exact run_one ..
      rw [hrun]
      by_cases hed : e = d
      · subst hed
        have hprefix : (e :: l).isPrefixOf (e :: after) = l.isPrefixOf after := by
          rw [List.isPrefixOf, beq_self_eq_true, Bool.true_and]
        have hread : (Cursor.mk before (e :: after) groups).read (l.length + 1)
            = (Cursor.mk (e :: before) after groups).read l.length := by
          simp [Cursor.read]
        rw [decide_eq_true rfl, if_pos rfl, hprefix, List.length_cons, hread]
        exact ih _
      · have hprefix : (d :: l).isPrefixOf (e :: after) = false := by
          rw [List.isPrefixOf, beq_false_of_ne (Ne.symm hed), Bool.false_and]
        rw [decide_eq_false hed, hprefix]
        rfl

theorem exec_literal (l before after : List α) :
    exec (literal l) before after
      = if l.isPrefixOf after then some (l, fun _ => []) else none := by
  rw [exec, run_literal]
  split
  next h =>
    obtain ⟨rest, rfl⟩ := List.isPrefixOf_iff_prefix.mp h
    have htake : (l ++ rest).length - (rest).length = l.length := by
      rw [List.length_append, Nat.add_sub_cancel]
    rw [Option.map_some]
    show some ((l ++ rest).take ((l ++ rest).length - ((l ++ rest).drop l.length).length), _) = _
    rw [List.drop_left, htake, List.take_left]
    rfl
  next => rfl

theorem replace_literal {l : List α} (hl : l ≠ []) (y text : List α) :
    replace (literal l) (fun _ _ => y) text = Occurrences.replaceFrom l y 0 text := by
  have hfrom : ∀ skip before, (scanFrom (literal l) skip before text).flatMap
      (Item.render fun _ _ => y) = Occurrences.replaceFrom l y skip text := by
    induction text with
    | nil =>
      intro skip before
      have hnone : l.isPrefixOf [] = false := by
        cases l with
        | nil => exact absurd rfl hl
        | cons c l => rfl
      have hscan : scanFrom (literal l) skip before [] = [] := by
        cases skip <;> rw [scanFrom, exec_literal, hnone] <;> rfl
      rw [hscan]
      cases skip <;> rfl
    | cons c cs ih =>
      intro skip before
      cases skip with
      | succ skip => exact ih skip (c :: before)
      | zero =>
        rw [scanFrom, exec_literal, Occurrences.replaceFrom]
        by_cases hprefix : l.isPrefixOf (c :: cs) = true
        · rw [if_pos hprefix, if_pos hprefix]
          cases l with
          | nil => exact absurd rfl hl
          | cons d l =>
            dsimp only
            rw [List.flatMap_cons, ih]
            rfl
        · rw [if_neg hprefix, if_neg hprefix]
          dsimp only
          rw [List.flatMap_cons, ih]
          rfl
  exact hfrom 0 []

end

end Regex
