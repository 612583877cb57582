import JinCore.Lib.Blanks
import JinCore.Lib.Regex

/-!
# Regular expressions on marked symbols

A symbol may carry a mark that no expression looks at.

* `Regex.comap f r`      `r` on symbols of which it sees the image under `f`;
* `run_comap`, `exec_comap`, `scanFrom_comap`   it finds the same as `r` in the images;
* `replace_comap`        a replacement commutes with taking the images, if what is put in does;
* `Blanks.collapse_map`, `Blanks.trim_map`   so does the folding of blanks.
-/

namespace Regex
variable {α β : Type*} (f : α → β)

/-- the expression sees the images of the symbols -/
def comap : Regex β → Regex α
  | .empty => .empty
  | .token width => .token fun l => width (l.map f)
  | .look p => .look fun before after => p (before.map f) (after.map f)
  | .seq a b => .seq (comap a) (comap b)
  | .alt a b => .alt (comap a) (comap b)
  | .rep min max greedy a => .rep min max greedy (comap a)
  | .group i a => .group i (comap a)

def Cursor.map (c : Cursor α) : Cursor β :=
  ⟨c.before.map f, c.after.map f, fun i => (c.groups i).map f⟩

theorem Cursor.map_read (c : Cursor α) (n : Nat) : (c.read n).map f = (c.map f).read n := by
  rw [Cursor.read, Cursor.map, Cursor.read, Cursor.map]
  simp only [List.map_append, List.map_reverse, List.map_take, List.map_drop]

theorem Cursor.map_upTo (c d : Cursor α) : (c.upTo d).map f = (c.map f).upTo (d.map f) := by
  rw [Cursor.upTo, Cursor.upTo, List.map_take]
  simp only [Cursor.map, List.length_map]

/-- the matchers agree on what they find -/
def Agrees (m : Matcher α) (m' : Matcher β) : Prop :=
  ∀ c k k', (∀ d : Cursor α, (k d).map (Cursor.map f) = k' (d.map f)) →
    (m c k).map (Cursor.map f) = m' (c.map f) k'

variable {f}

theorem map_choose {γ δ : Type*} (h : γ → δ) (greedy : Bool) (again stop : Unit → Option γ) :
    (choose greedy again stop).map h
      = choose greedy (fun _ => (again ()).map h) fun _ => (stop ()).map h := by
  rw [choose, choose]
  cases greedy with
  | true => cases again () <;> rfl
  | false => cases stop () <;> rfl

theorem Agrees.times {m : Matcher α} {m' : Matcher β} (h : Agrees f m m') (n : Nat) :
    Agrees f (times m n) (times m' n) := by
  induction n with
  | zero => exact fun c k k' hk => hk c
  | succ n ih => exact fun c k k' hk => h c _ _ fun d => ih d k k' hk

theorem Agrees.more {m : Matcher α} {m' : Matcher β} (h : Agrees f m m') (greedy : Bool)
    (fuel : Nat) (max : Option Nat) : Agrees f (more m greedy fuel max) (more m' greedy fuel max) := by
  induction fuel generalizing max with
  | zero => exact fun c k k' hk => hk c
  | succ fuel ih =>
    intro c k k' hk
    rw [Regex.more, Regex.more]
    split
    · exact hk c
    · rw [map_choose]
      have hagain := h c (fun d => if d.after.length < c.after.length then
        Regex.more m greedy fuel (max.map (· - 1)) d k else none)
        (fun d => if d.after.length < (c.map f).after.length then
          Regex.more m' greedy fuel (max.map (· - 1)) d k' else none) (by
        intro d
        have hl : (d.map f).after.length = d.after.length := List.length_map _
        have hc : (c.map f).after.length = c.after.length := List.length_map _
        rw [hl, hc]
        split
        · exact ih _ d k k' hk
        · rfl)
      rw [hagain, hk c]

/-- **on the images the expression finds the same** -/
theorem run_comap (r : Regex β) : Agrees f (run (comap f r)) (run r) := by
  induction r with
  | empty => exact fun c k k' hk => hk c
  | token width =>
    intro c k k' hk
    rw [comap, run, run]
    have hl : (c.map f).after.length = c.after.length := List.length_map _
    rw [hl]
    have hafter : (c.map f).after = c.after.map f := rfl
    rw [hafter]
    cases width (c.after.map f) with
    | none => rfl
    | some n =>
      show Option.map _ (if n ≤ c.after.length then k (c.read n) else none)
        = if n ≤ c.after.length then k' ((c.map f).read n) else none
      split
      · rw [hk, Cursor.map_read]
      · rfl
  | look p =>
    intro c k k' hk
    rw [comap, run, run]
    show Option.map _ (if p (c.before.map f) (c.after.map f) = true then k c else none)
      = if p (c.before.map f) (c.after.map f) = true then k' (c.map f) else none
    split
    · exact hk c
    · rfl
  | seq a b iha ihb => exact fun c k k' hk => iha c _ _ fun d => ihb d k k' hk
  | alt a b iha ihb =>
    intro c k k' hk
    rw [comap, run, run, map_choose, iha c k k' hk, ihb c k k' hk]
  | rep min max greedy a ih =>
    intro c k k' hk
    rw [comap, run, run]
    refine ih.times min c _ _ fun d => ?_
    have hl : (d.map f).after.length = d.after.length := List.length_map _
    rw [hl]
    exact ih.more greedy _ _ d k k' hk
  | group i a ih =>
    intro c k k' hk
    rw [comap, run, run]
    refine ih c _ _ fun d => ?_
    rw [hk]
    congr 1
    rw [Cursor.map, Cursor.map, Cursor.mk.injEq]
    refine ⟨rfl, rfl, ?_⟩
    funext j
    show List.map f (Function.update d.groups i (c.upTo d) j)
      = Function.update (fun i => (d.groups i).map f) i ((c.map f).upTo (d.map f)) j
    by_cases hj : j = i
    · subst hj
      rw [Function.update_self, Function.update_self]
      exact Cursor.map_upTo f c d
    · rw [Function.update_of_ne hj, Function.update_of_ne hj]

theorem exec_comap (r : Regex β) (before after : List α) :
    (exec (comap f r) before after).map (fun m => (m.1.map f, fun i => (m.2 i).map f))
      = exec r (before.map f) (after.map f) := by
  have h := run_comap (f := f) r ⟨before, after, fun _ => []⟩ some some fun _ => rfl
  have hc : Cursor.map f ⟨before, after, fun _ => []⟩
      = ⟨before.map f, after.map f, fun _ => []⟩ := rfl
  rw [hc] at h
  rw [exec, exec, ← h, Option.map_map, Option.map_map]
  congr 1
  funext d
  show ((after.take _).map f, _) = ((after.map f).take _, _)
  rw [List.map_take, List.length_map]
  simp only [Cursor.map, List.length_map]

variable (f) in
def Item.map : Item α → Item β
  | .kept c => .kept (f c)
  | .found w g => .found (w.map f) fun i => (g i).map f

theorem scanFrom_nil (r : Regex α) (skip : Nat) (before : List α) :
    scanFrom r skip before [] = match exec r before [] with
      | some (w, g) => [.found w g]
      | none => [] := by
  cases skip <;> cases h : exec r before [] <;> rw [scanFrom, h]

theorem scanFrom_comap (r : Regex β) (skip : Nat) (before after : List α) :
    (scanFrom (comap f r) skip before after).map (Item.map f)
      = scanFrom r skip (before.map f) (after.map f) := by
  induction after generalizing skip before with
  | nil =>
    have h := exec_comap (f := f) r before []
    rw [List.map_nil, scanFrom_nil, scanFrom_nil]
    rw [List.map_nil] at h
    rw [← h]
    cases exec (comap f r) before [] <;> rfl
  | cons c cs ih =>
    cases skip with
    | succ skip => exact ih skip (c :: before)
    | zero =>
      have h := exec_comap (f := f) r before (c :: cs)
      rw [List.map_cons] at h ⊢
      rw [scanFrom, scanFrom, ← h]
      cases exec (comap f r) before (c :: cs) with
      | none => exact congrArg _ (ih 0 (c :: before))
      | some m =>
        obtain ⟨w, g⟩ := m
        cases w with
        | nil => exact congrArg _ (congrArg _ (ih 0 (c :: before)))
        | cons d w =>
          have hw := ih w.length (c :: before)
          show _ :: List.map _ _ = _ :: scanFrom r (w.map f).length _ _
          rw [List.length_map, hw]
          rfl

/-- **a replacement commutes with taking the images** -/
theorem replace_comap (r : Regex β) {F : List α → (Nat → List α) → List α}
    (F' : List β → (Nat → List β) → List β)
    (hF : ∀ w g, (F w g).map f = F' (w.map f) fun i => (g i).map f) (text : List α) :
    (replace (comap f r) F text).map f = replace r F' (text.map f) := by
  rw [replace, replace, scan, scan, ← List.map_nil (f := f), ← scanFrom_comap, List.map_flatMap,
    List.flatMap_map]
  refine List.flatMap_congr fun i _ => ?_
  cases i with
  | kept c => rfl
  | found w g => exact hF w g

/-! ## the expressions that the marks do not change -/

theorem comap_one (p : β → Bool) : comap f (one p) = one fun c => p (f c) := by
  rw [one, one, comap]
  congr 1
  funext l
  cases l <;> rfl

theorem comap_cat (rs : List (Regex β)) : comap f (cat rs) = cat (rs.map (comap f)) := by
  induction rs with
  | nil => rfl
  | cons r rs ih => rw [cat, comap, ih, List.map_cons, cat]

end Regex

namespace Blanks
variable {α β : Type*} (f : α → β) (blank : β → Bool) (space : α)

theorem collapse_map (l : List α) :
    (collapse (fun c => blank (f c)) space l).map f = collapse blank (f space) (l.map f) := by
  induction l with
  | nil => rfl
  | cons c cs ih =>
    have hhead : (cs.map f).head?.any blank = cs.head?.any fun c => blank (f c) := by
      cases cs <;> rfl
    rw [List.map_cons, collapse, collapse, hhead, ← ih]
    split
    · split <;> rfl
    · rfl

theorem trim_map (l : List α) :
    (trim (fun c => blank (f c)) l).map f = trim blank (l.map f) := by
  have hdrop : ∀ l : List α, (l.dropWhile fun c => blank (f c)).map f = (l.map f).dropWhile blank := by
    intro l
    rw [List.dropWhile_map]
    rfl
  rw [trim, trim, List.rdropWhile, List.rdropWhile, List.map_reverse, hdrop, List.map_reverse, hdrop]

end Blanks
