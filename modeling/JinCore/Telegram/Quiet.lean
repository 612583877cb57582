import JinCore.Telegram.Passes

/-!
# Texts without markup

* `isQuiet`         a unit that no pattern of the renderer begins with;
* `codeFence_needs` .. `marker_needs`   each pattern has another one;
* `rendered_quiet`  such a text is only escaped.
-/

namespace Telegram
open JsString Regex

/-- the signs of Markdown, the brackets of a tag, the `g` of `&gt;`, and what is taken out before -/
def signs : List UInt16 := (lit "`|[#-*_+~<>g\r").units ++ [openMark, closeMark]

def isQuiet (u : UInt16) : Bool := !signs.contains u

/-- some unit is none of a quiet text -/
abbrev Loud (r : Regex UInt16) : Prop := Needs (fun u => isQuiet u = false) r

section
variable {r : Regex UInt16} {us : List UInt16}

theorem replace_quiet (hr : Loud r) (f : List UInt16 → (Nat → List UInt16) → List UInt16)
    (hus : ∀ u ∈ us, isQuiet u = true) : replace r f us = us :=
  replace_of_needs hr f fun u hu => by rw [hus u hu]; exact Bool.noConfusion

theorem loud_text {t : String} (h : ∃ u ∈ (lit t).units, isQuiet u = false) : Loud (text t) :=
  needs_literal h

theorem loud_unit {c : Char} (h : isQuiet (UInt16.ofNat c.toNat) = false) : Loud (one (isUnit c)) :=
  needs_one fun u hu => by rw [of_decide_eq_true hu]; exact h

theorem codeFence_loud : Loud codeFence := (loud_text (by decide)).seq_left

theorem table_loud : Loud table :=
  (Needs.seq_left (loud_text (by decide))).seq_right.rep (Nat.succ_pos 0)

theorem inlineCode_loud : Loud inlineCode := (loud_text (by decide)).seq_left

theorem link_loud : Loud link := (loud_text (by decide)).seq_left

theorem heading_loud : Loud heading :=
  (Needs.seq_left ((loud_unit (by decide)).rep (Nat.succ_pos 0))).seq_right.seq_right

theorem horizontalRule_loud : Loud horizontalRule := by
  have hthree : ∀ c : Char, isQuiet (UInt16.ofNat c.toNat) = false →
      Loud (.rep 3 none true (one (isUnit c))) := fun c hc => (loud_unit hc).rep (Nat.succ_pos 2)
  have hany := (hthree '-' (by decide)).alt
    ((hthree '*' (by decide)).alt (hthree '_' (by decide)))
  exact hany.seq_left.seq_right.seq_right

theorem quote_loud : Loud quote :=
  (Needs.seq_left (loud_text (by decide))).seq_right

theorem bullet_loud : Loud bullet := by
  have hsign : Loud (one fun u => isUnit '-' u || isUnit '*' u || isUnit '+' u) := by
    refine needs_one fun u hu => ?_
    rw [Bool.or_eq_true, Bool.or_eq_true] at hu
    rcases hu with (hu | hu) | hu <;> rw [of_decide_eq_true hu] <;> decide
  exact hsign.seq_left.seq_right.seq_right

theorem emphases_loud (letter : Nat → Bool) : ∀ e ∈ emphases letter, Loud e.2 := by
  have hitalic : ∀ c : Char, isQuiet (UInt16.ofNat c.toNat) = false → Loud (italic letter c) :=
    fun c hc => (loud_unit hc).seq_left.seq_right
  intro e he
  simp only [emphases, List.mem_cons, List.not_mem_nil, or_false] at he
  rcases he with rfl | rfl | rfl | rfl | rfl
  · exact (loud_text (by decide)).seq_left
  · exact (Needs.seq_left (loud_text (by decide))).seq_right
  · exact (loud_text (by decide)).seq_left
  · exact hitalic '*' (by decide)
  · exact hitalic '_' (by decide)

theorem marker_loud : Loud marker := by
  refine (needs_one fun u hu => ?_).seq_left
  rw [of_decide_eq_true hu]
  decide

/-! ## the passes -/

variable (hus : ∀ u ∈ us, isQuiet u = true)
include hus

theorem notMem_of_quiet {c : UInt16} (hc : isQuiet c = false) : c ∉ us := fun hmem => by
  rw [hus c hmem] at hc
  cases hc

theorem replaceFrom_quiet {c : UInt16} (hc : isQuiet c = false) (pattern y : List UInt16) :
    Occurrences.replaceFrom (c :: pattern) y 0 us = us := by
  have hhead : (c :: pattern).head? = some c := rfl
  have happend := Occurrences.replaceFrom_append hhead (notMem_of_quiet hus hc) y []
  rwa [List.append_nil, Occurrences.replaceFrom, List.append_nil] at happend

theorem stashItems_quiet (hr : Loud r) (html : List UInt16 → (Nat → List UInt16) → List UInt16)
    (blocks : List (List UInt16)) : stashItems html blocks (scan r us) = (us, blocks) := by
  rw [scan_of_needs hr fun u hu => by rw [hus u hu]; exact Bool.noConfusion]
  clear hus
  induction us with
  | nil => rfl
  | cons u us ih => rw [List.map_cons, stashItems, ih]

theorem prepared_quiet : prepared us = us := by
  have hreplace : replaceAll "\r\n" "\n" us = us := replaceFrom_quiet hus (by decide) _ _
  rw [prepared, hreplace, List.filter_eq_self]
  intro u hu
  refine decide_eq_true ⟨?_, ?_⟩ <;> rintro rfl
  · exact notMem_of_quiet hus (by decide) hu
  · exact notMem_of_quiet hus (by decide) hu

theorem protectCode_quiet : protectCode us = (us, []) := by
  rw [protectCode, prepared_quiet hus]
  simp only [stashItems_quiet hus codeFence_loud, stashItems_quiet hus table_loud,
    stashItems_quiet hus inlineCode_loud]

theorem escapeHtml_quiet : ∀ u ∈ escapeHtml us, isQuiet u = true := by
  have hsingle : ∀ u, isQuiet u = true → ∀ v ∈ escapeHtml [u], isQuiet v = true := by
    intro u hu
    rw [escapeHtml_single]
    split
    · decide
    split
    next hlt =>
      rw [hlt] at hu
      exact absurd hu (by decide)
    split
    next hgt =>
      rw [hgt] at hu
      exact absurd hu (by decide)
    · exact fun v hv => List.mem_singleton.mp hv ▸ hu
  induction us with
  | nil => exact fun u hu => (List.not_mem_nil hu).elim
  | cons u us ih =>
    rw [List.forall_mem_cons] at hus
    rw [← List.singleton_append, escapeHtml_append, List.forall_mem_append]
    exact ⟨hsingle u hus.1, ih hus.2⟩

theorem lineMarkup_quiet : lineMarkup us = escapeHtml us := by
  have hquiet := escapeHtml_quiet hus
  have hjoin : joinQuotes (escapeHtml us) = escapeHtml us :=
    replaceFrom_quiet hquiet (by decide) _ _
  rw [lineMarkup, links, replace_quiet link_loud _ hquiet, headings,
    replace_quiet heading_loud _ hquiet, horizontalRules, replace_quiet horizontalRule_loud _ hquiet,
    quotes, replace_quiet quote_loud _ hquiet, hjoin, bullets, replace_quiet bullet_loud _ hquiet]

theorem emphasis_quiet (letter : Nat → Bool) : emphasis letter us = us := by
  have hfold : ∀ steps : List Emphasis, (∀ e ∈ steps, Loud e.2) →
      steps.foldl (fun us e => emphasize e.1 e.2 us) us = us := by
    intro steps hsteps
    induction steps with
    | nil => rfl
    | cons e steps ih =>
      rw [List.forall_mem_cons] at hsteps
      rw [List.foldl_cons, emphasize, replace_quiet hsteps.1 _ hus]
      exact ih hsteps.2
  exact hfold _ (emphases_loud letter)

/-- **a text without markup is only escaped** -/
theorem rendered_quiet (letter : Nat → Bool) :
    (markdownToTelegramHtml letter ⟨us⟩).units = escapeHtml us := by
  have hquiet := escapeHtml_quiet hus
  rw [markdownToTelegramHtml_units, protectCode_quiet hus, lineMarkup_quiet hus,
    emphasis_quiet hquiet, restore, replace_quiet marker_loud _ hquiet]

end

end Telegram
