import JinCore.Telegram.Tags

/-!
# What the patterns of the renderer cover

* `isLoose`            units that stand in no word but the class of `<code>`;
* `isDelimiter`        blanks and the signs of the patterns;
* `cut_delimited`      a text that is read can be cut around loose units;
* `Encloses`, `Delimits`   a pattern that covers its first group between two copies of a sign;
* `link_spans`, `heading_spans`, ..   what the other patterns cover.
-/

namespace Telegram
open JsString Regex Reading Nesting

/-! ## loose units -/

/-- a unit of no word but the class of `<code>` -/
def isLoose (u : UInt16) : Bool := simpleWords.all fun w => !w.units.contains u

def AllLoose (us : List UInt16) : Prop := ∀ u ∈ us, isLoose u = true

instance (us : List UInt16) : Decidable (AllLoose us) :=
  inferInstanceAs (Decidable (∀ u ∈ us, isLoose u = true))

theorem notMem_of_isLoose {u : UInt16} (hu : isLoose u = true) {w : Word} (hw : w ∈ simpleWords) :
    u ∉ w.units := by
  intro h
  have hnot := List.all_eq_true.mp hu w hw
  rw [List.contains_iff_mem.mpr h] at hnot
  cases hnot

theorem word_units_ok : ∀ w ∈ simpleWords, ∀ u ∈ w.units,
    isSpace u = false ∧ isLineTerminator u = false ∧ isDigit u = false ∧ u ≠ openMark ∧
      u ≠ closeMark := by decide

theorem isLoose_of {u : UInt16} (h : ∀ w ∈ simpleWords, u ∉ w.units) : isLoose u = true := by
  refine List.all_eq_true.mpr fun w hw => ?_
  rw [Bool.not_eq_true', ← Bool.not_eq_true]
  exact fun hmem => h w hw (List.contains_iff_mem.mp hmem)

theorem isLoose_of_isSpace {u : UInt16} (h : isSpace u = true) : isLoose u = true :=
  isLoose_of fun w hw hu => by
    rw [(word_units_ok w hw u hu).1] at h
    cases h

theorem isLoose_of_isLineTerminator {u : UInt16} (h : isLineTerminator u = true) :
    isLoose u = true :=
  isLoose_of fun w hw hu => by
    rw [(word_units_ok w hw u hu).2.1] at h
    cases h

theorem not_begins_of_isLoose {u : UInt16} (hu : isLoose u = true) : ¬ htmlCode.begins u := by
  rintro (rfl | rfl)
  · exact absurd hu (by decide)
  · exact absurd hu (by decide)

/-! ## delimiters -/

/-- a blank, or a sign of a pattern -/
def isDelimiter (u : UInt16) : Bool := isSpace u || (lit "#-*_+~").units.contains u

def Delimiting (us : List UInt16) : Prop := ∀ u ∈ us, isDelimiter u = true

instance (us : List UInt16) : Decidable (Delimiting us) :=
  inferInstanceAs (Decidable (∀ u ∈ us, isDelimiter u = true))

theorem isLoose_of_isDelimiter {u : UInt16} (h : isDelimiter u = true) : isLoose u = true := by
  rw [isDelimiter, Bool.or_eq_true] at h
  rcases h with h | h
  · exact isLoose_of_isSpace h
  · have hsigns : AllLoose (lit "#-*_+~").units := by decide
    exact hsigns u (List.contains_iff_mem.mp h)

theorem Delimiting.allLoose {us : List UInt16} (h : Delimiting us) : AllLoose us :=
  fun u hu => isLoose_of_isDelimiter (h u hu)

theorem Delimiting.append {us vs : List UInt16} (hu : Delimiting us) (hv : Delimiting vs) :
    Delimiting (us ++ vs) := fun c hc => (List.mem_append.mp hc).elim (hu c) (hv c)

theorem isDelimiter_of_isInlineSpace {u : UInt16} (h : isInlineSpace u = true) : isDelimiter u = true := by
  rw [isDelimiter, ((Bool.and_eq_true _ _).mp h).1, Bool.true_or]

theorem isDelimiter_of_isUnit {c : Char} (hc : isDelimiter (UInt16.ofNat c.toNat) = true) {u : UInt16}
    (h : isUnit c u = true) : isDelimiter u = true := by
  rw [of_decide_eq_true h]
  exact hc

/-! ## cutting around loose units -/

/-- only words without a class are read -/
def Simple {σ : Type*} (R : Reader htmlCode σ) : Prop := ∀ t, R.Live t → t ∈ simpleWords

section
variable {σ : Type*} {R : Reader htmlCode σ} {s z : σ} {us vs : List UInt16}

theorem AllLoose.foreign (hR : Simple R) (hus : AllLoose us) : Foreign R us := fun u hu =>
  ⟨not_begins_of_isLoose (hus u hu), fun t ht => notMem_of_isLoose (hus u hu) (hR t ht)⟩

theorem apart_before (hR : Simple R) (hne : us ≠ []) (hus : AllLoose us) {a b : List UInt16} :
    Apart R a (us ++ b) := (hus.foreign hR).apart_before hne

/-- loose units at the beginning are read where they stand -/
theorem cut_loose (hR : Simple R) (hus : AllLoose us) (h : Reads R s (us ++ vs) z) :
    Reads R s us s ∧ Reads R s vs z := h.cut_foreign (hus.foreign hR)

/-- a part between loose units -/
theorem cut_delimited (hR : Simple R) {p d body e q : List UInt16} (hne : d ≠ []) (hd : AllLoose d)
    (he : AllLoose e) (hend : Apart R body (e ++ q))
    (h : Reads R s (p ++ (d ++ (body ++ (e ++ q)))) z) :
    ∃ b c, Reads R s p b ∧ Reads R b d b ∧ Reads R b body c ∧ Reads R c e c ∧ Reads R c q z :=
  h.cut_around hne (hd.foreign hR) (he.foreign hR) hend

end

/-! ## marks on both sides -/

/-- the pattern covers its first group between two copies of some delimiters -/
def Encloses (r : Regex UInt16) : Prop :=
  ∀ before w after g, Spans r before w after (fun _ => []) g →
    ∃ d, d ≠ [] ∧ Delimiting d ∧ w = d ++ (g 1 ++ d)

/-- the pattern covers its first group between two copies of some loose units -/
def Delimits (r : Regex UInt16) : Prop :=
  ∀ before w after g, Spans r before w after (fun _ => []) g →
    ∃ d, d ≠ [] ∧ AllLoose d ∧ w = d ++ (g 1 ++ d)

theorem Encloses.delimits {r : Regex UInt16} (h : Encloses r) : Delimits r := by
  intro before w after g hspans
  obtain ⟨d, hne, hd, hw⟩ := h before w after g hspans
  exact ⟨d, hne, hd.allLoose, hw⟩

section
variable {before w after : List UInt16} {g₀ g : Nat → List UInt16}

theorem spans_text {t : String} (h : Spans (text t) before w after g₀ g) :
    w = (lit t).units ∧ g = g₀ := spans_literal h

theorem spans_isUnit {c : Char} (h : Spans (one (isUnit c)) before w after g₀ g) :
    w = [UInt16.ofNat c.toNat] ∧ g = g₀ := by
  obtain ⟨⟨u, hu, rfl⟩, hg⟩ := spans_one h
  exact ⟨by rw [of_decide_eq_true hu], hg⟩

/-- a mark, the group, and the mark again -/
theorem encloses_of_text {t : String} {r : Regex UInt16} (hne : (lit t).units ≠ [])
    (hdelimiting : Delimiting (lit t).units) :
    Encloses (cat [text t, .group 1 r, text t]) := by
  rintro before w after g ⟨d, w₁, g₁, rfl, hd, v, w₂, g₂, rfl, ⟨g₃, hv, rfl⟩, d', w₃, g₄, rfl, hd',
    rfl, rfl⟩
  obtain ⟨rfl, rfl⟩ := spans_text hd
  obtain ⟨rfl, rfl⟩ := spans_text hd'
  refine ⟨_, hne, hdelimiting, ?_⟩
  rw [Function.update_self, List.append_nil]

/-- the same between two conditions on what is around -/
theorem encloses_of_looks {r m : Regex UInt16} {d : List UInt16}
    {p p' : List UInt16 → List UInt16 → Bool} (hne : d ≠ []) (hdelimiting : Delimiting d)
    (hm : ∀ {before w after g₀ g}, Spans m before w after g₀ g → w = d ∧ g = g₀) :
    Encloses (cat [.look p, m, .group 1 r, m, .look p']) := by
  rintro before w after g ⟨_, w₀, g₀, rfl, ⟨rfl, -, rfl⟩, d₁, w₁, g₁, rfl, hd, v, w₂, g₂, rfl,
    ⟨g₃, hv, rfl⟩, d₂, w₃, g₄, rfl, hd', _, w₄, g₅, rfl, ⟨rfl, -, rfl⟩, rfl, rfl⟩
  obtain ⟨rfl, rfl⟩ := hm hd
  obtain ⟨rfl, rfl⟩ := hm hd'
  refine ⟨_, hne, hdelimiting, ?_⟩
  rw [Function.update_self, List.append_nil, List.append_nil, List.nil_append]

end

theorem boldStars_encloses : Encloses boldStars :=
  encloses_of_text (by decide) (by decide)

theorem strike_encloses : Encloses strike :=
  encloses_of_text (by decide) (by decide)

section
variable (letter : Nat → Bool)

theorem boldUnderscores_encloses : Encloses (boldUnderscores letter) :=
  encloses_of_looks (by decide) (by decide) spans_text

theorem italic_encloses {c : Char} (hc : isDelimiter (UInt16.ofNat c.toNat) = true) :
    Encloses (italic letter c) := by
  refine encloses_of_looks (List.cons_ne_nil _ _) (fun u hu => ?_) spans_isUnit
  rw [List.mem_singleton.mp hu]
  exact hc

theorem emphases_enclose : ∀ e ∈ emphases letter, Encloses e.2 := by
  intro e he
  simp only [emphases, List.mem_cons, List.not_mem_nil, or_false] at he
  rcases he with rfl | rfl | rfl | rfl | rfl
  · exact boldStars_encloses
  · exact boldUnderscores_encloses letter
  · exact strike_encloses
  · exact italic_encloses letter (by decide)
  · exact italic_encloses letter (by decide)

theorem emphases_delimit : ∀ e ∈ emphases letter, Delimits e.2 :=
  fun e he => (emphases_enclose letter e he).delimits

end

/-! ## the other patterns -/

/-- the end of a line, or of the text -/
def AtLineEnd (us : List UInt16) : Prop := us.head?.all isLineTerminator = true

section
variable {before w after : List UInt16} {g₀ g : Nat → List UInt16}

theorem delimiting_many {p : UInt16 → Bool} (hp : ∀ {u}, p u = true → isDelimiter u = true)
    {low : Nat} {high : Option Nat} {greedy : Bool}
    (h : Spans (.rep low high greedy (one p)) before w after g₀ g) :
    Delimiting w ∧ low ≤ w.length ∧ g = g₀ := by
  obtain ⟨hall, hlow, hg⟩ := spans_class h
  exact ⟨fun u hu => hp (hall u hu), hlow, hg⟩

theorem codeFence_spans (h : Spans codeFence before w after g₀ g) :
    (g 1).all isLanguageUnit = true ∧ g 2 <:+: w := by
  obtain ⟨d, w₁, g₁, rfl, hd, language, w₂, g₂, rfl, ⟨g₃, hlanguage, rfl⟩, sp, w₃, g₄, rfl, hsp, nl,
    w₄, g₅, rfl, hnl, code, w₅, g₆, rfl, ⟨g₇, hcode, rfl⟩, d', w₆, g₈, rfl, hd', rfl, rfl⟩ := h
  obtain ⟨-, rfl⟩ := spans_text hd
  obtain ⟨-, rfl⟩ := spans_text hd'
  obtain ⟨-, -, rfl⟩ := spans_class hcode
  obtain ⟨-, -, rfl⟩ := spans_class hnl
  obtain ⟨-, -, rfl⟩ := spans_class hsp
  constructor
  · rw [Function.update_of_ne (by decide), Function.update_self]
    exact List.all_eq_true.mpr (spans_class hlanguage).1
  · rw [Function.update_self]
    refine ⟨d ++ (language ++ (sp ++ nl)), d' ++ [], ?_⟩
    simp only [List.append_assoc]

theorem codeFence_language (h : Spans codeFence before w after g₀ g) :
    (g 1).all isLanguageUnit = true := (codeFence_spans h).1

theorem inlineCode_spans (h : Spans inlineCode before w after g₀ g) :
    w = (lit "`").units ++ (g 1 ++ (lit "`").units) := by
  obtain ⟨d, w₁, g₁, rfl, hd, code, w₂, g₂, rfl, ⟨g₃, hcode, rfl⟩, d', w₃, g₄, rfl, hd', rfl, rfl⟩ := h
  obtain ⟨rfl, rfl⟩ := spans_text hd
  obtain ⟨rfl, rfl⟩ := spans_text hd'
  rw [Function.update_self, List.append_nil]

theorem link_spans (h : Spans link before w after g₀ g) :
    w = (lit "[").units ++ (g 1 ++ ((lit "](").units ++ (g 2 ++ (lit ")").units))) := by
  obtain ⟨d, w₁, g₁, rfl, hd, label, w₂, g₂, rfl, ⟨g₃, hlabel, rfl⟩, d', w₃, g₄, rfl, hd', url, w₄,
    g₅, rfl, ⟨g₆, hurl, rfl⟩, d'', w₅, g₇, rfl, hd'', rfl, rfl⟩ := h
  obtain ⟨rfl, rfl⟩ := spans_text hd
  obtain ⟨rfl, rfl⟩ := spans_text hd'
  obtain ⟨rfl, rfl⟩ := spans_text hd''
  obtain ⟨u, v, g₈, -, hhttp, u', v', g₉, -, hs, u'', v'', g₁₀, -, hslashes, u₄, v₄, g₁₁, -, hrest,
    -, rfl⟩ := hurl
  obtain ⟨-, rfl⟩ := spans_text hhttp
  obtain ⟨-, rfl⟩ := spans_text hslashes
  obtain ⟨-, -, rfl⟩ := spans_class hrest
  obtain ⟨-, -, rfl⟩ := spans_rep (p := fun _ => True) (fun _ _ _ _ _ h =>
    ⟨fun _ _ => trivial, by rw [(spans_text h).1]; decide, (spans_text h).2⟩) hs
  rw [Function.update_self, Function.update_of_ne (by decide), Function.update_self, List.append_nil]

theorem heading_spans (h : Spans heading before w after g₀ g) :
    AtLineEnd before ∧ AtLineEnd after ∧ (∀ u ∈ g 1, isDot u = true) ∧
      ∃ d e, w = d ++ (g 1 ++ e) ∧ d ≠ [] ∧ Delimiting d ∧ Delimiting e := by
  obtain ⟨_, w₀, g₁, rfl, ⟨rfl, hstart, rfl⟩, sp, w₁, g₂, rfl, hsp, hashes, w₂, g₃, rfl, hhashes, sp',
    w₃, g₄, rfl, hsp', body, w₄, g₅, rfl, ⟨g₆, hbody, rfl⟩, sp'', w₅, g₇, rfl, hsp'', hashes', w₆, g₈,
    rfl, hhashes', sp₄, w₇, g₉, rfl, hsp₄, _, w₈, g₁₀, rfl, ⟨rfl, hend, rfl⟩, rfl, rfl⟩ := h
  obtain ⟨lsp, -, rfl⟩ := delimiting_many isDelimiter_of_isInlineSpace hsp
  obtain ⟨lhashes, hone, rfl⟩ := delimiting_many (isDelimiter_of_isUnit (by decide)) hhashes
  obtain ⟨lsp', -, rfl⟩ := delimiting_many isDelimiter_of_isInlineSpace hsp'
  obtain ⟨hdots, -, rfl⟩ := spans_class hbody
  obtain ⟨lsp'', -, rfl⟩ := delimiting_many isDelimiter_of_isInlineSpace hsp''
  obtain ⟨lhashes', -, rfl⟩ := delimiting_many (isDelimiter_of_isUnit (by decide)) hhashes'
  obtain ⟨lsp₄, -, rfl⟩ := delimiting_many isDelimiter_of_isInlineSpace hsp₄
  rw [Function.update_self]
  refine ⟨hstart, hend, hdots, sp ++ (hashes ++ sp'), sp'' ++ (hashes' ++ sp₄), ?_, ?_,
    lsp.append (lhashes.append lsp'), lsp''.append (lhashes'.append lsp₄)⟩
  · simp only [List.nil_append, List.append_nil, List.append_assoc]
  · intro hnil
    rw [List.append_eq_nil_iff, List.append_eq_nil_iff] at hnil
    rw [hnil.2.1] at hone
    cases hone

theorem horizontalRule_spans (h : Spans horizontalRule before w after g₀ g) :
    w ≠ [] ∧ Delimiting w := by
  obtain ⟨_, w₀, g₁, rfl, ⟨rfl, -, rfl⟩, sp, w₁, g₂, rfl, hsp, rule, w₂, g₃, rfl, hrule, sp', w₃, g₄,
    rfl, hsp', _, w₄, g₅, rfl, ⟨rfl, -, rfl⟩, rfl, rfl⟩ := h
  obtain ⟨lsp, -, rfl⟩ := delimiting_many isDelimiter_of_isInlineSpace hsp
  obtain ⟨lsp', -, rfl⟩ := delimiting_many isDelimiter_of_isInlineSpace hsp'
  have hrule' : Delimiting rule ∧ 3 ≤ rule.length := by
    rcases hrule with h | h | h
    · obtain ⟨hall, hthree, -⟩ := delimiting_many (isDelimiter_of_isUnit (by decide)) h
      exact ⟨hall, hthree⟩
    · obtain ⟨hall, hthree, -⟩ := delimiting_many (isDelimiter_of_isUnit (by decide)) h
      exact ⟨hall, hthree⟩
    · obtain ⟨hall, hthree, -⟩ := delimiting_many (isDelimiter_of_isUnit (by decide)) h
      exact ⟨hall, hthree⟩
  simp only [List.nil_append, List.append_nil]
  refine ⟨fun hnil => ?_, lsp.append (hrule'.1.append lsp')⟩
  rw [List.append_eq_nil_iff, List.append_eq_nil_iff] at hnil
  have hthree := hrule'.2
  rw [hnil.2.1] at hthree
  cases hthree

theorem quote_spans (h : Spans quote before w after g₀ g) :
    AtLineEnd before ∧ AtLineEnd after ∧ (∀ u ∈ g 1, isDot u = true) ∧
      ∃ sp, w = (lit "&gt;").units ++ (sp ++ g 1) ∧ Delimiting sp := by
  obtain ⟨_, w₀, g₁, rfl, ⟨rfl, hstart, rfl⟩, d, w₁, g₂, rfl, hd, sp, w₂, g₃, rfl, hsp, body, w₃, g₄,
    rfl, ⟨g₅, hbody, rfl⟩, _, w₄, g₆, rfl, ⟨rfl, hend, rfl⟩, rfl, rfl⟩ := h
  obtain ⟨rfl, rfl⟩ := spans_text hd
  obtain ⟨lsp, -, rfl⟩ := delimiting_many isDelimiter_of_isInlineSpace hsp
  obtain ⟨hdots, -, rfl⟩ := spans_class hbody
  rw [Function.update_self]
  refine ⟨hstart, hend, hdots, sp, ?_, lsp⟩
  simp only [List.nil_append, List.append_nil]

theorem bullet_spans (h : Spans bullet before w after g₀ g) :
    Delimiting (g 1) ∧ ∃ d, w = g 1 ++ d ∧ d ≠ [] ∧ Delimiting d := by
  obtain ⟨_, w₀, g₁, rfl, ⟨rfl, -, rfl⟩, sp, w₁, g₂, rfl, ⟨g₃, hsp, rfl⟩, d, w₂, g₄, rfl, hd, sp', w₃,
    g₅, rfl, hsp', rfl, rfl⟩ := h
  obtain ⟨lsp, -, rfl⟩ := delimiting_many isDelimiter_of_isInlineSpace hsp
  obtain ⟨⟨u, hu, rfl⟩, rfl⟩ := spans_one hd
  obtain ⟨lsp', -, rfl⟩ := delimiting_many isDelimiter_of_isInlineSpace hsp'
  have lu : isDelimiter u = true := by
    rw [Bool.or_eq_true, Bool.or_eq_true] at hu
    rcases hu with (hu | hu) | hu
    · exact isDelimiter_of_isUnit (by decide) hu
    · exact isDelimiter_of_isUnit (by decide) hu
    · exact isDelimiter_of_isUnit (by decide) hu
  rw [Function.update_self]
  refine ⟨lsp, [u] ++ sp', ?_, List.cons_ne_nil _ _, Delimiting.append (fun v hv => ?_) lsp'⟩
  · rw [List.nil_append, List.append_nil]
  · rw [List.mem_singleton.mp hv]
    exact lu

theorem marker_spans (h : Spans marker before w after g₀ g) :
    w = openMark :: (g 1 ++ [closeMark]) ∧ ∀ u ∈ g 1, isDigit u = true := by
  obtain ⟨d, w₁, g₁, rfl, hd, digits, w₂, g₂, rfl, ⟨g₃, hdigits, rfl⟩, d', w₃, g₄, rfl, hd', rfl,
    rfl⟩ := h
  obtain ⟨⟨u, hu, rfl⟩, rfl⟩ := spans_one hd
  obtain ⟨⟨v, hv, rfl⟩, rfl⟩ := spans_one hd'
  rw [Function.update_self, of_decide_eq_true hu, of_decide_eq_true hv]
  exact ⟨rfl, (spans_class hdigits).1⟩

end

end Telegram
