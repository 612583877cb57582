import JinCore.Telegram.Patterns

/-!
# What each step of the renderer keeps

* `flat`, `html`, `lines`  automata over the words of a message: without a state, with the open
                       elements, and with nothing open at the ends of the lines;
* `reads_escapeHtml`   an escaped text has entities only;
* `links_reads` .. `bullets_reads`   the steps on the lines;
* `lineMarkup_reads`   before the emphasis, the elements of a message nest;
* `emphasize_reads`    a step of the emphasis, for any automaton.
-/

namespace Telegram
open JsString Regex Reading Nesting

/-! ## the automata -/

def IsPlain (u : UInt16) : Prop := u ≠ lessThan ∧ u ≠ greaterThan ∧ u ≠ ampersand

instance (u : UInt16) : Decidable (IsPlain u) :=
  inferInstanceAs (Decidable (u ≠ lessThan ∧ u ≠ greaterThan ∧ u ≠ ampersand))

theorem not_begins_of_isPlain {u : UInt16} (hu : IsPlain u) : ¬ htmlCode.begins u := by
  rintro (rfl | rfl)
  · exact hu.1 rfl
  · exact hu.2.2 rfl

theorem isPlain_of_isLoose {u : UInt16} (hu : isLoose u = true) : IsPlain u := by
  refine ⟨fun h => not_begins_of_isLoose hu (Or.inl h), ?_,
    fun h => not_begins_of_isLoose hu (Or.inr h)⟩
  rintro rfl
  exact absurd hu (by decide)

def markOf : Word → Mark TagName
  | .entity _ => .text
  | .tag (.opening name) => .opening name
  | .tag (.closing name) => .closing name
  | .tag (.codeIn _) => .opening .code

def isEntity : Word → Bool
  | .entity _ => true
  | .tag _ => false

/-- the elements that are put into a text itself -/
def isInline (name : TagName) : Bool :=
  decide (name = .b ∨ name = .i ∨ name = .s ∨ name = .blockquote)

/-- a word that the text itself may have, beside the code -/
def isMarkup : Word → Bool
  | .entity _ => true
  | .tag (.opening name) => isInline name
  | .tag (.closing name) => isInline name
  | .tag (.codeIn _) => false

/-- some words, in any order -/
def flat (allowed : Word → Bool) : Reader htmlCode Unit where
  plain u _ := IsPlain u
  plain_not_begins := not_begins_of_isPlain
  move w _ := if allowed w then some () else none

/-- some words, and what they do to the open elements -/
def html (allowed : Word → Bool) : Markup htmlCode TagName :=
  ⟨IsPlain, not_begins_of_isPlain, allowed, markOf⟩

/-- nothing is open where a line ends -/
def lines : Reader htmlCode (List TagName) where
  plain u s := IsPlain u ∧ (isLineTerminator u = true → s = [])
  plain_not_begins h := not_begins_of_isPlain h.1
  move := (nested (html isMarkup)).move

theorem simple_of_isMarkup {w : Word} (h : isMarkup w = true) : w ∈ simpleWords := by
  rcases simple_or_code w with hw | ⟨l, rfl⟩
  · exact hw
  · cases h

theorem isMarkup_of_isEntity {w : Word} (h : isEntity w = true) : isMarkup w = true := by
  cases w with
  | entity e => rfl
  | tag t => cases h

theorem simple_flat {allowed : Word → Bool} (h : ∀ w, allowed w = true → isMarkup w = true) :
    Simple (flat allowed) := by
  rintro w ⟨s, s', hmove⟩
  exact simple_of_isMarkup (h w (Option.ite_none_right_eq_some.mp hmove).1)

theorem simple_html : Simple (nested (html isMarkup)) := by
  rintro w ⟨s, s', hmove⟩
  exact simple_of_isMarkup (of_nested_move hmove).1

theorem simple_lines : Simple lines := by
  rintro w ⟨s, s', hmove⟩
  exact simple_of_isMarkup (of_nested_move hmove).1

/-! ## from one automaton to another -/

section
variable {s z : List TagName} {us : List UInt16}

theorem reads_of_lines (h : Reads lines s us z) : Reads (nested (html isMarkup)) s us z :=
  Reads.mono (R := lines) (fun hu => hu.1) (fun hmove => hmove) h

theorem flat_of_html {allowed : Word → Bool} (h : Reads (nested (html allowed)) s us z) :
    Reads (flat allowed) () us () := by
  have hmove : ∀ w s s₁ (r : Unit), True → (nested (html allowed)).move w s = some s₁ →
      ∃ r₁, (flat allowed).move w r = some r₁ ∧ True :=
    fun _ _ _ _ _ hmove => ⟨(), if_pos (of_nested_move hmove).1, trivial⟩
  obtain ⟨_, hreads, -⟩ := h.map (fun _ _ => True) (fun _ _ _ _ hu => hu) hmove trivial
  exact hreads

/-- a text without tags and without ends of lines is read wherever it stands -/
theorem lines_of_entities (hdots : ∀ u ∈ us, isDot u = true) {a c : Unit}
    (h : Reads (flat isEntity) a us c) (s : List TagName) : Reads lines s us s := by
  induction h with
  | nil => exact .nil s
  | @plain u _ _ us hu _ ih =>
    have hdot := hdots u List.mem_cons_self
    refine .plain ⟨hu, fun hend => ?_⟩ (ih fun v hv => hdots v (List.mem_cons_of_mem u hv))
    rw [isDot, hend] at hdot
    cases hdot
  | @word w _ _ _ us hmove _ ih =>
    obtain ⟨hw, -⟩ := Option.ite_none_right_eq_some.mp hmove
    refine .word ?_ (ih fun v hv => hdots v (List.mem_append_right _ hv))
    cases w with
    | entity e => rfl
    | tag t => cases hw

/-- a text without tags, with nothing open -/
theorem lines_of_entities_nil (h : Reads (flat isEntity) () us ()) : Reads lines [] us [] := by
  have hmove : ∀ w s s₁ (r : List TagName), r = [] → (flat isEntity).move w s = some s₁ →
      ∃ r₁, lines.move w r = some r₁ ∧ r₁ = [] := by
    intro w _ _ r hr hmove
    obtain ⟨hw, -⟩ := Option.ite_none_right_eq_some.mp hmove
    cases w with
    | entity e => exact ⟨r, rfl, hr⟩
    | tag t => cases hw
  have hplain : ∀ u (s : Unit) (r : List TagName), r = [] → (flat isEntity).plain u s →
      lines.plain u r := fun _ _ _ hr hu => ⟨hu, fun _ => hr⟩
  obtain ⟨z, hreads, rfl⟩ := h.map (fun _ r => r = []) hplain hmove rfl
  exact hreads

end

/-! ## lines -/

section
variable {s z : List TagName} {us : List UInt16}

/-- nothing is open after the end of a line -/
theorem lines_after (hus : AtLineEnd us.reverse) (h : Reads lines [] us s) : s = [] := by
  rcases List.eq_nil_or_concat' us with rfl | ⟨us, u, rfl⟩
  · exact h.nil_inv
  · rw [AtLineEnd, List.reverse_append] at hus
    have hu : isLineTerminator u = true := hus
    have hloose : AllLoose [u] := fun v hv => by
      rw [List.mem_singleton.mp hv]
      exact isLoose_of_isLineTerminator hu
    have happ : us ++ [u] = us ++ ([u] ++ []) := by rw [List.append_nil]
    rw [happ] at h
    obtain ⟨m, -, h⟩ := h.cut (apart_before simple_lines (List.cons_ne_nil u []) hloose)
    obtain ⟨hplain, hrest⟩ := h.plain_inv (not_begins_of_isLoose (isLoose_of_isLineTerminator hu))
    rw [hrest.nil_inv, hplain.2 hu]

/-- and before it -/
theorem lines_before (hus : AtLineEnd us) (h : Reads lines s us []) : s = [] := by
  cases us with
  | nil => exact h.nil_inv.symm
  | cons u us =>
    have hu : isLineTerminator u = true := hus
    exact (h.plain_inv (not_begins_of_isLoose (isLoose_of_isLineTerminator hu))).1.2 hu

theorem apart_atLineEnd {σ : Type*} {R : Reader htmlCode σ} (hR : Simple R) {a b : List UInt16}
    (hb : AtLineEnd b) : Apart R a b := by
  cases b with
  | nil => exact apart_nil_right
  | cons u b =>
    have hu : isLineTerminator u = true := hb
    exact apart_of_head fun t ht h => notMem_of_isLoose (isLoose_of_isLineTerminator hu) (hR t ht)
      (List.mem_of_mem_tail h)

theorem apart_atLineStart {σ : Type*} {R : Reader htmlCode σ} (hR : Simple R) {a b : List UInt16}
    (ha : AtLineEnd a.reverse) : Apart R a b := by
  rcases List.eq_nil_or_concat' a with rfl | ⟨a, u, rfl⟩
  · exact apart_nil_left
  · rw [AtLineEnd, List.reverse_append] at ha
    have hu : isLineTerminator u = true := ha
    exact apart_of_last fun t ht h => notMem_of_isLoose (isLoose_of_isLineTerminator hu) (hR t ht)
      (List.mem_of_mem_dropLast h)

/-- the end of a line after loose units -/
theorem apart_loose_lineEnd {σ : Type*} {R : Reader htmlCode σ} (hR : Simple R)
    {a e q : List UInt16} (he : AllLoose e) (hq : AtLineEnd q) : Apart R a (e ++ q) := by
  cases e with
  | nil => exact apart_atLineEnd hR hq
  | cons u e => exact apart_before hR (List.cons_ne_nil u e) he

end

/-! ## escaping -/

theorem escapeHtml_append (us vs : List UInt16) :
    escapeHtml (us ++ vs) = escapeHtml us ++ escapeHtml vs := by
  have hall : ∀ (c : UInt16) (y us vs : List UInt16), Occurrences.replaceFrom [c] y 0 (us ++ vs)
      = Occurrences.replaceFrom [c] y 0 us ++ Occurrences.replaceFrom [c] y 0 vs := by
    intro c y us vs
    rw [Occurrences.replaceFrom_singleton, Occurrences.replaceFrom_singleton,
      Occurrences.replaceFrom_singleton, List.flatMap_append]
  show Occurrences.replaceFrom [greaterThan] _ 0 (Occurrences.replaceFrom [lessThan] _ 0
    (Occurrences.replaceFrom [ampersand] _ 0 (us ++ vs))) = _
  rw [hall, hall, hall]
  rfl

theorem replaceFrom_ne {c u : UInt16} (hu : u ≠ c) (y : List UInt16) :
    Occurrences.replaceFrom [c] y 0 [u] = [u] := by
  rw [Occurrences.replaceFrom_singleton, List.flatMap_singleton, if_neg hu]

theorem escapeHtml_single (u : UInt16) : escapeHtml [u] = if u = ampersand then Entity.amp.units
    else if u = lessThan then Entity.lt.units else if u = greaterThan then Entity.gt.units
    else [u] := by
  by_cases hamp : u = ampersand
  · subst hamp
    decide
  by_cases hlt : u = lessThan
  · subst hlt
    decide
  by_cases hgt : u = greaterThan
  · subst hgt
    decide
  rw [if_neg hamp, if_neg hlt, if_neg hgt]
  show Occurrences.replaceFrom [greaterThan] _ 0 (Occurrences.replaceFrom [lessThan] _ 0
    (Occurrences.replaceFrom [ampersand] _ 0 [u])) = _
  rw [replaceFrom_ne hamp, replaceFrom_ne hlt, replaceFrom_ne hgt]

/-- a text without `&`, `<` and `>` is escaped already -/
theorem escapeHtml_plain {us : List UInt16} (h : ∀ u ∈ us, IsPlain u) : escapeHtml us = us := by
  induction us with
  | nil => rfl
  | cons u us ih =>
    rw [List.forall_mem_cons] at h
    rw [← List.singleton_append, escapeHtml_append, ih h.2, escapeHtml_single, if_neg h.1.2.2,
      if_neg h.1.1, if_neg h.1.2.1]

/-- an escaped text is read by what takes plain units and entities -/
theorem reads_escapeHtml {σ : Type*} {R : Reader htmlCode σ} {s : σ}
    (hplain : ∀ u, IsPlain u → R.plain u s) (hentity : ∀ e, R.move (.entity e) s = some s)
    (us : List UInt16) : Reads R s (escapeHtml us) s := by
  induction us with
  | nil => exact .nil s
  | cons u us ih =>
    rw [← List.singleton_append, escapeHtml_append]
    refine Reads.append ?_ ih
    rw [escapeHtml_single]
    split
    · exact .word_single (hentity .amp)
    split
    · exact .word_single (hentity .lt)
    split
    · exact .word_single (hentity .gt)
    · exact .single (hplain u ⟨by assumption, by assumption, by assumption⟩)

/-! ## the steps on the lines -/

theorem lessThan_first : ∀ w ∈ simpleWords, lessThan ∉ w.units.tail := by decide

theorem apart_lessThan {σ : Type*} {R : Reader htmlCode σ} (hR : Simple R) {t : Tag}
    {a us : List UInt16} : Apart R a (htmlCode.word (.tag t) ++ us) := by
  have hhead : ∃ vs, htmlCode.word (.tag t) ++ us = lessThan :: vs := by
    cases t with
    | opening name => cases name <;> exact ⟨_, rfl⟩
    | closing name => cases name <;> exact ⟨_, rfl⟩
    | codeIn l => exact ⟨_, rfl⟩
  obtain ⟨vs, hvs⟩ := hhead
  rw [hvs]
  exact apart_of_head fun w hw => lessThan_first w (hR w hw)

/-- what is replaced is read as what replaces it -/
theorem replace_reads {σ : Type*} {R : Reader htmlCode σ} {a z : σ} {r : Regex UInt16}
    {f : List UInt16 → (Nat → List UInt16) → List UInt16} {us : List UInt16} (h : Reads R a us z)
    (hmatch : ∀ p w q g, us = p ++ (w ++ q) → Item.found w g ∈ scan r us →
      Spans r p.reverse w q (fun _ => []) g →
      ∃ b c, Reads R a p b ∧ Reads R b w c ∧ Reads R b (f w g) c ∧ Reads R c q z) :
    Reads R a (replace r f us) z :=
  replace_rel Reads.append Reads.cancel (.nil a) h hmatch

theorem links_reads {us : List UInt16} (h : Reads (flat isEntity) () us ()) :
    Reads (flat isEntity) () (links us) () := by
  refine replace_reads h fun p w q g hus _ hspans => ⟨(), (), ?_⟩
  have hsimple := simple_flat fun _ hw => isMarkup_of_isEntity hw
  have hparts : us = p ++ ((lit "[").units ++ (g 1 ++ ((lit "](").units ++ (g 2 ++ ((lit ")").units
      ++ q))))) := by
    rw [hus, link_spans hspans]
    simp only [List.append_assoc]
  have hopen : AllLoose (lit "[").units := by decide
  have hmiddle : AllLoose (lit "](").units := by decide
  have hclose : AllLoose (lit ")").units := by decide
  have hspace : AllLoose (lit " (").units := by decide
  rw [hparts] at h
  obtain ⟨_, _, hp, hopen', hlabel, hmiddle', h⟩ := cut_delimited hsimple (by decide) hopen hmiddle
    (apart_before hsimple (by decide) hmiddle) h
  obtain ⟨_, hurl, h⟩ := h.cut (apart_before hsimple (by decide) hclose)
  obtain ⟨hclose', hq⟩ := cut_loose hsimple hclose h
  refine ⟨hp, ?_, ?_, hq⟩
  · rw [link_spans hspans]
    exact hopen'.append (hlabel.append (hmiddle'.append (hurl.append hclose')))
  · rw [linkText]
    split
    · exact hurl
    · have hspace' : Reads (flat isEntity) () (lit " (").units () :=
        .of_plain fun u hu => isPlain_of_isLoose (hspace u hu)
      exact hlabel.append (hspace'.append (hurl.append hclose'))

theorem element_reads {allowed : Word → Bool} (name : TagName) {s : List TagName}
    {body : List UInt16} (hopen : allowed (.tag (.opening name)) = true)
    (hclose : allowed (.tag (.closing name)) = true)
    (h : Reads (nested (html allowed)) (name :: s) body (name :: s)) :
    Reads (nested (html allowed)) s (element name.text body) s := by
  have hopening : (nested (html allowed)).move (.tag (.opening name)) s = some (name :: s) :=
    nested_move hopen s
  have hclosing : (nested (html allowed)).move (.tag (.closing name)) (name :: s) = some s :=
    (nested_move hclose (name :: s)).trans (if_pos rfl)
  exact .word hopening (h.append (.word_single hclosing))

theorem headings_reads {us : List UInt16} (h : Reads (flat isEntity) () us ()) :
    Reads lines [] (headings us) [] := by
  refine replace_reads (lines_of_entities_nil h) fun p w q g hus _ hspans => ?_
  obtain ⟨hstart, hend, hdots, d, e, rfl, hne, hdelimiting, hdelimiting'⟩ := heading_spans hspans
  have hd : AllLoose d := hdelimiting.allLoose
  have he : AllLoose e := hdelimiting'.allLoose
  have hsimple := simple_flat fun _ hw => isMarkup_of_isEntity hw
  have hparts : us = p ++ (d ++ (g 1 ++ (e ++ q))) := by
    rw [hus]
    simp only [List.append_assoc]
  have hlines := lines_of_entities_nil h
  rw [hparts] at h hlines
  obtain ⟨b, c, hp, hd', hbody, he', hq⟩ := cut_delimited simple_lines hne hd he
    (apart_loose_lineEnd simple_lines he hend) hlines
  obtain ⟨_, _, -, -, hentities, -, -⟩ := cut_delimited hsimple hne hd he
    (apart_loose_lineEnd hsimple he hend) h
  have hsame : c = b := (lines_of_entities hdots hentities b).functional hbody
  obtain rfl := lines_after hstart hp
  obtain rfl := hsame
  refine ⟨[], [], hp, hd'.append (hbody.append he'), ?_, hq⟩
  have hopening : lines.move (.tag (.opening .b)) [] = some [.b] := rfl
  have hclosing : lines.move (.tag (.closing .b)) [.b] = some [] := rfl
  exact .word hopening ((lines_of_entities hdots hentities [.b]).append (.word_single hclosing))

theorem horizontalRules_reads {us : List UInt16} (h : Reads lines [] us []) :
    Reads lines [] (horizontalRules us) [] := by
  refine replace_reads h fun p w q g hus _ hspans => ?_
  obtain ⟨hne, hdelimiting⟩ := horizontalRule_spans hspans
  have hloose : AllLoose w := hdelimiting.allLoose
  rw [hus] at h
  obtain ⟨b, hp, h⟩ := h.cut (apart_before simple_lines hne hloose)
  obtain ⟨hw, hq⟩ := cut_loose simple_lines hloose h
  refine ⟨b, b, hp, hw, .of_plain fun u hu => ?_, hq⟩
  have hall : ∀ u ∈ (lit "──────────").units, IsPlain u ∧ isLineTerminator u = false := by
    decide
  obtain ⟨hplain, hnot⟩ := hall u hu
  refine ⟨hplain, fun hend => ?_⟩
  rw [hend] at hnot
  cases hnot

theorem quotes_reads {us : List UInt16} (h : Reads lines [] us []) :
    Reads (nested (html isMarkup)) [] (quotes us) [] := by
  refine replace_reads (reads_of_lines h) fun p w q g hus _ hspans => ?_
  obtain ⟨hstart, hend, hdots, sp, rfl, hdelimiting⟩ := quote_spans hspans
  have hloose : AllLoose sp := hdelimiting.allLoose
  have hword : (lit "&gt;").units = htmlCode.word (.entity .gt) := rfl
  have hparts : us = p ++ (htmlCode.word (.entity .gt) ++ (sp ++ (g 1 ++ q))) := by
    rw [hus, hword, List.append_assoc, List.append_assoc]
  rw [hparts] at h
  obtain ⟨b, hp, h⟩ := h.cut (apart_atLineStart simple_lines hstart)
  obtain rfl := lines_after hstart hp
  have hgt : lines.move (.entity .gt) [] = some [] := rfl
  have h := (Reads.word_single hgt).cancel h
  obtain ⟨hsp, h⟩ := cut_loose simple_lines hloose h
  obtain ⟨c, hbody, hq⟩ := h.cut (apart_atLineEnd simple_lines hend)
  obtain rfl := lines_before hend hq
  rw [hword]
  refine ⟨[], [], reads_of_lines hp, reads_of_lines (.word hgt (hsp.append hbody)), ?_,
    reads_of_lines hq⟩
  have hinside : Reads (nested (html isMarkup)) [.blockquote] (g 1) [.blockquote] :=
    reads_frame (reads_of_lines hbody) [.blockquote]
  exact element_reads .blockquote rfl rfl hinside

theorem joinQuotes_reads {us : List UInt16} (h : Reads (nested (html isMarkup)) [] us []) :
    Reads (nested (html isMarkup)) [] (joinQuotes us) [] := by
  have hpattern : (lit "</blockquote>\n<blockquote>").units = htmlCode.word (.tag (.closing .blockquote))
      ++ ([newline] ++ htmlCode.word (.tag (.opening .blockquote))) := by decide
  have hnewline : AllLoose [newline] := by decide
  rw [joinQuotes, replaceAll, ← replace_literal (by decide)]
  refine replace_reads h fun p w q g hus _ hspans => ?_
  obtain ⟨rfl, -⟩ := spans_literal hspans
  have hparts : us = p ++ (htmlCode.word (.tag (.closing .blockquote)) ++ ([newline]
      ++ (htmlCode.word (.tag (.opening .blockquote)) ++ q))) := by
    rw [hus, hpattern, List.append_assoc, List.append_assoc]
  rw [hparts] at h
  obtain ⟨b, hp, h⟩ := h.cut (apart_lessThan simple_html)
  obtain ⟨s, hclose, h⟩ := h.word_inv
  obtain ⟨hline, h⟩ := cut_loose simple_html hnewline h
  obtain ⟨c, hopen, hq⟩ := h.word_inv
  have hb : b = .blockquote :: s := Mark.step_closing (of_nested_move hclose).2
  have hc : c = .blockquote :: s := (Option.some.inj (of_nested_move hopen).2).symm
  have hsame : c = b := hc.trans hb.symm
  subst hsame
  refine ⟨c, c, hp, ?_, .single (isPlain_of_isLoose (hnewline newline List.mem_cons_self)), hq⟩
  rw [hpattern]
  exact (Reads.word_single hclose).append (hline.append (.word_single hopen))

theorem bullets_reads {us : List UInt16} (h : Reads (nested (html isMarkup)) [] us []) :
    Reads (nested (html isMarkup)) [] (bullets us) [] := by
  refine replace_reads h fun p w q g hus _ hspans => ?_
  obtain ⟨hdelimiting, d, rfl, hne, hdelimiting'⟩ := bullet_spans hspans
  have hindent : AllLoose (g 1) := hdelimiting.allLoose
  have hall : AllLoose (g 1 ++ d) := (hdelimiting.append hdelimiting').allLoose
  have hparts : g 1 ++ d ≠ [] := fun hnil => hne (List.append_eq_nil_iff.mp hnil).2
  rw [hus] at h
  obtain ⟨b, hp, h⟩ := h.cut (apart_before simple_html hparts hall)
  obtain ⟨hw, hq⟩ := cut_loose simple_html hall h
  have hbullet : ∀ u ∈ (lit "• ").units, IsPlain u := by decide
  refine ⟨b, b, hp, hw, Reads.append ?_ (.of_plain hbullet), hq⟩
  exact .of_plain fun u hu => isPlain_of_isLoose (hindent u hu)

/-- before the emphasis, the elements of a message nest -/
theorem lineMarkup_reads (us : List UInt16) :
    Reads (nested (html isMarkup)) [] (lineMarkup us) [] := by
  have hescaped : Reads (flat isEntity) () (escapeHtml us) () :=
    reads_escapeHtml (fun _ hu => hu) (fun _ => rfl) us
  exact bullets_reads (joinQuotes_reads (quotes_reads (horizontalRules_reads
    (headings_reads (links_reads hescaped)))))

/-! ## emphasis -/

/-- a step of the emphasis, where each group can be put into the element -/
theorem emphasize_reads {σ : Type*} {R : Reader htmlCode σ} (hR : Simple R) {a z : σ} {name : String}
    {r : Regex UInt16} (hr : Delimits r) {us : List UInt16} (h : Reads R a us z)
    (hwrap : ∀ w g, Item.found w g ∈ scan r us → ∀ {b c}, Reads R b (g 1) c →
      Reads R b (element name (g 1)) c) : Reads R a (emphasize name r us) z := by
  refine replace_reads h fun p w q g hus hmem hspans => ?_
  obtain ⟨d, hne, hd, rfl⟩ := hr _ _ _ _ hspans
  have hparts : us = p ++ (d ++ (g 1 ++ (d ++ q))) := by
    rw [hus]
    simp only [List.append_assoc]
  rw [hparts] at h
  obtain ⟨b, c, hp, hopen, hbody, hclose, hq⟩ := cut_delimited hR hne hd hd (apart_before hR hne hd) h
  exact ⟨b, c, hp, hopen.append (hbody.append hclose), hwrap _ g hmem hbody, hq⟩

end Telegram
