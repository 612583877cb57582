import JinCore.Telegram.Passes

/-!
# Rendering is injection-safe

* `stripTags`     a message without the tags of the closed list;
* `SafeHtml`      each `<` and `>` belongs to such a tag, each `&` begins an entity, and nothing else
                  is left without the tags;
* `rendered_reads`   the message is made of plain units, entities and tags of the list;
* `rendered_safe`    whatever the Markdown is.
-/

namespace Telegram
open JsString Regex Reading Nesting

/-! ## the property -/

/-- the first argument counts the units of a tag that are still to be dropped -/
def stripFrom : Nat → List UInt16 → List UInt16
  | _, [] => []
  | skip + 1, _ :: us => stripFrom skip us
  | 0, u :: us =>
    match wordAt (u :: us) with
    | some (.tag t) => stripFrom (t.units.length - 1) us
    | _ => u :: stripFrom 0 us

def stripTags (us : List UInt16) : List UInt16 := stripFrom 0 us

/-- no tag, and no `&` but in an entity -/
structure OnlyEntities (us : List UInt16) : Prop where
  lessThan : Telegram.lessThan ∉ us
  greaterThan : Telegram.greaterThan ∉ us
  entities : ∀ p q, us = p ++ ampersand :: q → ∃ e : Entity, e.units <+: ampersand :: q

structure SafeHtml (us : List UInt16) : Prop where
  opens : ∀ p q, us = p ++ lessThan :: q → ∃ t : Tag, t.units <+: lessThan :: q
  closes : ∀ p q, us = p ++ greaterThan :: q → ∃ t : Tag, t.units <:+ p ++ [greaterThan]
  noAnchor : ¬ (lit "<a").units <:+: us
  entities : ∀ p q, us = p ++ ampersand :: q → ∃ e : Entity, e.units <+: ampersand :: q
  stripped : OnlyEntities (stripTags us)

/-! ## where the units of a word stand -/


theorem simple_units : ∀ w ∈ simpleWords, lessThan ∉ w.units.tail ∧ ampersand ∉ w.units.tail ∧
    greaterThan ∉ w.units.dropLast := by decide

theorem language_units {l : Language} {u : UInt16} (hu : u ∈ l.units) :
    u ≠ lessThan ∧ u ≠ greaterThan ∧ u ≠ ampersand := by
  have hok := List.all_eq_true.mp l.ok u hu
  refine ⟨?_, ?_, ?_⟩ <;> rintro rfl <;> exact absurd hok (by decide)

theorem word_units (w : Word) : lessThan ∉ w.units.tail ∧ ampersand ∉ w.units.tail ∧
    greaterThan ∉ w.units.dropLast := by
  rcases simple_or_code w with hw | ⟨l, rfl⟩
  · exact simple_units w hw
  · have htail : (Word.tag (.codeIn l)).units.tail = classHead.tail ++ (l.units ++ classEnd) := rfl
    have hend : classEnd ≠ [] := by decide
    have hlast : (Word.tag (.codeIn l)).units.dropLast
        = classHead ++ (l.units ++ classEnd.dropLast) := by
      show (classHead ++ (l.units ++ classEnd)).dropLast = _
      rw [List.dropLast_append_of_ne_nil (List.append_ne_nil_of_right_ne_nil l.units hend),
        List.dropLast_append_of_ne_nil hend]
    have hnot : ∀ {u : UInt16}, u ∉ classHead.tail → u ∉ classEnd → (∀ l : Language, u ∉ l.units) →
        u ∉ (Word.tag (.codeIn l)).units.tail := by
      intro u hhead hend hlanguage h
      rw [htail, List.mem_append, List.mem_append] at h
      rcases h with h | h | h
      · exact hhead h
      · exact hlanguage l h
      · exact hend h
    refine ⟨hnot (by decide) (by decide) fun l h => (language_units h).1 rfl,
      hnot (by decide) (by decide) fun l h => (language_units h).2.2 rfl, fun h => ?_⟩
    rw [hlast, List.mem_append, List.mem_append] at h
    rcases h with h | h | h
    · exact absurd h (by decide)
    · exact (language_units h).2.1 rfl
    · exact absurd h (by decide)

/-- a unit that stands only at the beginning of words begins one -/
theorem begins_of_reads {allowed : Word → Bool} {u : UInt16} {p q : List UInt16}
    (hu : ¬ IsPlain u) (htail : ∀ w : Word, u ∉ w.units.tail)
    (h : Reads (flat allowed) () (p ++ u :: q) ()) : ∃ w : Word, w.units <+: u :: q ∧
      w.units.head? = some u := by
  obtain ⟨w, a, v, -, hword, -, hv⟩ := h.covered fun _ => hu
  cases a with
  | nil =>
    have hword : w.units = u :: v := hword
    refine ⟨w, ?_, by rw [hword]; rfl⟩
    rw [hword]
    exact List.cons_prefix_cons.mpr ⟨rfl, hv⟩
  | cons c a =>
    have hword : w.units = c :: (a ++ u :: v) := hword
    refine absurd ?_ (htail w)
    rw [hword]
    exact List.mem_append_right a List.mem_cons_self

/-! ## a message that is read -/

section
variable {allowed : Word → Bool} {us : List UInt16}

theorem opens_of_reads (h : Reads (flat allowed) () us ()) (p q : List UInt16)
    (hus : us = p ++ lessThan :: q) : ∃ t : Tag, t.units <+: lessThan :: q := by
  rw [hus] at h
  obtain ⟨w, hw, hhead⟩ := begins_of_reads (by decide) (fun w => (word_units w).1) h
  cases w with
  | tag t => exact ⟨t, hw⟩
  | entity e => cases e <;> cases hhead

theorem entities_of_reads (h : Reads (flat allowed) () us ()) (p q : List UInt16)
    (hus : us = p ++ ampersand :: q) : ∃ e : Entity, e.units <+: ampersand :: q := by
  rw [hus] at h
  obtain ⟨w, hw, hhead⟩ := begins_of_reads (by decide) (fun w => (word_units w).2.1) h
  cases w with
  | entity e => exact ⟨e, hw⟩
  | tag t =>
    cases t with
    | opening name => cases name <;> cases hhead
    | closing name => cases name <;> cases hhead
    | codeIn l => cases hhead

theorem greaterThan_entity (e : Entity) : greaterThan ∉ e.units := by
  cases e <;> decide

theorem closes_of_reads (h : Reads (flat allowed) () us ()) (p q : List UInt16)
    (hus : us = p ++ greaterThan :: q) : ∃ t : Tag, t.units <:+ p ++ [greaterThan] := by
  rw [hus] at h
  obtain ⟨w, a, v, -, hword, ha, -⟩ :=
    h.covered fun _ (hplain : IsPlain greaterThan) => hplain.2.1 rfl
  have hword : w.units = a ++ greaterThan :: v := hword
  have hv : v = [] := by
    by_contra hne
    refine (word_units w).2.2 ?_
    rw [hword, List.append_cons, List.dropLast_append_of_ne_nil hne]
    exact List.mem_append_left _ (List.mem_append_right a List.mem_cons_self)
  rw [hv] at hword
  cases w with
  | entity e =>
    refine absurd ?_ (greaterThan_entity e)
    have hword : e.units = a ++ [greaterThan] := hword
    rw [hword]
    exact List.mem_append_right a List.mem_cons_self
  | tag t =>
    have hword : t.units = a ++ [greaterThan] := hword
    obtain ⟨r, hr⟩ := ha
    refine ⟨t, r, ?_⟩
    rw [hword, ← List.append_assoc, hr]

/-- no tag of the list has a name that begins with `a` -/
theorem not_anchor (t : Tag) (v : List UInt16) : t.units ≠ lessThan :: 0x61 :: v := by
  intro h
  have hsecond := congrArg (fun us => us[1]?) h
  cases t with
  | opening name => cases name <;> cases hsecond
  | closing name => cases name <;> cases hsecond
  | codeIn l => cases hsecond

theorem noAnchor_of_reads (h : Reads (flat allowed) () us ()) : ¬ (lit "<a").units <:+: us := by
  rintro ⟨p, q, hus⟩
  have hus : us = p ++ lessThan :: 0x61 :: q := by
    rw [← hus, List.append_assoc]
    rfl
  obtain ⟨t, v, hv⟩ := opens_of_reads h p _ hus
  cases htag : t.units with
  | nil => exact absurd htag (htmlCode.word_ne_nil (.tag t))
  | cons c us =>
    rw [htag, List.cons_append, List.cons.injEq] at hv
    obtain ⟨rfl, hv⟩ := hv
    cases us with
    | nil =>
      have hone : t.units.length = 1 := by rw [htag]; rfl
      cases t with
      | opening name => cases name <;> cases hone
      | closing name => cases name <;> cases hone
      | codeIn l => cases hone
    | cons d us =>
      rw [List.cons_append, List.cons.injEq] at hv
      exact not_anchor t us (by rw [htag, hv.1])

/-! ## without the tags -/

theorem stripFrom_skip (w us : List UInt16) : stripFrom w.length (w ++ us) = stripTags us := by
  induction w with
  | nil => rfl
  | cons c w ih => exact ih

theorem wordAt_none {u : UInt16} (hu : ¬ htmlCode.begins u) (us : List UInt16) :
    wordAt (u :: us) = none := by
  rw [Option.eq_none_iff_forall_ne_some]
  intro w hw
  obtain ⟨rest, hrest⟩ := (wordAt_iff _ w).mp hw
  exact hu (htmlCode.word_append_begins hrest)

theorem stripTags_plain {u : UInt16} (hu : ¬ htmlCode.begins u) (us : List UInt16) :
    stripTags (u :: us) = u :: stripTags us := by
  rw [stripTags, stripFrom, wordAt_none hu]
  rfl

theorem stripTags_tag (t : Tag) (us : List UInt16) : stripTags (t.units ++ us) = stripTags us := by
  have hword : wordAt (t.units ++ us) = some (.tag t) :=
    (wordAt_iff _ (.tag t)).mpr (List.prefix_append t.units us)
  cases htag : t.units with
  | nil => exact absurd htag (htmlCode.word_ne_nil (.tag t))
  | cons c v =>
    rw [htag, List.cons_append] at hword
    rw [List.cons_append, stripTags, stripFrom, hword]
    dsimp only
    rw [htag, List.length_cons, Nat.add_sub_cancel, stripFrom_skip]

theorem stripTags_entity (e : Entity) (us : List UInt16) :
    stripTags (e.units ++ us) = e.units ++ stripTags us := by
  have hword : wordAt (e.units ++ us) = some (.entity e) :=
    (wordAt_iff _ (.entity e)).mpr (List.prefix_append e.units us)
  have hrest : ∀ v, (∀ u ∈ v, ¬ htmlCode.begins u) → stripTags (v ++ us) = v ++ stripTags us := by
    intro v hv
    induction v with
    | nil => rfl
    | cons u v ih =>
      rw [List.cons_append, stripTags_plain (hv u List.mem_cons_self),
        ih fun c hc => hv c (List.mem_cons_of_mem u hc)]
      rfl
  have htail : ∀ u ∈ e.units.tail, ¬ htmlCode.begins u := fun u hu hbegins => by
    rcases hbegins with rfl | rfl
    · exact (word_units (.entity e)).1 hu
    · exact (word_units (.entity e)).2.1 hu
  cases hunits : e.units with
  | nil => exact absurd hunits (htmlCode.word_ne_nil (.entity e))
  | cons c v =>
    rw [hunits] at htail
    rw [hunits, List.cons_append] at hword
    rw [List.cons_append, stripTags, stripFrom, hword]
    exact congrArg (c :: ·) (hrest v htail)

theorem stripTags_reads {a c : Unit} (h : Reads (flat allowed) a us c) :
    Reads (flat isEntity) () (stripTags us) () := by
  induction h with
  | nil => exact .nil _
  | plain hu _ ih =>
    rw [stripTags_plain (not_begins_of_isPlain hu)]
    exact .plain hu ih
  | @word w _ _ _ us _ _ ih =>
    cases w with
    | tag t =>
      show Reads _ _ (stripTags (t.units ++ us)) _
      rw [stripTags_tag]
      exact ih
    | entity e =>
      show Reads _ _ (stripTags (e.units ++ us)) _
      rw [stripTags_entity]
      have hmove : (flat isEntity).move (.entity e) () = some () := rfl
      exact .word hmove ih

theorem onlyEntities_of_reads (h : Reads (flat isEntity) () us ()) : OnlyEntities us := by
  have hnone : ∀ u, ¬ IsPlain u → (∀ e : Entity, u ∉ e.units) → u ∉ us := by
    intro u hu hentity hmem
    obtain ⟨p, q, rfl⟩ := List.append_of_mem hmem
    obtain ⟨w, a, v, ⟨_, _, hlive⟩, hword, -, -⟩ := h.covered fun _ => hu
    obtain ⟨hw, -⟩ := Option.ite_none_right_eq_some.mp hlive
    cases w with
    | tag t => cases hw
    | entity e =>
      have hword : e.units = a ++ u :: v := hword
      refine hentity e ?_
      rw [hword]
      exact List.mem_append_right a List.mem_cons_self
  have hlessThan : ∀ e : Entity, lessThan ∉ e.units := fun e => by cases e <;> decide
  exact ⟨hnone _ (by decide) hlessThan, hnone _ (by decide) greaterThan_entity, entities_of_reads h⟩

theorem safeHtml_of_reads (h : Reads (flat allowed) () us ()) : SafeHtml us where
  opens := opens_of_reads h
  closes := closes_of_reads h
  noAnchor := noAnchor_of_reads h
  entities := entities_of_reads h
  stripped := onlyEntities_of_reads (stripTags_reads h)

end

/-! ## the code that is put aside -/

/-- what is kept in its place holds of each block -/
theorem stashItems_blocks {Q : List UInt16 → Prop}
    {html : List UInt16 → (Nat → List UInt16) → List UInt16} {items : List (Item UInt16)}
    (hitems : ∀ w g, Item.found w g ∈ items → Q (html w g)) {blocks : List (List UInt16)}
    (hblocks : ∀ block ∈ blocks, Q block) : ∀ block ∈ (stashItems html blocks items).2, Q block := by
  induction items generalizing blocks with
  | nil => exact hblocks
  | cons item items ih =>
    have hrest : ∀ w g, Item.found w g ∈ items → Q (html w g) := fun w g h =>
      hitems w g (List.mem_cons_of_mem item h)
    cases item with
    | kept u => exact ih hrest hblocks
    | found w g =>
      refine ih hrest fun block hblock => ?_
      rcases List.mem_append.mp hblock with hblock | hblock
      · exact hblocks block hblock
      · rw [List.mem_singleton.mp hblock]
        exact hitems w g List.mem_cons_self

/-- a block: an element around escaped code, or two -/
inductive IsCode : List UInt16 → Prop
  | pre (us : List UInt16) : IsCode (element "pre" (escapeHtml us))
  | inline (us : List UInt16) : IsCode (element "code" (escapeHtml us))
  | fence (l : Language) (us : List UInt16) : IsCode ((Tag.opening .pre).units ++ ((Tag.codeIn l).units
      ++ (escapeHtml us ++ ((Tag.closing .code).units ++ (Tag.closing .pre).units))))

theorem escapeHtml_language (l : Language) : escapeHtml l.units = l.units :=
  escapeHtml_plain fun _ hu => language_units hu

theorem fencedHtml_isCode {g : Nat → List UInt16} (h : (g 1).all isLanguageUnit = true) :
    IsCode (fencedHtml g) := by
  rw [fencedHtml]
  split
  · exact .pre _
  · have hclass : (lit "<pre><code class=\"language-").units = (Tag.opening .pre).units ++ classHead := by
      decide
    have hend : (lit "</code></pre>").units = (Tag.closing .code).units ++ (Tag.closing .pre).units := by
      decide
    have hescaped : escapeHtml (g 1) = g 1 := escapeHtml_language ⟨g 1, h⟩
    have htag : (Tag.codeIn ⟨g 1, h⟩).units = classHead ++ (g 1 ++ classEnd) := rfl
    have hfence := IsCode.fence ⟨g 1, h⟩ (dropFinalNewline (g 2))
    rw [htag, List.append_assoc, List.append_assoc] at hfence
    rw [hclass, hend, hescaped, List.append_assoc]
    exact hfence

theorem protectCode_isCode (us : List UInt16) : ∀ block ∈ (protectCode us).2, IsCode block := by
  have hfences : ∀ block ∈ (stashItems (fun _ groups => fencedHtml groups) []
      (scan codeFence (prepared us))).2, IsCode block := by
    refine stashItems_blocks (fun w g hmem => ?_) fun block h => (List.not_mem_nil h).elim
    obtain ⟨p, q, -, hspans⟩ := scan_found hmem
    exact fencedHtml_isCode (codeFence_language hspans)
  exact stashItems_blocks (fun _ g _ => .inline (g 1))
    (stashItems_blocks (fun w _ _ => .pre (dropFinalNewline w)) hfences)

/-! ## the message -/

theorem isCode_flat {block : List UInt16} (h : IsCode block) :
    Reads (flat fun _ => true) () block () := by
  have hescaped : ∀ us, Reads (flat fun _ => true) () (escapeHtml us) () :=
    reads_escapeHtml (fun _ hu => hu) fun _ => rfl
  have hword : ∀ w : Word, Reads (flat fun _ => true) () w.units () := fun w =>
    .word_single (t := w) rfl
  cases h with
  | pre us => exact (hword (.tag (.opening .pre))).append ((hescaped us).append (hword (.tag (.closing .pre))))
  | inline us =>
    exact (hword (.tag (.opening .code))).append ((hescaped us).append (hword (.tag (.closing .code))))
  | fence l us =>
    exact (hword (.tag (.opening .pre))).append ((hword (.tag (.codeIn l))).append ((hescaped us).append
      ((hword (.tag (.closing .code))).append (hword (.tag (.closing .pre))))))

/-- the elements of the emphasis -/
theorem emphases_names (letter : Nat → Bool) : ∀ e ∈ emphases letter,
    ∃ name, isInline name = true ∧ e.1 = name.text := by
  intro e he
  simp only [emphases, List.mem_cons, List.not_mem_nil, or_false] at he
  rcases he with rfl | rfl | rfl | rfl | rfl
  · exact ⟨.b, rfl, rfl⟩
  · exact ⟨.b, rfl, rfl⟩
  · exact ⟨.s, rfl, rfl⟩
  · exact ⟨.i, rfl, rfl⟩
  · exact ⟨.i, rfl, rfl⟩

theorem emphasis_flat (letter : Nat → Bool) {us : List UInt16} (h : Reads (flat isMarkup) () us ()) :
    Reads (flat isMarkup) () (emphasis letter us) () := by
  have hsteps : ∀ es : List Emphasis, (∀ e ∈ es, e ∈ emphases letter) → ∀ us,
      Reads (flat isMarkup) () us () →
      Reads (flat isMarkup) () (es.foldl (fun us e => emphasize e.1 e.2 us) us) () := by
    intro es hes
    induction es with
    | nil => exact fun us h => h
    | cons e es ih =>
      intro us h
      have he := hes e List.mem_cons_self
      obtain ⟨name, hname, htext⟩ := emphases_names letter e he
      refine ih (fun e' he' => hes e' (List.mem_cons_of_mem e he')) _
        (emphasize_reads (simple_flat fun _ hw => hw) (emphases_delimit letter e he) h ?_)
      intro w g _ b c hbody
      have hopen : (flat isMarkup).move (.tag (.opening name)) () = some () := if_pos hname
      have hclose : (flat isMarkup).move (.tag (.closing name)) () = some () := if_pos hname
      rw [htext]
      exact .word hopen (hbody.append (.word_single hclose))
  exact hsteps _ (fun _ he => he) us h

/-- code is put back where plain units stood -/
theorem restore_reads {σ : Type*} {R R' : Reader htmlCode σ} (hR : Simple R)
    (hplain : ∀ {u s}, R.plain u s → R'.plain u s)
    (hmove : ∀ {w s s₁}, R.move w s = some s₁ → R'.move w s = some s₁)
    {blocks : List (List UInt16)} {us : List UInt16} {a z : σ}
    (hblocks : ∀ block ∈ blocks, ∀ p s, Reads R a p s → Reads R' s block s)
    (h : Reads R a us z) : Reads R' a (restore blocks us) z := by
  refine replace_reads (h.mono hplain hmove) fun p w q g hus _ hspans => ?_
  obtain ⟨rfl, hdigits⟩ := marker_spans hspans
  have hopen : isLoose openMark = true := by decide
  have hclose : isLoose closeMark = true := by decide
  have hloose : AllLoose (openMark :: (g 1 ++ [closeMark])) := by
    intro u hu
    rcases List.mem_cons.mp hu with rfl | hu
    · exact hopen
    · rcases List.mem_append.mp hu with hu | hu
      · have hdigit := hdigits u hu
        refine isLoose_of fun w hw hmem => ?_
        rw [(word_units_ok w hw u hmem).2.2.1] at hdigit
        cases hdigit
      · rw [List.mem_singleton.mp hu]
        exact hclose
  rw [hus] at h
  obtain ⟨b, hp, h⟩ := h.cut (apart_before hR (List.cons_ne_nil _ _) hloose)
  obtain ⟨hw, hq⟩ := cut_loose hR hloose h
  refine ⟨b, b, hp.mono hplain hmove, hw.mono hplain hmove, ?_, hq.mono hplain hmove⟩
  cases hblock : blocks[numberOf (g 1)]? with
  | none => exact .nil b
  | some block => exact hblocks block (List.mem_of_getElem? hblock) p b hp

theorem simple_markup : Simple (flat isMarkup) := simple_flat fun _ hw => hw

theorem plain_flat {u : UInt16} {s : Unit} (h : (flat isMarkup).plain u s) :
    (flat fun _ => true).plain u s := h

theorem move_flat {w : Word} {s s₁ : Unit} (_ : (flat isMarkup).move w s = some s₁) :
    (flat fun _ => true).move w s = some s₁ := rfl

theorem restore_flat {blocks : List (List UInt16)} {us : List UInt16}
    (hblocks : ∀ block ∈ blocks, IsCode block) (h : Reads (flat isMarkup) () us ()) :
    Reads (flat fun _ => true) () (restore blocks us) () := by
  have hcode : ∀ block ∈ blocks, ∀ p s, Reads (flat isMarkup) () p s →
      Reads (flat fun _ => true) s block s :=
    fun block hblock _ _ _ => isCode_flat (hblocks block hblock)
  exact restore_reads simple_markup plain_flat move_flat hcode h

theorem rendered_reads (letter : Nat → Bool) (markdown : JsString) :
    Reads (flat fun _ => true) () (markdownToTelegramHtml letter markdown).units () := by
  have hcode := protectCode_isCode markdown.units
  have htext := flat_of_html (lineMarkup_reads (protectCode markdown.units).1)
  rw [markdownToTelegramHtml_units]
  exact restore_flat hcode (emphasis_flat letter htext)

/-- whatever the Markdown is -/
theorem rendered_safe (letter : Nat → Bool) (markdown : JsString) :
    SafeHtml (markdownToTelegramHtml letter markdown).units :=
  safeHtml_of_reads (rendered_reads letter markdown)

end Telegram
