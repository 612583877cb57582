import JinCore.Telegram.SafeHtml

/-!
# The markers of a text

* `markerCode`, `coming`   markers as words, and an automaton that knows which ones come;
* `Marked us is`           the marks of `us` are those of the markers `is`, in this order;
* `marked_escapeHtml` .. `marked_emphasis`   the steps of the renderer keep them;
* `pieces`, `restore_pieces`   what is put back, and where.
-/

namespace Telegram
open JsString Regex Reading

/-! ## the number of a marker -/

theorem encode_of_isDigit {c : Char} (hc : c.isDigit = true) :
    encode c = [UInt16.ofNat c.toNat] ∧ (UInt16.ofNat c.toNat).toNat = c.toNat := by
  have h : 48 ≤ c.toNat ∧ c.toNat ≤ 57 := Char.isDigit_iff_toNat.mp hc
  refine ⟨if_pos (by omega), ?_⟩
  rw [UInt16.toNat_ofNat']
  omega

def indexUnits (index : Nat) : List UInt16 := (ofChars (Nat.toDigits 10 index)).units

theorem toDigits_isDigit (index : Nat) : ∀ c ∈ Nat.toDigits 10 index, c.isDigit = true :=
  fun _ hc => Nat.isDigit_of_mem_toDigits (by decide) (by decide) hc

theorem isDigit_indexUnits (index : Nat) : ∀ u ∈ indexUnits index, isDigit u = true := by
  intro u hu
  obtain ⟨c, hc, hu⟩ := List.mem_flatMap.mp hu
  have hdigit := toDigits_isDigit index c hc
  obtain ⟨hencode, htoNat⟩ := encode_of_isDigit hdigit
  rw [hencode, List.mem_singleton] at hu
  have h : 48 ≤ c.toNat ∧ c.toNat ≤ 57 := Char.isDigit_iff_toNat.mp hdigit
  rw [hu, isDigit, decide_eq_true_eq, UInt16.le_iff_toNat_le, UInt16.le_iff_toNat_le, htoNat]
  exact h

theorem indexUnits_ne_nil (index : Nat) : indexUnits index ≠ [] := by
  obtain ⟨c, cs, hcs⟩ := List.exists_cons_of_ne_nil (Nat.toDigits_ne_nil (n := index) (b := 10))
  have hdigit := toDigits_isDigit index c (by rw [hcs]; exact List.mem_cons_self)
  intro h
  have hunits : indexUnits index = encode c ++ cs.flatMap encode := by
    show (Nat.toDigits 10 index).flatMap encode = _
    rw [hcs, List.flatMap_cons]
  rw [hunits, (encode_of_isDigit hdigit).1] at h
  cases h

theorem numberOf_indexUnits (index : Nat) : numberOf (indexUnits index) = index := by
  have hall : ∀ (cs : List Char) (n : Nat), (∀ c ∈ cs, c.isDigit = true) →
      (cs.flatMap encode).foldl (fun n u => 10 * n + (u.toNat - 0x30)) n = Nat.ofDigitChars 10 cs n := by
    intro cs
    induction cs with
    | nil => exact fun _ _ => Nat.ofDigitChars_nil.symm
    | cons c cs ih =>
      intro n hcs
      rw [List.forall_mem_cons] at hcs
      obtain ⟨hencode, htoNat⟩ := encode_of_isDigit hcs.1
      rw [List.flatMap_cons, hencode, List.singleton_append, List.foldl_cons, htoNat, ih _ hcs.2,
        Nat.ofDigitChars_cons]
      rfl
  exact (hall _ 0 (toDigits_isDigit index)).trans Nat.ofDigitChars_ten_toDigits

theorem markerOf_eq (index : Nat) : markerOf index = openMark :: (indexUnits index ++ [closeMark]) := rfl

/-! ## markers as words -/

/-- a unit of no marker -/
def isUnmarked (u : UInt16) : Bool := decide (u ≠ openMark ∧ u ≠ closeMark) && !isDigit u

theorem isDigit_marks : isDigit openMark = false ∧ isDigit closeMark = false := by decide

theorem notMem_markerOf {u : UInt16} (hu : isUnmarked u = true) (index : Nat) : u ∉ markerOf index := by
  rw [isUnmarked, Bool.and_eq_true, decide_eq_true_eq, Bool.not_eq_true'] at hu
  rw [markerOf_eq, List.mem_cons, List.mem_append, List.mem_singleton]
  rintro (h | h | h)
  · exact hu.1.1 h
  · rw [isDigit_indexUnits index u h] at hu
    exact Bool.noConfusion hu.2
  · exact hu.1.2 h

theorem takeWhile_indexUnits (index : Nat) (rest : List UInt16) :
    (indexUnits index ++ closeMark :: rest).takeWhile isDigit = indexUnits index := by
  rw [List.takeWhile_append_of_pos (isDigit_indexUnits index), List.takeWhile_cons, isDigit_marks.2,
    if_neg Bool.false_ne_true, List.append_nil]

theorem markerOf_prefixFree {i j : Nat} (h : markerOf i <+: markerOf j) : i = j := by
  obtain ⟨rest, hrest⟩ := h
  rw [markerOf_eq, markerOf_eq, List.cons_append, List.append_assoc, List.singleton_append] at hrest
  have hunits := congrArg (List.takeWhile isDigit) (List.cons.inj hrest).2
  rw [takeWhile_indexUnits, takeWhile_indexUnits] at hunits
  rw [← numberOf_indexUnits i, hunits, numberOf_indexUnits]

def markerCode : Code UInt16 Nat where
  word := markerOf
  begins u := u = openMark
  begins_word index := ⟨openMark, _, markerOf_eq index, rfl⟩
  prefixFree := markerOf_prefixFree

/-- the markers that come -/
def coming : Reader markerCode (List Nat) where
  plain u _ := u ≠ openMark ∧ u ≠ closeMark
  plain_not_begins h := h.1
  move index s := match s with
    | [] => none
    | next :: rest => if index = next then some rest else none

/-- the marks of a text are those of the markers, in this order -/
def Marked (us : List UInt16) (is : List Nat) : Prop := Reads coming is us []

section
variable {us vs : List UInt16} {is js s s' : List Nat} {u : UInt16} {index : Nat}

theorem coming_move : coming.move index s = some s' ↔ s = index :: s' := by
  cases s with
  | nil => exact ⟨(fun h => nomatch h), fun h => nomatch h⟩
  | cons next rest =>
    show (if index = next then some rest else none) = some s' ↔ _
    rw [Option.ite_none_right_eq_some, Option.some.injEq, List.cons.injEq, eq_comm (a := index)]

/-- what is read comes first, whatever comes after it -/
theorem coming_iff : Reads coming s us s' ↔ ∃ is, s = is ++ s' ∧ Marked us is := by
  constructor
  · intro h
    induction h with
    | nil s => exact ⟨[], rfl, .nil []⟩
    | plain hu _ ih =>
      obtain ⟨is, hs, his⟩ := ih
      exact ⟨is, hs, .plain hu his⟩
    | @word index s s₁ s' us hmove _ ih =>
      obtain ⟨is, hs, his⟩ := ih
      refine ⟨index :: is, ?_, .word (coming_move.mpr rfl) his⟩
      rw [coming_move.mp hmove, hs, List.cons_append]
  · rintro ⟨is, rfl, h⟩
    have hframe : ∀ {a b us}, Reads coming a us b → Reads coming (a ++ s') us (b ++ s') := by
      intro a b us h
      induction h with
      | nil s => exact .nil _
      | plain hu _ ih => exact .plain hu ih
      | word hmove _ ih =>
        refine .word (coming_move.mpr ?_) ih
        rw [coming_move.mp hmove, List.cons_append]
    exact hframe h

theorem Marked.reads (h : Marked us is) (s : List Nat) : Reads coming (is ++ s) us s :=
  coming_iff.mpr ⟨is, rfl, h⟩

theorem Marked.append (hu : Marked us is) (hv : Marked vs js) : Marked (us ++ vs) (is ++ js) :=
  (hu.reads js).append hv

theorem marked_of_unmarked (h : ∀ u ∈ us, u ≠ openMark ∧ u ≠ closeMark) : Marked us [] := .of_plain h

theorem marked_markerOf (index : Nat) : Marked (markerOf index) [index] :=
  .word_single (t := index) (coming_move.mpr rfl)

/-- a text has an opening mark if and only if it has a marker -/
theorem Marked.openMark_iff (h : Marked us is) : openMark ∈ us ↔ is ≠ [] := by
  have hread : ∀ {s us s'}, Reads coming s us s' → (openMark ∈ us ↔ s ≠ s') := by
    intro s us s' h
    induction h with
    | nil s => exact iff_of_false (List.not_mem_nil) fun h => h rfl
    | plain hu _ ih => rw [List.mem_cons, ih, or_iff_right (Ne.symm hu.1)]
    | @word index s s₁ s' us hmove hrest _ =>
      refine iff_of_true (List.mem_append_left us List.mem_cons_self) ?_
      obtain ⟨is, his, -⟩ := coming_iff.mp hrest
      rw [coming_move.mp hmove, his]
      intro heq
      have hlength := congrArg List.length heq
      rw [List.length_cons, List.length_append] at hlength
      omega
  exact hread h

theorem marked_nil_iff : Marked us [] ↔ ∀ u ∈ us, u ≠ openMark ∧ u ≠ closeMark := by
  refine ⟨fun h => ?_, marked_of_unmarked⟩
  have hopen : openMark ∉ us := fun hmem => h.openMark_iff.mp hmem rfl
  induction us with
  | nil => exact fun u hu => nomatch hu
  | cons u us ih =>
    have hu : u ≠ openMark := fun hu => hopen (hu ▸ List.mem_cons_self)
    obtain ⟨hplain, hrest⟩ := h.plain_inv hu
    rw [List.forall_mem_cons]
    exact ⟨hplain, ih hrest fun hmem => hopen (List.mem_cons_of_mem u hmem)⟩

theorem Marked.unique (h : Marked us is) (h' : Marked us js) : js = is := by
  have hread : ∀ {s us s'}, Reads coming s us s' → s' = [] → ∀ js, Marked us js → js = s := by
    intro s us s' h
    induction h with
    | nil s =>
      rintro rfl js h'
      exact h'.nil_inv.symm
    | plain hu _ ih => exact fun hs js h' => ih hs js (h'.plain_inv hu.1).2
    | word hmove _ ih =>
      intro hs js h'
      obtain ⟨js', hmove', h'⟩ := h'.word_inv
      rw [coming_move.mp hmove', coming_move.mp hmove, ih hs js' h']
  exact hread h rfl js h'

/-! ## units of no marker -/

theorem foreign_of_unmarked (h : ∀ u ∈ us, isUnmarked u = true) : Foreign coming us := by
  intro u hu
  have hnot := fun index => notMem_markerOf (h u hu) index
  exact ⟨fun hopen => hnot 0 (hopen ▸ List.mem_cons_self), fun index _ => hnot index⟩

theorem plain_of_unmarked (h : isUnmarked u = true) (s : List Nat) : coming.plain u s := by
  rw [isUnmarked, Bool.and_eq_true, decide_eq_true_eq] at h
  exact h.1

theorem isUnmarked_of_isSpace (h : isSpace u = true) : isUnmarked u = true := by
  have hopen : isSpace openMark = false := by decide
  have hclose : isSpace closeMark = false := by decide
  have hdigit : isDigit u = false := by
    rw [isDigit, decide_eq_false_iff_not]
    rw [isSpace, decide_eq_true_eq] at h
    simp only [UInt16.le_iff_toNat_le, ← UInt16.toNat_inj] at h ⊢
    simp only [UInt16.reduceToNat] at h ⊢
    omega
  rw [isUnmarked, hdigit, Bool.not_false, Bool.and_true, decide_eq_true_eq]
  refine ⟨?_, ?_⟩ <;> rintro rfl
  · rw [hopen] at h
    cases h
  · rw [hclose] at h
    cases h

theorem isUnmarked_of_isDelimiter (h : isDelimiter u = true) : isUnmarked u = true := by
  rw [isDelimiter, Bool.or_eq_true] at h
  rcases h with h | h
  · exact isUnmarked_of_isSpace h
  · have hsigns : ∀ u ∈ (lit "#-*_+~").units, isUnmarked u = true := by decide
    exact hsigns u (List.contains_iff_mem.mp h)

theorem Delimiting.foreign_coming (h : Delimiting us) : Foreign coming us :=
  foreign_of_unmarked fun u hu => isUnmarked_of_isDelimiter (h u hu)

theorem apart_lineEnd (h : AtLineEnd vs) : Apart coming us vs := by
  cases vs with
  | nil => exact apart_nil_right
  | cons u vs =>
    have hu : isLineTerminator u = true := h
    have hunmarked : isUnmarked u = true := by
      rw [isLineTerminator, decide_eq_true_eq] at hu
      rcases hu with rfl | rfl | rfl | rfl <;> decide
    refine apart_of_head fun index _ hmem => ?_
    exact notMem_markerOf hunmarked index (List.mem_of_mem_tail hmem)

theorem apart_delimiting_lineEnd {e q : List UInt16} (he : Delimiting e) (hq : AtLineEnd q) :
    Apart coming us (e ++ q) := by
  cases e with
  | nil => exact apart_lineEnd hq
  | cons u e => exact he.foreign_coming.apart_before (List.cons_ne_nil u e)

/-! ## the steps of the renderer -/

theorem marked_element (name : TagName) (h : Marked us is) : Marked (element name.text us) is := by
  have htags : (∀ u ∈ (Tag.opening name).units, u ≠ openMark ∧ u ≠ closeMark) ∧
      ∀ u ∈ (Tag.closing name).units, u ≠ openMark ∧ u ≠ closeMark := by
    cases name <;> decide
  have hbody := (marked_of_unmarked htags.1).append (h.append (marked_of_unmarked htags.2))
  rw [List.nil_append, List.append_nil] at hbody
  exact hbody

theorem marked_escapeHtml (h : Marked us is) : Marked (escapeHtml us) is := by
  have hread : ∀ {s us s'}, Reads coming s us s' → Reads coming s (escapeHtml us) s' := by
    intro s us s' h
    induction h with
    | nil s => exact .nil s
    | @plain u s s' us hu _ ih =>
      rw [← List.singleton_append, escapeHtml_append]
      refine Reads.append (.of_plain ?_) ih
      rw [escapeHtml_single]
      have hentity : ∀ e : Entity, ∀ v ∈ e.units, v ≠ openMark ∧ v ≠ closeMark := fun e => by
        cases e <;> decide
      split
      · exact hentity .amp
      split
      · exact hentity .lt
      split
      · exact hentity .gt
      · intro v hv
        rw [List.mem_singleton.mp hv]
        exact hu
    | @word index s s₁ s' us hmove _ ih =>
      rw [escapeHtml_append]
      have hplain : escapeHtml (markerCode.word index) = markerCode.word index := by
        refine escapeHtml_plain fun u hu => ?_
        have hnot : ∀ v : UInt16, isUnmarked v = true → u ≠ v := by
          rintro v hv rfl
          exact notMem_markerOf hv index hu
        exact ⟨hnot lessThan (by decide), hnot greaterThan (by decide), hnot ampersand (by decide)⟩
      rw [hplain]
      exact .word hmove ih
  exact hread h

/-- what is replaced has the markers of what replaces it -/
theorem marked_replace {r : Regex UInt16} {f : List UInt16 → (Nat → List UInt16) → List UInt16}
    (h : Marked us is)
    (hmatch : ∀ p w q g, us = p ++ (w ++ q) → Spans r p.reverse w q (fun _ => []) g →
      ∃ b c, Reads coming is p b ∧ Reads coming b w c ∧ Reads coming b (f w g) c ∧
        Reads coming c q []) : Marked (replace r f us) is :=
  replace_rel Reads.append Reads.cancel (.nil is) h fun p w q g hus _ hspans => hmatch p w q g hus hspans

theorem foreign_lit {t : String} (h : ∀ u ∈ (lit t).units, isUnmarked u = true) :
    Foreign coming (lit t).units := foreign_of_unmarked h

theorem reads_lit {t : String} (h : ∀ u ∈ (lit t).units, isUnmarked u = true) (s : List Nat) :
    Reads coming s (lit t).units s := .of_plain fun u hu => plain_of_unmarked (h u hu) s

/-- a label that is its own link has no marker, as no marker comes twice -/
theorem eq_nil_of_twice {pre after : List Nat} (hnodup : (pre ++ (is ++ (is ++ after))).Nodup) : is = [] := by
  cases is with
  | nil => rfl
  | cons index is =>
    have hrest := (List.nodup_append.mp hnodup).2.1
    have hdiffers := (List.nodup_append.mp hrest).2.2
    exact absurd rfl (hdiffers index List.mem_cons_self index
      (List.mem_append_left after List.mem_cons_self))

theorem marked_links (hnodup : is.Nodup) (h : Marked us is) : Marked (links us) is := by
  refine marked_replace h fun p w q g hus hspans => ?_
  have hopen : Foreign coming (lit "[").units := foreign_lit (by decide)
  have hmiddle : Foreign coming (lit "](").units := foreign_lit (by decide)
  have hclose : Foreign coming (lit ")").units := foreign_lit (by decide)
  have hparts : us = p ++ ((lit "[").units ++ (g 1 ++ ((lit "](").units ++ (g 2 ++ ((lit ")").units
      ++ q))))) := by
    rw [hus, link_spans hspans]
    simp only [List.append_assoc]
  rw [hparts] at h
  obtain ⟨b, c, hp, hopen', hlabel, hmiddle', h⟩ := Reads.cut_around (by decide) hopen hmiddle
    (hmiddle.apart_before (by decide)) h
  obtain ⟨d, hurl, h⟩ := h.cut (hclose.apart_before (by decide))
  obtain ⟨hclose', hq⟩ := h.cut_foreign hclose
  refine ⟨b, d, hp, ?_, ?_, hq⟩
  · rw [link_spans hspans]
    exact hopen'.append (hlabel.append (hmiddle'.append (hurl.append hclose')))
  · rw [linkText]
    split
    next htrim =>
      obtain ⟨pre, hpre, -⟩ := coming_iff.mp hp
      obtain ⟨inLabel, hb, hinLabel⟩ := coming_iff.mp hlabel
      obtain ⟨inUrl, hc, hinUrl⟩ := coming_iff.mp hurl
      obtain ⟨left, right, hblanks, hleft, hright⟩ : ∃ left right,
          g 1 = left ++ (Blanks.trim isSpace (g 1) ++ right) ∧ (∀ u ∈ left, isSpace u = true) ∧
            ∀ u ∈ right, isSpace u = true := Blanks.trim_between (g 1)
      have hleft' : Foreign coming left :=
        foreign_of_unmarked fun u hu => isUnmarked_of_isSpace (hleft u hu)
      have hright' : Foreign coming right :=
        foreign_of_unmarked fun u hu => isUnmarked_of_isSpace (hright u hu)
      have hlabelled : Reads coming inLabel (left ++ (g 2 ++ right)) [] := by
        rw [← htrim, ← hblanks]
        exact hinLabel
      obtain ⟨-, hrest⟩ := Reads.cut_foreign hleft' hlabelled
      rw [← List.append_nil (g 2 ++ right), List.append_assoc] at hrest
      have hend : Apart coming (g 2) (right ++ []) := by
        cases right with
        | nil => exact apart_nil_right
        | cons u right => exact hright'.apart_before (List.cons_ne_nil u right)
      obtain ⟨m, hsame, hrest⟩ := hrest.cut hend
      obtain ⟨hm, hnil⟩ := Reads.cut_foreign hright' hrest
      rw [← hnil.nil_inv] at hsame
      have heq : inUrl = inLabel := Marked.unique hsame hinUrl
      rw [hpre, hb, hc, ← heq] at hnodup
      rw [← heq, eq_nil_of_twice hnodup, List.nil_append] at hb
      rw [hb]
      exact hurl
    next =>
      exact hlabel.append ((reads_lit (by decide) c).append
        (hurl.append (reads_lit (by decide) d)))

theorem marked_headings (h : Marked us is) : Marked (headings us) is := by
  refine marked_replace h fun p w q g hus hspans => ?_
  obtain ⟨-, hend, -, d, e, rfl, hne, hd, he⟩ := heading_spans hspans
  have hparts : us = p ++ (d ++ (g 1 ++ (e ++ q))) := by
    rw [hus]
    simp only [List.append_assoc]
  rw [hparts] at h
  obtain ⟨b, c, hp, hd', hbody, he', hq⟩ := Reads.cut_around hne hd.foreign_coming he.foreign_coming
    (apart_delimiting_lineEnd he hend) h
  obtain ⟨inBody, rfl, hinBody⟩ := coming_iff.mp hbody
  exact ⟨_, c, hp, hd'.append (hbody.append he'), (marked_element .b hinBody).reads c, hq⟩

theorem marked_horizontalRules (h : Marked us is) : Marked (horizontalRules us) is := by
  refine marked_replace h fun p w q g hus hspans => ?_
  obtain ⟨hne, hw⟩ := horizontalRule_spans hspans
  rw [hus] at h
  obtain ⟨b, hp, h⟩ := h.cut (hw.foreign_coming.apart_before hne)
  obtain ⟨hw', hq⟩ := h.cut_foreign hw.foreign_coming
  exact ⟨b, b, hp, hw', reads_lit (by decide) b, hq⟩

theorem marked_quotes (h : Marked us is) : Marked (quotes us) is := by
  refine marked_replace h fun p w q g hus hspans => ?_
  obtain ⟨-, hend, -, sp, rfl, hsp⟩ := quote_spans hspans
  have hgt : Foreign coming (lit "&gt;").units := foreign_lit (by decide)
  have hparts : us = p ++ (((lit "&gt;").units ++ sp) ++ (g 1 ++ ([] ++ q))) := by
    rw [hus]
    simp only [List.append_assoc, List.nil_append]
  have hne : (lit "&gt;").units ++ sp ≠ [] := List.append_ne_nil_of_left_ne_nil (by decide) sp
  have hnil : Foreign coming [] := fun u hu => (List.not_mem_nil hu).elim
  have hline : Apart coming (g 1) ([] ++ q) := apart_lineEnd hend
  rw [hparts] at h
  obtain ⟨b, c, hp, hstart, hbody, -, hq⟩ := Reads.cut_around hne (hgt.append hsp.foreign_coming)
    hnil hline h
  obtain ⟨inBody, rfl, hinBody⟩ := coming_iff.mp hbody
  refine ⟨_, c, hp, ?_, (marked_element .blockquote hinBody).reads c, hq⟩
  rw [← List.append_assoc]
  exact hstart.append hbody

theorem marked_joinQuotes (h : Marked us is) : Marked (joinQuotes us) is := by
  have hpattern : Foreign coming (lit "</blockquote>\n<blockquote>").units :=
    foreign_lit (by decide)
  rw [joinQuotes, replaceAll, ← replace_literal (by decide)]
  refine marked_replace h fun p w q g hus hspans => ?_
  obtain ⟨rfl, -⟩ := spans_literal hspans
  rw [hus] at h
  obtain ⟨b, hp, h⟩ := h.cut (hpattern.apart_before (by decide))
  obtain ⟨hw, hq⟩ := h.cut_foreign hpattern
  exact ⟨b, b, hp, hw, reads_lit (by decide) b, hq⟩

theorem marked_bullets (h : Marked us is) : Marked (bullets us) is := by
  refine marked_replace h fun p w q g hus hspans => ?_
  obtain ⟨hindent, d, rfl, hne, hd⟩ := bullet_spans hspans
  have hall := hindent.append hd
  rw [hus] at h
  obtain ⟨b, hp, h⟩ := h.cut (hall.foreign_coming.apart_before (List.append_ne_nil_of_right_ne_nil _ hne))
  obtain ⟨hw, hq⟩ := h.cut_foreign hall.foreign_coming
  refine ⟨b, b, hp, hw, Reads.append (.of_plain fun u hu => ?_) (reads_lit (by decide) b), hq⟩
  exact plain_of_unmarked (isUnmarked_of_isDelimiter (hindent u hu)) b

theorem marked_lineMarkup (hnodup : is.Nodup) (h : Marked us is) : Marked (lineMarkup us) is :=
  marked_bullets (marked_joinQuotes (marked_quotes (marked_horizontalRules (marked_headings
    (marked_links hnodup (marked_escapeHtml h))))))

theorem marked_emphasis (letter : Nat → Bool) (h : Marked us is) : Marked (emphasis letter us) is := by
  have hsteps : ∀ es : List Emphasis, (∀ e ∈ es, e ∈ emphases letter) → ∀ us, Marked us is →
      Marked (es.foldl (fun us e => emphasize e.1 e.2 us) us) is := by
    intro es hes
    induction es with
    | nil => exact fun us h => h
    | cons e es ih =>
      intro us h
      have he := hes e List.mem_cons_self
      obtain ⟨name, -, hname⟩ := emphases_names letter e he
      refine ih (fun e' he' => hes e' (List.mem_cons_of_mem e he')) _ (marked_replace h ?_)
      intro p w q g hus hspans
      obtain ⟨d, hne, hd, rfl⟩ := emphases_enclose letter e he _ _ _ _ hspans
      have hparts : us = p ++ (d ++ (g 1 ++ (d ++ q))) := by
        rw [hus]
        simp only [List.append_assoc]
      rw [hparts] at h
      obtain ⟨b, c, hp, hopen, hbody, hclose, hq⟩ := Reads.cut_around hne hd.foreign_coming
        hd.foreign_coming (hd.foreign_coming.apart_before hne) h
      obtain ⟨inBody, rfl, hinBody⟩ := coming_iff.mp hbody
      refine ⟨_, c, hp, hopen.append (hbody.append hclose), ?_, hq⟩
      rw [hname]
      exact (marked_element name hinBody).reads c
  exact hsteps _ (fun _ he => he) us h

end

end Telegram
