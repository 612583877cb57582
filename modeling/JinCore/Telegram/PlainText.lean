import JinCore.Telegram.Quiet
import JinCore.Telegram.SafeHtml
import JinCore.Telegram.Splitting

/-!
# The plain text of a message

* `withoutTags_tag`, `withoutTags_ne`   what the pattern of a tag finds;
* `Token`, `htmlToPlain_append`   a text of whole words is taken on its own;
* `Piece`, `htmlToPlain_pieces`   escaped texts and tags;
* `Rejoined`    plain texts that give a text up to blanks at the cuts;
* `UncutWords`  no tag and no entity of an over-long line is cut; `rejoined_of_uncut`;
* `Across`, `Grouped.count`   what is cut is counted twice; `uncut_of_rejoined`;
* `losesNothing_iff`, `entity_cut`.
-/

namespace Telegram
open JsString Regex Reading Occurrences Cutting

/-! ## the pattern of a tag -/

section
variable {u : UInt16} {us body before : List UInt16}

theorem anyTag_spans {w after : List UInt16} {g : Nat → List UInt16}
    (h : Spans anyTag before w after (fun _ => []) g) : ∃ body, w = lessThan :: (body ++ [greaterThan]) ∧
      body ≠ [] ∧ greaterThan ∉ body := by
  obtain ⟨opening, w₁, g₁, rfl, hopen, h⟩ := h
  obtain ⟨body, w₂, g₂, rfl, hbody, h⟩ := h
  obtain ⟨closing, w₃, g₃, rfl, hclose, rfl, -⟩ := h
  obtain ⟨hall, hlength, -⟩ := spans_class hbody
  rw [(spans_text hopen).1, (spans_text hclose).1]
  refine ⟨body, rfl, List.length_pos_iff.mp hlength, fun hmem => ?_⟩
  have hno := hall greaterThan hmem
  revert hno
  decide

theorem exec_anyTag (hne : body ≠ []) (hbody : greaterThan ∉ body) :
    exec anyTag before (lessThan :: (body ++ greaterThan :: us))
      = some (lessThan :: (body ++ [greaterThan]), fun _ => []) := by
  obtain ⟨c, body, rfl⟩ := List.exists_cons_of_ne_nil hne
  have hclass : ∀ d ∈ c :: body, (!isUnit '>' d) = true := by
    intro d hd
    rw [Bool.not_eq_true', isUnit, decide_eq_false_iff_not]
    rintro rfl
    exact hbody hd
  have hstop : (greaterThan :: us).head?.all (fun d => !(!isUnit '>' d)) = true := by
    rw [List.head?_cons, Option.all_some]
    decide
  have hrun : run anyTag ⟨before, lessThan :: ((c :: body) ++ greaterThan :: us), fun _ => []⟩ some
      = some ⟨greaterThan :: ((c :: body).reverse ++ lessThan :: before), us, fun _ => []⟩ := by
    rw [anyTag, cat, run]
    show run (literal [lessThan]) _ _ = _
    rw [run_literal, if_pos (by rfl), cat, run]
    show run (some₁ _) ⟨lessThan :: before, (c :: body) ++ greaterThan :: us, fun _ => []⟩ _ = _
    refine run_some₁_class hclass hstop ?_
    rw [cat, run]
    show run (literal [greaterThan]) _ _ = _
    rw [run_literal, if_pos (by rfl)]
    rfl
  have hlength : (lessThan :: ((c :: body) ++ greaterThan :: us)).length - us.length
      = (lessThan :: ((c :: body) ++ [greaterThan])).length := by
    simp only [List.length_cons, List.length_append, List.length_nil]
    omega
  rw [exec, hrun, Option.map_some]
  show some ((lessThan :: ((c :: body) ++ greaterThan :: us)).take _, _) = _
  rw [hlength]
  have htext : lessThan :: ((c :: body) ++ greaterThan :: us)
      = (lessThan :: ((c :: body) ++ [greaterThan])) ++ us := by
    simp
  rw [htext, List.take_left]

/-- a tag begins here -/
def TagAt (us : List UInt16) : Prop := ∃ body rest, us = lessThan :: (body ++ greaterThan :: rest) ∧
  body ≠ [] ∧ greaterThan ∉ body

theorem exec_anyTag_none (h : ¬ TagAt us) : exec anyTag before us = none := by
  rw [Option.eq_none_iff_forall_ne_some]
  rintro ⟨w, g⟩ hexec
  obtain ⟨after, rfl, hspans⟩ := exec_spans hexec
  obtain ⟨body, rfl, hne, hbody⟩ := anyTag_spans hspans
  exact h ⟨body, after, by rw [List.cons_append, List.append_assoc, List.singleton_append], hne, hbody⟩

/-! ## without tags -/

/-- from a position on -/
def stripped (before us : List UInt16) : List UInt16 :=
  (scanFrom anyTag 0 before us).flatMap (Item.render fun _ _ => [])

theorem stripped_none (h : ¬ TagAt (u :: us)) : stripped before (u :: us) = u :: stripped (u :: before) us := by
  rw [stripped, scanFrom, exec_anyTag_none h]
  rfl

theorem stripped_tag (hne : body ≠ []) (hbody : greaterThan ∉ body) :
    stripped before (lessThan :: (body ++ greaterThan :: us))
      = stripped ((body ++ [greaterThan]).reverse ++ lessThan :: before) us := by
  have htext : body ++ greaterThan :: us = (body ++ [greaterThan]) ++ us := by simp
  rw [stripped, scanFrom, exec_anyTag hne hbody]
  dsimp only
  rw [List.flatMap_cons, Item.render, List.nil_append, htext, scanFrom_skip]
  rfl

theorem stripped_nil : stripped before [] = [] := by
  have hnone : ¬ TagAt [] := by
    rintro ⟨body, rest, h, -⟩
    cases h
  rw [stripped, scanFrom, exec_anyTag_none hnone]
  rfl

/-- what comes before does not matter -/
theorem stripped_eq (n : Nat) : ∀ before us : List UInt16, us.length = n →
    stripped before us = withoutTags us := by
  induction n using Nat.strong_induction_on with
  | h n ih =>
    intro before us hn
    cases us with
    | nil => exact stripped_nil.trans stripped_nil.symm
    | cons u us =>
      by_cases htag : TagAt (u :: us)
      · obtain ⟨body, rest, htext, hne, hbody⟩ := htag
        have hlt : rest.length < n := by
          rw [← hn, htext, List.length_cons, List.length_append, List.length_cons]
          omega
        have hempty : withoutTags (lessThan :: (body ++ greaterThan :: rest)) = _ := stripped_tag hne hbody
        rw [htext, stripped_tag hne hbody, hempty, ih _ hlt _ rest rfl, ih _ hlt _ rest rfl]
      · have hlt : us.length < n := by
          rw [← hn]
          exact Nat.lt_succ_self _
        have hempty : withoutTags (u :: us) = _ := stripped_none htag
        rw [stripped_none htag, hempty, ih _ hlt _ us rfl, ih _ hlt _ us rfl]

theorem withoutTags_none (h : ¬ TagAt (u :: us)) : withoutTags (u :: us) = u :: withoutTags us := by
  have hempty : withoutTags (u :: us) = _ := stripped_none h
  rw [hempty, stripped_eq _ _ us rfl]

theorem withoutTags_ne (hu : u ≠ lessThan) (us : List UInt16) :
    withoutTags (u :: us) = u :: withoutTags us := by
  refine withoutTags_none ?_
  rintro ⟨body, rest, h, -⟩
  exact hu (List.cons.inj h).1

theorem withoutTags_tag (hne : body ≠ []) (hbody : greaterThan ∉ body) (us : List UInt16) :
    withoutTags (lessThan :: (body ++ greaterThan :: us)) = withoutTags us := by
  have hempty : withoutTags (lessThan :: (body ++ greaterThan :: us)) = _ := stripped_tag hne hbody
  rw [hempty, stripped_eq _ _ us rfl]

theorem withoutTags_nil : withoutTags [] = [] := stripped_nil

theorem withoutTags_notMem (h : lessThan ∉ us) (rest : List UInt16) :
    withoutTags (us ++ rest) = us ++ withoutTags rest := by
  induction us with
  | nil => rfl
  | cons u us ih =>
    rw [List.mem_cons, not_or] at h
    rw [List.cons_append, withoutTags_ne (Ne.symm h.1), ih h.2]
    rfl

end

/-! ## entities -/

def Entity.unit : Entity → UInt16
  | .amp => ampersand
  | .lt => lessThan
  | .gt => greaterThan

/-- what is left of a text without its tags -/
inductive Token where
  | plain (u : UInt16) (h : IsPlain u)
  | entity (e : Entity)

/-- some entities stand for their unit again -/
def Token.shown (done : List Entity) : Token → List UInt16
  | .plain u _ => [u]
  | .entity e => if e ∈ done then [e.unit] else e.units

def unescape (e : Entity) (us : List UInt16) : List UInt16 := replaceFrom e.units [e.unit] 0 us

theorem htmlToPlain_eq (html : List UInt16) :
    htmlToPlain html = unescape .amp (unescape .gt (unescape .lt (withoutTags html))) := rfl

theorem entity_head (e : Entity) : e.units.head? = some ampersand := by cases e <;> decide

theorem entity_tail (e : Entity) : ampersand ∉ e.units.tail ∧ lessThan ∉ e.units := by
  cases e <;> decide

theorem entity_prefixFree {e e' : Entity} (h : e.units <+: e'.units) : e = e' := by
  have hword : Word.entity e = .entity e' := word_prefixFree h
  exact Word.entity.inj hword

/-- one entity at a time, `&amp;` last -/
theorem unescape_tokens {done : List Entity} {e : Entity} (hamp : .amp ∉ done) (he : e ∉ done)
    (tokens : List Token) (rest : List UInt16) :
    unescape e (tokens.flatMap (Token.shown done) ++ rest)
      = tokens.flatMap (Token.shown (e :: done)) ++ unescape e rest := by
  have hunit : ∀ u : UInt16, u ≠ ampersand → ∀ ys, e.units.isPrefixOf ([u] ++ ys) = false :=
    fun u hu ys => isPrefixOf_cons_of_ne (entity_head e) hu ys
  have hblock : ∀ t : Token, t.shown done = e.units ∨
      (∀ ys, e.units.isPrefixOf (t.shown done ++ ys) = false) ∧ ampersand ∉ (t.shown done).tail := by
    intro t
    cases t with
    | plain u hu => exact Or.inr ⟨hunit u hu.2.2, List.not_mem_nil⟩
    | entity e' =>
      rw [Token.shown]
      split
      next hdone =>
        refine Or.inr ⟨hunit _ ?_, List.not_mem_nil⟩
        cases e' with
        | amp => exact absurd hdone hamp
        | lt => decide
        | gt => decide
      next =>
        by_cases heq : e = e'
        · exact Or.inl (by rw [heq])
        · exact Or.inr ⟨isPrefixOf_append_eq_false (fun h => heq (entity_prefixFree h))
            (fun h => heq (entity_prefixFree h).symm), (entity_tail e').1⟩
  have hshown : ∀ t : Token, (if t.shown done = e.units then [e.unit] else t.shown done)
      = t.shown (e :: done) := by
    intro t
    cases t with
    | plain u hu =>
      refine if_neg fun h => hu.2.2 ?_
      have hhead := entity_head e
      rw [← h] at hhead
      exact Option.some.inj hhead
    | entity e' =>
      by_cases heq : e' = e
      · subst heq
        rw [Token.shown, if_neg he, if_pos rfl, Token.shown, if_pos List.mem_cons_self]
      · have hmem : e' ∈ e :: done ↔ e' ∈ done := by
          rw [List.mem_cons, or_iff_right heq]
        rw [Token.shown, Token.shown]
        by_cases hdone : e' ∈ done
        · rw [if_pos hdone, if_pos (hmem.mpr hdone)]
          refine if_neg fun h => ?_
          have hhead := entity_head e
          rw [← h] at hhead
          cases e' with
          | amp => exact hamp hdone
          | lt => revert hhead; decide
          | gt => revert hhead; decide
        · rw [if_neg hdone, if_neg fun h => hdone (hmem.mp h)]
          exact if_neg fun h : e'.units = e.units => heq (entity_prefixFree (h ▸ List.prefix_refl _))
  rw [unescape, replaceFrom_flatMap_append (entity_head e) hblock]
  simp only [hshown]
  rfl

theorem tag_body (t : Tag) : ∃ body, t.units = lessThan :: (body ++ [greaterThan]) ∧ body ≠ [] ∧
    greaterThan ∉ body := by
  have hlast : ∀ body, t.units = lessThan :: (body ++ [greaterThan]) → greaterThan ∉ body := by
    intro body hbody hmem
    refine (word_units (.tag t)).2.2 ?_
    show greaterThan ∈ t.units.dropLast
    rw [hbody, ← List.cons_append, List.dropLast_concat]
    exact List.mem_cons_of_mem _ hmem
  cases t with
  | opening name =>
    have hunits : ∀ n : TagName, (Tag.opening n).units
        = lessThan :: ((lit n.text).units ++ [greaterThan]) ∧ (lit n.text).units ≠ [] := by
      intro n
      cases n <;> decide
    exact ⟨_, (hunits name).1, (hunits name).2, hlast _ (hunits name).1⟩
  | closing name =>
    have hunits : ∀ n : TagName, (Tag.closing n).units
        = lessThan :: ((lit ("/" ++ n.text)).units ++ [greaterThan]) ∧
          (lit ("/" ++ n.text)).units ≠ [] := by
      intro n
      cases n <;> decide
    exact ⟨_, (hunits name).1, (hunits name).2, hlast _ (hunits name).1⟩
  | codeIn l =>
    have hunits : (Tag.codeIn l).units
        = lessThan :: ((classHead.tail ++ (l.units ++ [0x22])) ++ [greaterThan]) := by
      have hend : classEnd = [0x22] ++ [greaterThan] := by decide
      have hhead : classHead = lessThan :: classHead.tail := by decide
      rw [Tag.units, hend, List.append_assoc, List.append_assoc, ← List.cons_append, ← hhead]
    exact ⟨_, hunits, by simp, hlast _ hunits⟩

theorem withoutTags_word (t : Tag) (us : List UInt16) : withoutTags (t.units ++ us) = withoutTags us := by
  obtain ⟨body, hunits, hne, hbody⟩ := tag_body t
  rw [hunits, List.cons_append, List.append_assoc]
  exact withoutTags_tag hne hbody us

/-- whole words in front are taken on their own -/
theorem withoutTags_reads {us : List UInt16} {a c : Unit} (h : Reads (flat fun _ => true) a us c) :
    ∃ tokens : List Token, ∀ rest, withoutTags (us ++ rest)
      = tokens.flatMap (Token.shown []) ++ withoutTags rest := by
  induction h with
  | nil => exact ⟨[], fun rest => rfl⟩
  | @plain u _ _ us hu _ ih =>
    obtain ⟨tokens, htokens⟩ := ih
    refine ⟨.plain u hu :: tokens, fun rest => ?_⟩
    rw [List.cons_append, withoutTags_ne hu.1, htokens]
    rfl
  | @word w _ _ _ us _ _ ih =>
    obtain ⟨tokens, htokens⟩ := ih
    cases w with
    | tag t =>
      refine ⟨tokens, fun rest => ?_⟩
      show withoutTags ((t.units ++ us) ++ rest) = _
      rw [List.append_assoc, withoutTags_word, htokens]
    | entity e =>
      refine ⟨.entity e :: tokens, fun rest => ?_⟩
      show withoutTags ((e.units ++ us) ++ rest) = _
      rw [List.append_assoc, withoutTags_notMem (entity_tail e).2, htokens, List.flatMap_cons,
        List.append_assoc]
      rfl

theorem htmlToPlain_tokens {us : List UInt16} (h : Reads (flat fun _ => true) () us ()) :
    ∃ tokens : List Token, ∀ rest, htmlToPlain (us ++ rest)
      = tokens.flatMap (Token.shown [.amp, .gt, .lt]) ++ htmlToPlain rest := by
  obtain ⟨tokens, htokens⟩ := withoutTags_reads h
  refine ⟨tokens, fun rest => ?_⟩
  rw [htmlToPlain_eq, htokens, unescape_tokens (by decide) (by decide),
    unescape_tokens (by decide) (by decide), unescape_tokens (by decide) (by decide)]
  rfl

theorem htmlToPlain_nil : htmlToPlain [] = [] := by
  rw [htmlToPlain_eq, withoutTags_nil]
  rfl

/-- **whole words are taken on their own** -/
theorem htmlToPlain_append {us : List UInt16} (h : Reads (flat fun _ => true) () us ())
    (rest : List UInt16) : htmlToPlain (us ++ rest) = htmlToPlain us ++ htmlToPlain rest := by
  obtain ⟨tokens, htokens⟩ := htmlToPlain_tokens h
  have hus := htokens []
  rw [List.append_nil, htmlToPlain_nil, List.append_nil] at hus
  rw [htokens, hus]

theorem htmlToPlain_notBegins {us : List UInt16} (h : ∀ u ∈ us, ¬ htmlCode.begins u)
    (rest : List UInt16) : htmlToPlain (us ++ rest) = us ++ htmlToPlain rest := by
  have hlt : lessThan ∉ us := fun hmem => h _ hmem (Or.inl rfl)
  have hamp : ampersand ∉ us := fun hmem => h _ hmem (Or.inr rfl)
  have hunescape : ∀ e xs, unescape e (us ++ xs) = us ++ unescape e xs := fun e xs =>
    replaceFrom_append (entity_head e) hamp _ xs
  rw [htmlToPlain_eq, withoutTags_notMem hlt, hunescape, hunescape, hunescape]
  rfl

theorem htmlToPlain_tag (t : Tag) (rest : List UInt16) : htmlToPlain (t.units ++ rest) = htmlToPlain rest := by
  rw [htmlToPlain_eq, withoutTags_word]
  rfl

theorem htmlToPlain_entity (e : Entity) : htmlToPlain e.units = [e.unit] := by
  have hwithout : withoutTags e.units = e.units := by
    have hnone := withoutTags_notMem (entity_tail e).2 []
    rwa [List.append_nil, withoutTags_nil, List.append_nil] at hnone
  rw [htmlToPlain_eq, hwithout]
  cases e <;> decide

/-! ## escaped texts and tags -/

inductive Piece where
  | text (us : List UInt16)
  | tag (t : Tag)

def Piece.html : Piece → List UInt16
  | .text us => escapeHtml us
  | .tag t => t.units

def Piece.plain : Piece → List UInt16
  | .text us => us
  | .tag _ => []

theorem reads_escaped (us : List UInt16) : Reads (flat fun _ => true) () (escapeHtml us) () :=
  reads_escapeHtml (fun _ hu => hu) (fun _ => rfl) us

theorem htmlToPlain_escapeHtml (us : List UInt16) : htmlToPlain (escapeHtml us) = us := by
  induction us with
  | nil => exact htmlToPlain_nil
  | cons u us ih =>
    have hsingle : htmlToPlain (escapeHtml [u]) = [u] := by
      rw [escapeHtml_single]
      split
      next hu => rw [htmlToPlain_entity, hu]; rfl
      next hamp =>
        split
        next hu => rw [htmlToPlain_entity, hu]; rfl
        next hlt =>
          split
          next hu => rw [htmlToPlain_entity, hu]; rfl
          next =>
            have hbegins : ∀ v ∈ [u], ¬ htmlCode.begins v := fun v hv =>
              List.mem_singleton.mp hv ▸ not_or_intro hlt hamp
            have hplain := htmlToPlain_notBegins hbegins []
            rwa [List.append_nil, htmlToPlain_nil] at hplain
    rw [← List.singleton_append, escapeHtml_append, htmlToPlain_append (reads_escaped [u]), hsingle, ih]

/-- **escaping is undone**, whatever the texts are, and whatever tags stand between them -/
theorem htmlToPlain_pieces (pieces : List Piece) :
    htmlToPlain (pieces.flatMap Piece.html) = pieces.flatMap Piece.plain := by
  induction pieces with
  | nil => exact htmlToPlain_nil
  | cons piece pieces ih =>
    rw [List.flatMap_cons, List.flatMap_cons, ← ih]
    cases piece with
    | text us =>
      show htmlToPlain (escapeHtml us ++ _) = us ++ _
      rw [htmlToPlain_append (reads_escaped us), htmlToPlain_escapeHtml]
    | tag t => exact htmlToPlain_tag t _

/-! ## the chunks -/

/-- texts that give a text, up to blanks at the beginning of each and after the last -/
inductive Rejoined : List (List UInt16) → List UInt16 → Prop
  | done {tail : List UInt16} (htail : ∀ u ∈ tail, isSpace u = true) : Rejoined [] tail
  | next {content part text : List UInt16} {contents : List (List UInt16)}
      (hcontent : content.dropWhile isSpace = part.dropWhile isSpace)
      (hrest : Rejoined contents text) : Rejoined (content :: contents) (part ++ text)

/-- a tag or an entity, read without a state -/
abbrev words : Reader htmlCode Unit := flat fun _ => true

/-- no tag and no entity is cut where a line is too long -/
def UncutWords (limit : Nat) (html : List UInt16) : Prop :=
  ∀ line ∈ html.splitOn newline, ∀ k, 0 < k → limit * k < line.length →
    Apart words (line.take (limit * k)) (line.drop (limit * k))

/-! ### whole words -/

section
variable {limit : Nat} {html : List UInt16}

theorem newline_word (w : Word) : newline ∉ w.units := by
  rcases simple_or_code w with hw | ⟨l, rfl⟩
  · have hall : ∀ w ∈ simpleWords, newline ∉ w.units := by decide
    exact hall w hw
  · show newline ∉ classHead ++ (l.units ++ classEnd)
    rw [List.mem_append, List.mem_append, not_or, not_or]
    refine ⟨by decide, fun hmem => ?_, by decide⟩
    exact absurd (List.all_eq_true.mp l.ok _ hmem) (by decide)

theorem isPlain_of_isSpace {u : UInt16} (hu : isSpace u = true) : IsPlain u :=
  isPlain_of_isLoose (isLoose_of_isSpace hu)

/-- what stands in a line alone stands across a place of the text -/
theorem suffix_of_line {sep : UInt16} {u a left : List UInt16} (hsep : sep ∉ u)
    (h : u <:+ a ++ sep :: left) : u <:+ left := by
  have hright : left <:+ a ++ sep :: left := (List.suffix_cons sep left).trans (List.suffix_append a _)
  rcases List.suffix_or_suffix_of_suffix h hright with h | ⟨p, rfl⟩
  · exact h
  · cases p with
    | nil => exact List.suffix_refl _
    | cons c p =>
      obtain ⟨q, hq⟩ := h
      have heq : (q ++ c :: p) ++ left = (a ++ [sep]) ++ left := by
        rw [List.append_assoc, List.append_assoc, List.singleton_append]
        exact hq
      have hlast := congrArg List.getLast? (List.append_cancel_right heq)
      rw [List.getLast?_append_of_ne_nil _ (List.cons_ne_nil c p), List.getLast?_concat] at hlast
      exact absurd (List.mem_append_left _ (List.mem_of_getLast? hlast)) hsep

theorem prefix_of_line {sep : UInt16} {v right b : List UInt16} (hsep : sep ∉ v)
    (h : v <+: right ++ sep :: b) : v <+: right := by
  rcases List.prefix_or_prefix_of_prefix h (List.prefix_append right (sep :: b)) with h | ⟨p, rfl⟩
  · exact h
  · obtain ⟨q, hq⟩ := h
    rw [List.append_assoc] at hq
    have htail := List.append_cancel_left hq
    cases p with
    | nil => rw [List.append_nil]
    | cons c p =>
      rw [List.cons_append, List.cons.injEq] at htail
      rw [htail.1] at hsep
      exact absurd (List.mem_append_right _ List.mem_cons_self) hsep

theorem apart_of_inside {broken : Bool} {a b left right : List UInt16}
    (h : Inside newline broken a b left right) (hapart : Apart words left right) :
    Apart words a b := by
  intro w u v hlive hword hu hv hacross
  have hnewline := newline_word w
  have hword' : w.units = u ++ v := hword
  rw [hword', List.mem_append, not_or] at hnewline
  refine hapart w u v hlive hword hu hv ⟨?_, ?_⟩
  · rcases h.before with ⟨-, rfl⟩ | ⟨a', rfl⟩
    · exact hacross.1
    · exact suffix_of_line hnewline.1 hacross.1
  · rcases h.after with rfl | ⟨b', rfl⟩
    · exact hacross.2
    · exact prefix_of_line hnewline.2 hacross.2

/-- no word stands across a place between two pieces -/
theorem apart_placed (hlimit : 0 < limit) (huncut : UncutWords limit html)
    {before after : List (Bool × List UInt16)} (h : placed newline limit html = before ++ after) :
    Apart words (joined newline before) (joined newline after) := by
  cases after with
  | nil => exact apart_nil_right
  | cons item after =>
    obtain ⟨broken, piece⟩ := item
    cases broken with
    | true =>
      refine apart_of_head fun w _ hmem => newline_word w (List.mem_of_mem_tail hmem)
    | false =>
      by_cases hbefore : before = []
      · rw [hbefore]
        exact apart_nil_left
      · obtain ⟨line, hline, k, hpos, hk, hinside⟩ := placed_cut hlimit h hbefore
        exact apart_of_inside hinside (huncut line hline k hpos hk)

theorem reads_items {items : List (Bool × List UInt16)}
    (happart : ∀ before after, items = before ++ after →
      Apart words (joined newline before) (joined newline after))
    (h : Reads words () (joined newline items) ()) :
    ∀ item ∈ items, Reads words () (spelled newline item) () := by
  induction items with
  | nil => exact fun item hitem => (List.not_mem_nil hitem).elim
  | cons first items ih =>
    have hfirst : Apart words (spelled newline first) (joined newline items) := by
      have hcut := happart [first] items rfl
      rwa [joined_cons, show joined newline [] = [] from rfl, List.append_nil] at hcut
    obtain ⟨_, hspelled, hrest⟩ := h.cut hfirst
    refine List.forall_mem_cons.mpr ⟨hspelled, ih (fun before after heq => ?_) hrest⟩
    -- a place of the rest is a place of the whole
    intro w u v hlive hword hu hv hacross
    refine happart (first :: before) after (by rw [heq]; rfl) w u v hlive hword hu hv ⟨?_, hacross.2⟩
    exact hacross.1.trans (List.suffix_append _ _)

theorem reads_joined {items : List (Bool × List UInt16)}
    (h : ∀ item ∈ items, Reads words () (spelled newline item) ()) :
    Reads words () (joined newline items) () := by
  induction items with
  | nil => exact .nil ()
  | cons item items ih =>
    rw [List.forall_mem_cons] at h
    exact h.1.append (ih h.2)

/-! ### chunks of whole words -/

/-- blanks at the beginning of a text stay where they are -/
theorem htmlToPlain_dropWhile (us rest : List UInt16) :
    htmlToPlain (us ++ rest) = us.takeWhile isSpace ++ htmlToPlain (us.dropWhile isSpace ++ rest) := by
  have hblank : ∀ u ∈ us.takeWhile isSpace, ¬ htmlCode.begins u := fun u hu =>
    not_begins_of_isPlain (isPlain_of_isSpace (List.mem_takeWhile_imp hu))
  rw [← htmlToPlain_notBegins hblank, ← List.append_assoc, List.takeWhile_append_dropWhile]

theorem dropWhile_takeWhile_append (us text : List UInt16) :
    (us.takeWhile isSpace ++ text).dropWhile isSpace = text.dropWhile isSpace :=
  dropWhile_blank_append (List.dropWhile_eq_nil_iff.mpr fun _ hu => List.mem_takeWhile_imp hu) text

/-- texts that agree up to blanks at the beginning do so without their tags -/
theorem dropWhile_htmlToPlain {us vs : List UInt16}
    (h : us.dropWhile isSpace = vs.dropWhile isSpace) (rest : List UInt16) :
    (htmlToPlain (us ++ rest)).dropWhile isSpace = (htmlToPlain (vs ++ rest)).dropWhile isSpace := by
  rw [htmlToPlain_dropWhile us, htmlToPlain_dropWhile vs, dropWhile_takeWhile_append,
    dropWhile_takeWhile_append, h]

theorem htmlToPlain_reopened (opened : Bool) (us : List UInt16) :
    htmlToPlain (reopened opened ++ us) = htmlToPlain us := by
  cases opened with
  | false => rfl
  | true => exact htmlToPlain_tag (.opening .pre) us

/-- the tag at the end of a chunk -/
def closing (inPre : Bool) : List UInt16 := if inPre then preClosing else []

theorem closed_eq (inPre : Bool) (us : List UInt16) : closed inPre us = us ++ closing inPre := by
  cases inPre with
  | false => exact (List.append_nil us).symm
  | true => rfl

theorem htmlToPlain_closing (inPre : Bool) : htmlToPlain (closing inPre) = [] := by
  cases inPre with
  | false => exact htmlToPlain_nil
  | true =>
    have htag := htmlToPlain_tag (.closing .pre) []
    rw [List.append_nil, htmlToPlain_nil] at htag
    exact htag

theorem htmlToPlain_blank {us : List UInt16} (h : ∀ u ∈ us, isSpace u = true) :
    htmlToPlain us = us := by
  have hblank : ∀ u ∈ us, ¬ htmlCode.begins u := fun u hu =>
    not_begins_of_isPlain (isPlain_of_isSpace (h u hu))
  have hplain := htmlToPlain_notBegins hblank []
  rwa [List.append_nil, htmlToPlain_nil, List.append_nil] at hplain

theorem Grouped.rejoined {opened : Bool} {chunks : List (List UInt16)}
    {items : List (Bool × List UInt16)} (h : Grouped opened chunks items)
    (hitems : ∀ item ∈ items, Reads words () (spelled newline item) ()) :
    Rejoined (chunks.map htmlToPlain) (htmlToPlain (joined newline items)) := by
  induction h with
  | done hblank =>
    rw [htmlToPlain_blank hblank]
    exact .done hblank
  | @next opened inPre content group items chunks hcontent _ _ ih =>
    have hgroup : Reads words () (joined newline group) () :=
      reads_joined fun item hitem => hitems item (List.mem_append_left _ hitem)
    have hrest := ih fun item hitem => hitems item (List.mem_append_right _ hitem)
    rw [joined_append, htmlToPlain_append hgroup, List.map_cons, closed_eq, List.append_assoc,
      htmlToPlain_reopened]
    refine .next ?_ hrest
    rw [dropWhile_htmlToPlain hcontent, htmlToPlain_append hgroup, htmlToPlain_closing, List.append_nil]

theorem rejoined_of_uncut (hlimit : 0 < limit) (hreads : Reads words () html ())
    (huncut : UncutWords limit html) :
    Rejoined ((splitForTelegram html limit).map htmlToPlain) (htmlToPlain html) := by
  by_cases h : html.length ≤ limit
  · rw [splitForTelegram, if_pos h]
    have hone : Rejoined [htmlToPlain html] (htmlToPlain html ++ []) :=
      .next rfl (.done fun u hu => (List.not_mem_nil hu).elim)
    rw [List.append_nil] at hone
    exact hone
  · have hgrouped := splitForTelegram_grouped hlimit (Nat.lt_of_not_le h)
    have hjoined : joined newline (placed newline limit html) = html := joined_placed hlimit html
    have hitems := reads_items (fun before after heq => apart_placed hlimit huncut heq)
      (hjoined.symm ▸ hreads)
    have hrejoined := hgrouped.rejoined hitems
    rwa [hjoined] at hrejoined

/-! ### what is cut is counted twice -/

/-- how many units of a text are not blank -/
def inkOf (us : List UInt16) : Nat := us.countP fun u => !isSpace u

def plainInk (html : List UInt16) : Nat := inkOf (htmlToPlain html)

/-- a word stands across a place -/
def Across (a b : List UInt16) : Prop :=
  ∃ (w : Word) (u v : List UInt16), w.units = u ++ v ∧ u ≠ [] ∧ v ≠ [] ∧ u <:+ a ∧ v <+: b

/-- the rest of a word, and whole words -/
def Rest (us : List UInt16) : Prop :=
  ∃ r t, us = r ++ t ∧ (∀ u ∈ r, ¬ htmlCode.begins u) ∧ Reads words () t ()

theorem inkOf_append (us vs : List UInt16) : inkOf (us ++ vs) = inkOf us + inkOf vs :=
  List.countP_append

theorem inkOf_blank {us : List UInt16} (h : ∀ u ∈ us, isSpace u = true) : inkOf us = 0 := by
  rw [inkOf, List.countP_eq_zero]
  intro u hu
  rw [h u hu]
  exact Bool.false_ne_true

theorem inkOf_pos {us : List UInt16} {u : UInt16} (hu : u ∈ us) (hspace : isSpace u = false) :
    0 < inkOf us := by
  refine List.countP_pos_iff.mpr ⟨u, hu, ?_⟩
  rw [hspace]
  rfl

theorem inkOf_dropWhile (us : List UInt16) : inkOf (us.dropWhile isSpace) = inkOf us := by
  have hsplit := inkOf_append (us.takeWhile isSpace) (us.dropWhile isSpace)
  rw [List.takeWhile_append_dropWhile, inkOf_blank fun _ hu => List.mem_takeWhile_imp hu,
    Nat.zero_add] at hsplit
  exact hsplit.symm

theorem Rejoined.ink {contents : List (List UInt16)} {text : List UInt16}
    (h : Rejoined contents text) : (contents.map inkOf).sum = inkOf text := by
  induction h with
  | done htail => exact (inkOf_blank htail).symm
  | @next content part text contents hcontent _ ih =>
    rw [List.map_cons, List.sum_cons, inkOf_append, ih, ← inkOf_dropWhile content, hcontent,
      inkOf_dropWhile]

theorem plainInk_reads {us : List UInt16} (h : Reads words () us ()) (rest : List UInt16) :
    plainInk (us ++ rest) = plainInk us + plainInk rest := by
  rw [plainInk, htmlToPlain_append h, inkOf_append]
  rfl

theorem plainInk_notBegins {us : List UInt16} (h : ∀ u ∈ us, ¬ htmlCode.begins u)
    (rest : List UInt16) : plainInk (us ++ rest) = inkOf us + plainInk rest := by
  rw [plainInk, htmlToPlain_notBegins h, inkOf_append]
  rfl

/-- the ends of a word are not blank -/
theorem word_ends (w : Word) : ∃ c us d, w.units = c :: (us ++ [d]) ∧ htmlCode.begins c ∧
    isSpace d = false := by
  cases w with
  | tag t =>
    obtain ⟨body, hunits, -, -⟩ := tag_body t
    exact ⟨lessThan, body, greaterThan, hunits, Or.inl rfl, by decide⟩
  | entity e =>
    have hunits : e.units = ampersand :: (e.units.tail.dropLast ++ [0x3B]) := by
      cases e <;> decide
    exact ⟨ampersand, _, 0x3B, hunits, Or.inr rfl, by decide⟩

/-- the two parts of a word that is cut -/
theorem word_parts {w : Word} {u v : List UInt16} (h : w.units = u ++ v) (hu : u ≠ []) (hv : v ≠ []) :
    (∃ c u', u = c :: u' ∧ htmlCode.begins c) ∧ (∀ x ∈ v, ¬ htmlCode.begins x) ∧ 0 < inkOf v := by
  obtain ⟨c, us, d, hunits, hc, hd⟩ := word_ends w
  obtain ⟨x, u, rfl⟩ := List.exists_cons_of_ne_nil hu
  have hwhole := hunits.symm.trans h
  rw [List.cons_append, List.cons.injEq] at hwhole
  obtain ⟨rfl, htail⟩ := hwhole
  refine ⟨⟨c, u, rfl, hc⟩, fun x hx hbegins => ?_, ?_⟩
  · have hmem : x ∈ w.units.tail := by
      rw [h, List.cons_append, List.tail_cons]
      exact List.mem_append_right u hx
    rcases hbegins with rfl | rfl
    · exact (word_units w).1 hmem
    · exact (word_units w).2.1 hmem
  · have hlast := congrArg List.getLast? htail
    rw [List.getLast?_concat, List.getLast?_append_of_ne_nil _ hv] at hlast
    exact inkOf_pos (List.mem_of_getLast? hlast.symm) hd

theorem plainInk_closing (inPre : Bool) : plainInk (closing inPre) = 0 := by
  rw [plainInk, htmlToPlain_closing]
  rfl

/-- the parts of a word have more ink than the word -/
theorem ink_parts {w : Word} {u v : List UInt16} (h : w.units = u ++ v) (hu : u ≠ []) (hv : v ≠ [])
    (inPre : Bool) : plainInk w.units < plainInk (u ++ closing inPre) + inkOf v := by
  have hink := (word_parts h hu hv).2.2
  cases w with
  | tag t =>
    have hzero : plainInk t.units = 0 := by
      have htag := htmlToPlain_tag t []
      rw [List.append_nil, htmlToPlain_nil] at htag
      rw [plainInk, htag]
      rfl
    show plainInk t.units < _
    omega
  | entity e =>
    have hone : plainInk e.units ≤ 1 := by
      rw [plainInk, htmlToPlain_entity]
      exact List.countP_le_length
    have hfirst : ∀ e : Entity, ∀ k < e.units.length, 0 < k → ∀ inPre : Bool,
        0 < plainInk (e.units.take k ++ closing inPre) := by
      intro e
      cases e <;> decide
    have hunits : e.units = u ++ v := h
    have hlength := congrArg List.length hunits
    rw [List.length_append] at hlength
    have hupos := List.length_pos_iff.mpr hu
    have hvpos := List.length_pos_iff.mpr hv
    have hcut := hfirst e u.length (by omega) hupos inPre
    rw [hunits, List.take_left] at hcut
    show plainInk e.units < _
    omega

/-! ### one cut -/

theorem across_of_begins {w : Word} {u v a r t : List UInt16} (h : w.units = u ++ v) (hu : u ≠ [])
    (hv : v ≠ []) (hr : ∀ x ∈ r, ¬ htmlCode.begins x) (ha : a = r ++ t) (hsuffix : u <:+ a) :
    u <:+ t := by
  obtain ⟨⟨c, u', rfl, hc⟩, -, -⟩ := word_parts h hu hv
  rw [ha] at hsuffix
  rcases List.suffix_or_suffix_of_suffix hsuffix (List.suffix_append r t) with h | ⟨p, hp⟩
  · exact h
  · cases p with
    | nil => exact hp ▸ List.suffix_refl _
    | cons d p =>
      obtain ⟨rfl, -⟩ := List.cons.inj hp
      obtain ⟨q, hq⟩ := hsuffix
      have heq : (q ++ d :: p) ++ t = r ++ t := by
        rw [← hq, ← hp, List.append_assoc]
      have hmem : d ∈ r := by
        rw [← List.append_cancel_right heq]
        exact List.mem_append_right q List.mem_cons_self
      exact absurd hc (hr d hmem)

/-- no word stands across the end of whole words -/
theorem not_across_of_reads {w : Word} {u v t : List UInt16} (h : w.units = u ++ v) (hu : u ≠ [])
    (hv : v ≠ []) (ht : Reads words () t ()) (hsuffix : u <:+ t) : False := by
  obtain ⟨⟨c, u', rfl, hc⟩, -, -⟩ := word_parts h hu hv
  obtain ⟨q, rfl⟩ := hsuffix
  have hapart : Apart words q (c :: u') := by
    refine apart_of_head fun w' _ hmem => ?_
    rcases hc with rfl | rfl
    · exact (word_units w').1 hmem
    · exact (word_units w').2.1 hmem
  obtain ⟨_, -, hrest⟩ := ht.cut hapart
  obtain ⟨w', vs, hword⟩ := hrest.begins_inv hc
  have hprefix : w'.units <+: w.units := by
    rw [h, hword]
    exact (List.prefix_append _ vs).trans (List.prefix_append _ v)
  obtain rfl := word_prefixFree hprefix
  have hlength := congrArg List.length h
  have hlonger := congrArg List.length hword
  have hword' : htmlCode.word w' = w'.units := rfl
  rw [List.length_append] at hlength
  rw [hword', List.length_append] at hlonger
  have hvpos := List.length_pos_iff.mpr hv
  omega

/-- a text that is cut has no less ink in its parts, and more where a word is cut -/
theorem cut_ink {a b : List UInt16} (h : Rest (a ++ b)) (inPre : Bool) : Rest b ∧
    plainInk (a ++ b) ≤ plainInk (a ++ closing inPre) + plainInk b ∧
    (Across a b → plainInk (a ++ b) < plainInk (a ++ closing inPre) + plainInk b) := by
  obtain ⟨r, t, htext, hr, ht⟩ := h
  rcases List.append_eq_append_iff.mp htext with ⟨r', hrsplit, rfl⟩ | ⟨t', rfl, hbsplit⟩
  · -- within the rest of a word
    rw [hrsplit, List.forall_mem_append] at hr
    have hequal : plainInk (a ++ (r' ++ t)) = plainInk (a ++ closing inPre) + plainInk (r' ++ t) := by
      rw [plainInk_notBegins hr.1, plainInk_notBegins hr.1, plainInk_closing, Nat.add_zero]
    refine ⟨⟨r', t, rfl, hr.2, ht⟩, hequal.le, fun ⟨w, u, v, hword, hu, hv, hsuffix, _⟩ => ?_⟩
    have hnil := across_of_begins hword hu hv hr.1 (List.append_nil a).symm hsuffix
    exact absurd (List.suffix_nil.mp hnil) hu
  · subst hbsplit
    rcases ht.split with ⟨_, ht', hb⟩ | ⟨w, u, v, t'', b', _, _, hword, hu, hv, rfl, rfl, ht', -, hb'⟩
    · -- between two words
      have hequal : plainInk (r ++ t' ++ b) = plainInk (r ++ t' ++ closing inPre) + plainInk b := by
        rw [List.append_assoc, List.append_assoc, plainInk_notBegins hr, plainInk_notBegins hr,
          plainInk_reads ht', plainInk_reads ht', plainInk_closing]
        omega
      refine ⟨⟨[], b, rfl, fun x hx => (List.not_mem_nil hx).elim, hb⟩, hequal.le,
        fun ⟨w, u, v, hword, hu, hv, hsuffix, _⟩ => ?_⟩
      exact (not_across_of_reads hword hu hv ht' (across_of_begins hword hu hv hr rfl hsuffix)).elim
    · -- inside of a word
      have hword' : w.units = u ++ v := hword
      have hparts := word_parts hword' hu hv
      have hmore := ink_parts hword' hu hv inPre
      have hw : Reads words () w.units () := Reads.word_single rfl
      have hwhole : plainInk (r ++ (t'' ++ u) ++ (v ++ b'))
          = inkOf r + (plainInk t'' + (plainInk w.units + plainInk b')) := by
        rw [← plainInk_reads hw, ← plainInk_reads ht', ← plainInk_notBegins hr, hword']
        congr 1
        simp only [List.append_assoc]
      have hless : plainInk (r ++ (t'' ++ u) ++ (v ++ b'))
          < plainInk (r ++ (t'' ++ u) ++ closing inPre) + plainInk (v ++ b') := by
        rw [hwhole, List.append_assoc, List.append_assoc, plainInk_notBegins hr, plainInk_reads ht',
          plainInk_notBegins hparts.2.1]
        omega
      exact ⟨⟨v, b', rfl, hparts.2.1, hb'⟩, hless.le, fun _ => hless⟩

/-! ### all cuts -/

theorem plainInk_chunk {opened inPre : Bool} {content part : List UInt16}
    (h : content.dropWhile isSpace = part.dropWhile isSpace) :
    plainInk (closed inPre (reopened opened ++ content)) = plainInk (part ++ closing inPre) := by
  rw [plainInk, closed_eq, List.append_assoc, htmlToPlain_reopened, ← inkOf_dropWhile,
    dropWhile_htmlToPlain h, inkOf_dropWhile]
  rfl

theorem not_across_blank {a b : List UInt16} (ha : ∀ u ∈ a, isSpace u = true) : ¬ Across a b := by
  rintro ⟨w, u, v, hword, hu, hv, hsuffix, -⟩
  obtain ⟨⟨c, u', rfl, hc⟩, -, -⟩ := word_parts hword hu hv
  exact not_begins_of_isPlain (isPlain_of_isSpace (ha c (hsuffix.subset List.mem_cons_self))) hc

/-- a word across a later place stands across this one, or does not reach it -/
theorem across_cases {a b c : List UInt16} (h : Across (a ++ b) c) : Across b c ∨ Across a (b ++ c) := by
  obtain ⟨w, u, v, hword, hu, hv, hsuffix, hprefix⟩ := h
  rcases List.suffix_or_suffix_of_suffix hsuffix (List.suffix_append a b) with h | ⟨p, rfl⟩
  · exact Or.inl ⟨w, u, v, hword, hu, hv, h, hprefix⟩
  · by_cases hp : p = []
    · subst hp
      exact Or.inl ⟨w, b, v, hword, hu, hv, List.suffix_refl b, hprefix⟩
    · obtain ⟨q, hq⟩ := hsuffix
      rw [← List.append_assoc] at hq
      refine Or.inr ⟨w, p, b ++ v, by rw [hword, List.append_assoc], hp, ?_,
        ⟨q, List.append_cancel_right hq⟩, ?_⟩
      · exact fun h => hv (List.append_eq_nil_iff.mp h).2
      · exact (List.prefix_append_right_inj b).mpr hprefix

/-- the chunks have no less ink than the text, and more where a word of a line is cut -/
theorem Grouped.ink {opened : Bool} {chunks : List (List UInt16)} {items : List (Bool × List UInt16)}
    (h : Grouped opened chunks items) (hrest : Rest (joined newline items)) :
    plainInk (joined newline items) ≤ (chunks.map plainInk).sum ∧
    ∀ before piece after, items = before ++ (false, piece) :: after →
      Across (joined newline before) (joined newline ((false, piece) :: after)) →
      plainInk (joined newline items) < (chunks.map plainInk).sum := by
  induction h with
  | done hblank =>
    refine ⟨?_, fun before piece after heq hacross => ?_⟩
    · rw [plainInk, htmlToPlain_blank hblank, inkOf_blank hblank]
      exact Nat.zero_le _
    · rw [heq, joined_append] at hblank
      exact absurd hacross (not_across_blank fun u hu => hblank u (List.mem_append_left _ hu))
  | @next opened inPre content group items chunks hcontent hgroup _ ih =>
    rw [joined_append] at hrest ⊢
    obtain ⟨hrest', hle, hcut⟩ := cut_ink hrest inPre
    obtain ⟨hchunks, hlater⟩ := ih hrest'
    rw [List.map_cons, List.sum_cons, plainInk_chunk hcontent]
    refine ⟨by omega, fun before piece after heq hacross => ?_⟩
    have hhere : Across (joined newline group) (joined newline items) →
        plainInk (joined newline group ++ joined newline items)
          < plainInk (joined newline group ++ closing inPre) + (chunks.map plainInk).sum := by
      intro hacross
      have hless := hcut hacross
      omega
    rcases List.append_eq_append_iff.mp heq with ⟨before', rfl, hitems⟩ | ⟨group', hgroups, hitems⟩
    · rw [joined_append] at hacross
      rcases across_cases hacross with hacross | hacross
      · have hless := hlater before' piece after hitems hacross
        omega
      · rw [← joined_append, ← hitems] at hacross
        exact hhere hacross
    · cases group' with
      | nil =>
        rw [List.nil_append] at hitems
        rw [List.append_nil] at hgroups
        rw [← hgroups, hitems] at hacross
        exact hhere hacross
      | cons item group' =>
        rw [List.cons_append, List.cons.injEq] at hitems
        obtain ⟨rfl, -⟩ := hitems
        exact absurd hacross (not_across_blank (hgroup before piece group' hgroups))

theorem across_of_inside {broken : Bool} {a b left right : List UInt16}
    (h : Inside newline broken a b left right) (hacross : Across left right) : Across a b := by
  obtain ⟨w, u, v, hword, hu, hv, hsuffix, hprefix⟩ := hacross
  refine ⟨w, u, v, hword, hu, hv, hsuffix.trans ?_, hprefix.trans ?_⟩
  · rcases h.before with ⟨-, rfl⟩ | ⟨a', rfl⟩
    · exact List.suffix_refl _
    · exact (List.suffix_cons newline left).trans (List.suffix_append a' _)
  · rcases h.after with rfl | ⟨b', rfl⟩
    · exact List.prefix_refl _
    · exact List.prefix_append right _

theorem uncut_of_rejoined (hlimit : 0 < limit) (hreads : Reads words () html ())
    (h : Rejoined ((splitForTelegram html limit).map htmlToPlain) (htmlToPlain html)) :
    UncutWords limit html := by
  intro line hline k hpos hk w u v _ hword hu hv hacross
  obtain ⟨before, piece, after, heq, hinside⟩ := placed_of_cut hlimit hline hpos hk
  have hjoined : joined newline (placed newline limit html) = html := joined_placed hlimit html
  have hlong : limit < html.length := by
    have hline := hinside.length_le
    have hmul := Nat.le_mul_of_pos_right limit hpos
    have hplaced : joined newline before ++ joined newline ((false, piece) :: after) = html := by
      rw [← joined_append, ← hjoined, heq]
    rw [← List.length_append, List.take_append_drop, ← List.length_append, hplaced] at hline
    omega
  have hgrouped := splitForTelegram_grouped hlimit hlong
  have hrest : Rest (joined newline (placed newline limit html)) :=
    ⟨[], html, hjoined, fun x hx => (List.not_mem_nil hx).elim, hreads⟩
  have hless := (hgrouped.ink hrest).2 before piece after heq
    (across_of_inside hinside ⟨w, u, v, hword, hu, hv, hacross⟩)
  have hink := h.ink
  rw [List.map_map] at hink
  rw [hjoined] at hless
  exact absurd hink (Nat.ne_of_gt hless)

end

/-- the plain text of the whole, and that of the chunks -/
structure LosesNothing (letter : Nat → Bool) (markdown : JsString) : Prop where
  pieces : ∀ pieces : List Piece,
    htmlToPlain (pieces.flatMap Piece.html) = pieces.flatMap Piece.plain
  chunks : Rejoined
    ((splitForTelegram (markdownToTelegramHtml letter markdown).units telegramChunkLimit).map
      htmlToPlain)
    (htmlToPlain (markdownToTelegramHtml letter markdown).units)

/-- **when nothing is lost**: exactly where no tag and no entity of an over-long line is cut -/
theorem losesNothing_iff (letter : Nat → Bool) (markdown : JsString) :
    LosesNothing letter markdown ↔
      UncutWords telegramChunkLimit (markdownToTelegramHtml letter markdown).units := by
  have hlimit : 0 < telegramChunkLimit := Nat.succ_pos _
  have hreads := rendered_reads letter markdown
  exact ⟨fun h => uncut_of_rejoined hlimit hreads h.chunks,
    fun h => ⟨htmlToPlain_pieces, rejoined_of_uncut hlimit hreads h⟩⟩

/-- the entity of the last unit is cut after its `&` -/
theorem entity_cut : ¬ LosesNothing (fun point => decide (0x61 ≤ point ∧ point ≤ 0x7A))
    ⟨List.replicate 3899 0x61 ++ [ampersand]⟩ := by
  have hletters : ∀ u ∈ List.replicate 3899 (0x61 : UInt16), u = 0x61 :=
    fun u hu => List.eq_of_mem_replicate hu
  have hquiet : ∀ u ∈ List.replicate 3899 0x61 ++ [ampersand], isQuiet u = true := by
    rw [List.forall_mem_append, List.forall_mem_singleton]
    exact ⟨fun u hu => hletters u hu ▸ by decide, by decide⟩
  have hplain : escapeHtml (List.replicate 3899 0x61) = List.replicate 3899 0x61 :=
    escapeHtml_plain fun u hu => hletters u hu ▸ by decide
  have hamp : escapeHtml [ampersand] = [ampersand] ++ (lit "amp;").units := by decide
  have hnewline : newline ∉ List.replicate 3899 0x61 ++ ([ampersand] ++ (lit "amp;").units) := by
    rw [List.mem_append, not_or]
    exact ⟨fun hmem => absurd (hletters _ hmem) (by decide), by decide⟩
  have hlength : (List.replicate 3899 (0x61 : UInt16) ++ [ampersand]).length = telegramChunkLimit := by
    rw [List.length_append, List.length_replicate]
    rfl
  rw [losesNothing_iff, rendered_quiet hquiet, escapeHtml_append, hplain, hamp]
  intro huncut
  have hline := huncut _ (by rw [List.splitOn_eq_singleton hnewline]; exact List.mem_singleton_self _)
    1 Nat.one_pos (by rw [List.length_append, List.length_replicate]; decide)
  rw [Nat.mul_one, ← hlength, ← List.append_assoc, List.take_left, List.drop_left] at hline
  exact hline (.entity .amp) [ampersand] (lit "amp;").units ⟨(), (), rfl⟩ (by decide)
    (by decide) (by decide) ⟨List.suffix_append _ _, List.prefix_refl _⟩

end Telegram
