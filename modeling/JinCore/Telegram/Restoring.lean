import JinCore.Telegram.Markers
import Mathlib.Data.List.Nodup

/-!
# Code is put back

The passes that take code out run one after the other, over text that may have markers; what they take
out is put back in one pass.

* `Fragment`, `fragments`   what a text with markers becomes: units, and blocks in the place of markers;
* `Restored`          no mark is left, and each block is shown once;
* `Separate`          no table has a fence in it, and no inline code a fence or a table;
* `Accounted`, `accounted_stash`   each number stands once, in the text or in a block;
* `restored_iff`, `fence_lost`.
-/

namespace Telegram
open JsString Regex Reading

/-! ## what is put back -/

inductive Fragment where
  | unit (u : UInt16)
  | block (index : Nat)
  deriving DecidableEq

def Fragment.units (protectedBlocks : List (List UInt16)) : Fragment → List UInt16
  | .unit u => [u]
  | .block index => (protectedBlocks[index]?).getD []

def fragmentOf : Item UInt16 → Fragment
  | .kept u => .unit u
  | .found _ groups => .block (numberOf (groups 1))

def fragments (us : List UInt16) : List Fragment := (scan marker us).map fragmentOf

theorem restore_fragments (protectedBlocks : List (List UInt16)) (us : List UInt16) :
    restore protectedBlocks us = (fragments us).flatMap (Fragment.units protectedBlocks) := by
  rw [restore, replace, fragments, List.flatMap_map]
  congr 1
  funext item
  cases item <;> rfl

/-- the fragments of a message -/
def shown (letter : Nat → Bool) (markdown : JsString) : List Fragment :=
  fragments (emphasis letter (lineMarkup (protectCode markdown.units).1))

structure Restored (letter : Nat → Bool) (markdown : JsString) : Prop where
  clean : ∀ u ∈ (markdownToTelegramHtml letter markdown).units, u ≠ openMark ∧ u ≠ closeMark
  whole : (markdownToTelegramHtml letter markdown).units
    = (shown letter markdown).flatMap (Fragment.units (protectCode markdown.units).2)
  once : ∀ index < (protectCode markdown.units).2.length,
    (shown letter markdown).count (.block index) = 1
  escaped : ∀ block ∈ (protectCode markdown.units).2, IsCode block

/-! ## the passes -/

def withoutFences (us : List UInt16) : List UInt16 × List (List UInt16) :=
  stashItems (fun _ groups => fencedHtml groups) [] (scan codeFence (prepared us))

def withoutTables (us : List UInt16) : List UInt16 × List (List UInt16) :=
  stashItems (fun w _ => tableHtml w) (withoutFences us).2 (scan table (withoutFences us).1)

theorem protectCode_eq (us : List UInt16) : protectCode us
    = stashItems (fun _ groups => inlineHtml groups) (withoutTables us).2
        (scan inlineCode (withoutTables us).1) := rfl

structure Separate (us : List UInt16) : Prop where
  tables : ∀ w groups, .found w groups ∈ scan table (withoutFences us).1 → openMark ∉ w
  inline : ∀ w groups, .found w groups ∈ scan inlineCode (withoutTables us).1 → openMark ∉ groups 1

/-! ## the markers that are found -/

section
variable {us : List UInt16} {is : List Nat}

theorem exec_marker (before us : List UInt16) (index : Nat) : ∃ groups,
    exec marker before (markerOf index ++ us) = some (markerOf index, groups) ∧
      groups 1 = indexUnits index := by
  obtain ⟨c, digits, hdigits⟩ := List.exists_cons_of_ne_nil (indexUnits_ne_nil index)
  have hclass : ∀ d ∈ c :: digits, isDigit d = true := hdigits ▸ isDigit_indexUnits index
  have hstop : (closeMark :: us).head?.all (fun d => !isDigit d) = true := by
    rw [List.head?_cons, Option.all_some]
    decide
  have htext : markerOf index ++ us = openMark :: ((c :: digits) ++ closeMark :: us) := by
    rw [markerOf_eq, hdigits, List.cons_append, List.append_assoc, List.singleton_append]
  have hrun : (run marker ⟨before, openMark :: ((c :: digits) ++ closeMark :: us), fun _ => []⟩
      some).isSome = true := by
    have hend : ∀ before groups, run (cat [one fun u => decide (u = closeMark)])
        ⟨before, closeMark :: us, groups⟩ some = some ⟨closeMark :: before, us, groups⟩ := by
      intro before groups
      rw [cat, run, run_one, if_pos (by decide)]
      rfl
    rw [marker, cat, run, run_one, if_pos (by decide), cat, run, run]
    exact Option.isSome_iff_exists.mpr ⟨_, run_some₁_class hclass hstop (hend _ _)⟩
  have hexec : (exec marker before (markerOf index ++ us)).isSome = true := by
    rw [htext, exec, Option.isSome_map]
    exact hrun
  obtain ⟨⟨w, groups⟩, hfound⟩ := Option.isSome_iff_exists.mp hexec
  obtain ⟨after, hafter, hspans⟩ := exec_spans hfound
  obtain ⟨hw, hall⟩ := marker_spans hspans
  have hgroup : groups 1 = indexUnits index := by
    rw [markerOf_eq, hw, List.cons_append, List.cons_append] at hafter
    have htail := (List.cons.inj hafter).2
    rw [List.append_assoc, List.append_assoc, List.singleton_append, List.singleton_append] at htail
    have htake := congrArg (List.takeWhile isDigit) htail
    rw [takeWhile_indexUnits, List.takeWhile_append_of_pos hall, List.takeWhile_cons, isDigit_marks.2,
      if_neg Bool.false_ne_true, List.append_nil] at htake
    exact htake.symm
  refine ⟨groups, ?_, hgroup⟩
  rw [hfound, hw, hgroup, markerOf_eq]

theorem exec_marker_none (before : List UInt16) (h : ∀ rest, us ≠ openMark :: rest) :
    exec marker before us = none := by
  rw [Option.eq_none_iff_forall_ne_some]
  rintro ⟨w, groups⟩ hexec
  obtain ⟨after, rfl, hspans⟩ := exec_spans hexec
  rw [(marker_spans hspans).1, List.cons_append] at h
  exact h _ rfl

/-- each marker gives its block, and the rest has no mark -/
theorem fragments_marked (h : Marked us is) :
    (∀ index, (fragments us).count (.block index) = is.count index) ∧
      ∀ u, .unit u ∈ fragments us → u ≠ openMark ∧ u ≠ closeMark := by
  have hall : ∀ {s us s'}, Reads coming s us s' → s' = [] → ∀ before,
      (∀ index, ((scanFrom marker 0 before us).map fragmentOf).count (.block index) = s.count index) ∧
        ∀ u, .unit u ∈ (scanFrom marker 0 before us).map fragmentOf → u ≠ openMark ∧ u ≠ closeMark := by
    intro s us s' h
    induction h with
    | nil s =>
      rintro rfl before
      rw [scanFrom, exec_marker_none before fun _ => (List.cons_ne_nil _ _).symm]
      exact ⟨fun _ => rfl, fun u hu => (List.not_mem_nil hu).elim⟩
    | @plain u s s' us hu _ ih =>
      intro hs before
      obtain ⟨hcount, hunits⟩ := ih hs (u :: before)
      have hscan : scanFrom marker 0 before (u :: us) = .kept u :: scanFrom marker 0 (u :: before) us := by
        rw [scanFrom, exec_marker_none before fun _ h => hu.1 (List.cons.inj h).1]
      rw [hscan]
      refine ⟨fun index => ?_, fun v hv => ?_⟩
      · rw [← hcount index]
        exact List.count_cons_of_ne Fragment.noConfusion
      · rcases List.mem_cons.mp hv with hv | hv
        · cases hv
          exact hu
        · exact hunits v hv
    | @word next s s₁ s' us hmove _ ih =>
      intro hs before
      obtain ⟨groups, hexec, hgroup⟩ := exec_marker before us next
      have hscan : scanFrom marker 0 before (markerOf next ++ us) = .found (markerOf next) groups ::
          scanFrom marker 0 ((indexUnits next ++ [closeMark]).reverse ++ openMark :: before) us := by
        rw [← scanFrom_skip]
        rw [markerOf_eq, List.cons_append] at hexec ⊢
        rw [scanFrom, hexec]
      obtain ⟨hcount, hunits⟩ := ih hs ((indexUnits next ++ [closeMark]).reverse ++ openMark :: before)
      show (∀ index, ((scanFrom marker 0 before (markerOf next ++ us)).map fragmentOf).count (.block index)
        = s.count index) ∧ ∀ u, .unit u ∈ (scanFrom marker 0 before (markerOf next ++ us)).map fragmentOf → _
      rw [hscan, List.map_cons, fragmentOf, hgroup, numberOf_indexUnits, coming_move.mp hmove]
      refine ⟨fun index => ?_, fun v hv => ?_⟩
      · rw [List.count_cons, List.count_cons, hcount index]
        congr 1
        simp
      · rcases List.mem_cons.mp hv with hv | hv
        · cases hv
        · exact hunits v hv
  exact hall h rfl []

/-! ## what is taken out -/

/-- a pattern covers whole markers, and what is put aside has those of the match -/
def Whole (r : Regex UInt16) (html : List UInt16 → (Nat → List UInt16) → List UInt16)
    (is : List Nat) : Prop :=
  ∀ before p w q g js, Spans r before w q (fun _ => []) g → js <:+ is → Marked (p ++ (w ++ q)) js →
    Apart coming p (w ++ q) ∧ Apart coming w q ∧ ∀ ks, Marked w ks → Marked (html w g) ks

theorem stashItems_kept (html : List UInt16 → (Nat → List UInt16) → List UInt16)
    (blocks : List (List UInt16)) (p : List UInt16) (items : List (Item UInt16)) :
    stashItems html blocks (p.map .kept ++ items)
      = (p ++ (stashItems html blocks items).1, (stashItems html blocks items).2) := by
  induction p with
  | nil => rfl
  | cons u p ih =>
    rw [List.map_cons, List.cons_append, stashItems, ih]
    rfl

/-- the numbers of a text go to the text and to the new blocks, with the numbers of these -/
theorem stashItems_marked {r : Regex UInt16}
    {html : List UInt16 → (Nat → List UInt16) → List UInt16} (hr : Whole r html is)
    {before after : List UInt16} {items : List (Item UInt16)} (h : Segments r before after items)
    {js : List Nat} (hjs : js <:+ is) (hafter : Marked after js) (blocks : List (List UInt16)) :
    ∃ ks new inside, Marked (stashItems html blocks items).1 ks ∧
      (stashItems html blocks items).2 = blocks ++ new ∧ List.Forall₂ Marked new inside ∧
      ∀ index, (js ++ List.range' blocks.length new.length).count index
        = (ks ++ inside.flatten).count index := by
  induction h generalizing js blocks with
  | last before p =>
    have hstash : stashItems html blocks (p.map .kept) = (p, blocks) := by
      rw [← List.append_nil (p.map Item.kept), stashItems_kept, stashItems, List.append_nil]
    rw [hstash]
    exact ⟨js, [], [], hafter, (List.append_nil blocks).symm, .nil, fun _ => rfl⟩
  | @found before after items p w g hspans _ ih =>
    obtain ⟨hbefore, hbehind, hhtml⟩ := hr _ p w after g js hspans hjs hafter
    obtain ⟨b, hp, hrest⟩ := Reads.cut hbefore hafter
    obtain ⟨c, hw, hlast⟩ := hrest.cut hbehind
    obtain ⟨inFront, rfl, hfront⟩ := coming_iff.mp hp
    obtain ⟨inMatch, rfl, hmatch⟩ := coming_iff.mp hw
    have hsuffix : c <:+ is := ((List.suffix_append inMatch c).trans
      (List.suffix_append inFront (inMatch ++ c))).trans hjs
    obtain ⟨ks, new, inside, hks, hblocks, hinside, hcount⟩ := ih hsuffix hlast (blocks ++ [html w g])
    refine ⟨inFront ++ blocks.length :: ks, html w g :: new, inMatch :: inside, ?_, ?_,
      .cons (hhtml inMatch hmatch) hinside, fun index => ?_⟩
    · rw [stashItems_kept]
      exact hfront.append ((marked_markerOf blocks.length).append hks)
    · rw [stashItems_kept]
      show (stashItems html (blocks ++ [html w g]) items).2 = _
      rw [hblocks, List.append_assoc, List.singleton_append]
    · have hrange : List.range' blocks.length (html w g :: new).length
          = blocks.length :: List.range' (blocks ++ [html w g]).length new.length := by
        rw [List.length_cons, List.range'_succ, List.length_append, List.length_singleton]
      have hnext := hcount index
      rw [hrange]
      simp only [List.count_append, List.count_cons, List.flatten_cons] at hnext ⊢
      omega

/-- each number stands once, in the text or in a block -/
def Accounted (us : List UInt16) (blocks : List (List UInt16)) : Prop :=
  ∃ is inside, Marked us is ∧ List.Forall₂ Marked blocks inside ∧
    (is ++ inside.flatten).Perm (List.range blocks.length)

theorem Accounted.nodup {blocks : List (List UInt16)} (h : Accounted us blocks) {is : List Nat}
    (his : Marked us is) : is.Nodup := by
  obtain ⟨js, inside, hjs, -, hperm⟩ := h
  rw [his.unique hjs] at hperm
  exact (List.nodup_append.mp (hperm.nodup_iff.mpr List.nodup_range)).1

theorem accounted_stash {r : Regex UInt16}
    {html : List UInt16 → (Nat → List UInt16) → List UInt16} {blocks : List (List UInt16)}
    (h : Accounted us blocks) (hr : ∀ is, Marked us is → Whole r html is) :
    Accounted (stashItems html blocks (scan r us)).1 (stashItems html blocks (scan r us)).2 := by
  obtain ⟨is, inside, his, hinside, hperm⟩ := h
  obtain ⟨ks, new, inNew, hks, hblocks, hnew, hcount⟩ := stashItems_marked (hr is his)
    (scanned r us).segments (List.suffix_refl is) his blocks
  refine ⟨ks, inside ++ inNew, hks, ?_, ?_⟩
  · rw [hblocks]
    exact List.rel_append hinside hnew
  · rw [hblocks, List.length_append, List.perm_iff_count]
    intro index
    have hold := hperm.count_eq index
    have hnext := hcount index
    have hrange : List.range (blocks.length + new.length)
        = List.range blocks.length ++ List.range' blocks.length new.length := by
      rw [List.range_eq_range', List.range_eq_range', ← List.range'_append_1, Nat.zero_add]
    rw [hrange]
    simp only [List.count_append, List.flatten_append] at hold hnext ⊢
    omega

/-! ## the three passes -/

/-- the units of a text without marks are of no marker, whatever they stand beside -/
theorem apart_of_notMem {a b : List UInt16} (h : openMark ∉ a) : Apart coming a b := by
  rintro index u v - hword hu - ⟨hsuffix, -⟩
  obtain ⟨c, u, rfl⟩ := List.exists_cons_of_ne_nil hu
  have hcons : openMark :: (indexUnits index ++ [closeMark]) = c :: (u ++ v) := hword
  exact h (hsuffix.subset ((List.cons.inj hcons).1 ▸ List.mem_cons_self))

theorem marked_dropFinalNewline (h : Marked us is) : Marked (dropFinalNewline us) is := by
  rw [dropFinalNewline]
  split
  next hlast =>
    have hnewline : Foreign coming [newline] := foreign_of_unmarked (by decide)
    have hparts : us = us.dropLast ++ [newline] := by
      obtain ⟨ys, hys⟩ := List.getLast?_eq_some_iff.mp hlast
      rw [hys, List.dropLast_concat]
    rw [hparts, ← List.append_nil [newline]] at h
    obtain ⟨m, hinit, h⟩ := Reads.cut (hnewline.apart_before (List.cons_ne_nil _ _)) h
    obtain ⟨-, hnil⟩ := h.cut_foreign hnewline
    rw [← hnil.nil_inv] at hinit
    exact hinit
  next => exact h

theorem whole_fences : Whole codeFence (fun _ groups => fencedHtml groups) [] := by
  intro before p w q g js hspans hjs hmarked
  obtain rfl := List.suffix_nil.mp hjs
  have hplain := marked_nil_iff.mp hmarked
  have hw : ∀ u ∈ w, u ≠ openMark ∧ u ≠ closeMark := fun u hu =>
    hplain u (List.mem_append_right p (List.mem_append_left q hu))
  refine ⟨apart_of_notMem fun h => (hplain _ (List.mem_append_left _ h)).1 rfl,
    apart_of_notMem fun h => (hw _ h).1 rfl, fun ks hks => ?_⟩
  obtain rfl := hks.unique (marked_of_unmarked hw)
  obtain ⟨hlanguage, hcode⟩ := codeFence_spans hspans
  have hbody : Marked (escapeHtml (dropFinalNewline (g 2))) [] :=
    marked_escapeHtml (marked_dropFinalNewline (marked_of_unmarked fun u hu => hw u (hcode.subset hu)))
  show Marked (fencedHtml g) []
  rw [fencedHtml]
  split
  · exact marked_element .pre hbody
  · have hopen : isLanguageUnit openMark = false := by decide
    have hclose : isLanguageUnit closeMark = false := by decide
    have hname : Marked (g 1) [] := by
      refine marked_of_unmarked fun u hu => ?_
      have hu := List.all_eq_true.mp hlanguage u hu
      refine ⟨?_, ?_⟩ <;> rintro rfl
      · rw [hopen] at hu
        cases hu
      · rw [hclose] at hu
        cases hu
    have hlit : ∀ {t : String}, (∀ u ∈ (lit t).units, isUnmarked u = true) → Marked (lit t).units [] :=
      fun h => reads_lit h []
    exact (hlit (by decide)).append ((marked_escapeHtml hname).append
      ((hlit (by decide)).append (hbody.append (hlit (by decide)))))

/-- begins and ends with units of no marker -/
structure Sealed (w : List UInt16) : Prop where
  front : ∃ a b, w = a ++ b ∧ a ≠ [] ∧ Foreign coming a
  back : ∃ a b, w = a ++ b ∧ b ≠ [] ∧ Foreign coming b

theorem Sealed.append {v w : List UInt16} (hv : Sealed v) (hw : Sealed w) : Sealed (v ++ w) := by
  obtain ⟨a, b, rfl, ha⟩ := hv.front
  obtain ⟨c, d, rfl, hd⟩ := hw.back
  exact ⟨⟨a, b ++ (c ++ d), List.append_assoc .., ha⟩, ⟨(a ++ b) ++ c, d, (List.append_assoc ..).symm, hd⟩⟩

theorem Sealed.apart {w : List UInt16} (h : Sealed w) (p q : List UInt16) :
    Apart coming p (w ++ q) ∧ Apart coming w q := by
  constructor
  · obtain ⟨a, b, rfl, hne, ha⟩ := h.front
    rw [List.append_assoc]
    exact ha.apart_before hne
  · obtain ⟨a, b, rfl, hne, hb⟩ := h.back
    exact hb.apart_behind hne

theorem table_sealed {before w after : List UInt16} {g g' : Nat → List UInt16}
    (h : Spans table before w after g g') : Sealed w := by
  have hbar : Foreign coming (lit "|").units := foreign_lit (by decide)
  have hrow : ∀ {before w after g g'}, Spans (cat [lineStart, text "|", many isDot, text "|",
      many isInlineSpace, .alt (one (isUnit '\n')) lineEnd]) before w after g g' → Sealed w := by
    rintro before w after g g' ⟨_, w₀, g₁, rfl, ⟨rfl, -, rfl⟩, d, w₁, g₂, rfl, hd, dots, w₂, g₃, rfl,
      -, d', w₃, g₄, rfl, hd', sp, w₄, g₅, rfl, hsp, nl, w₅, g₆, rfl, hnl, rfl, rfl⟩
    obtain ⟨rfl, -⟩ := spans_text hd
    obtain ⟨rfl, -⟩ := spans_text hd'
    have hspaces : Foreign coming sp := foreign_of_unmarked fun u hu =>
      isUnmarked_of_isSpace ((Bool.and_eq_true _ _).mp ((spans_class hsp).1 u hu)).1
    have hnewline : Foreign coming nl := by
      rcases hnl with hnl | ⟨rfl, -, -⟩
      · rw [(spans_isUnit hnl).1]
        exact foreign_of_unmarked (by decide)
      · exact fun u hu => (List.not_mem_nil hu).elim
    refine ⟨⟨(lit "|").units, dots ++ ((lit "|").units ++ (sp ++ nl)), ?_, by decide, hbar⟩,
      ⟨(lit "|").units ++ dots, (lit "|").units ++ (sp ++ nl), ?_,
        List.append_ne_nil_of_left_ne_nil (by decide) _, hbar.append (hspaces.append hnewline)⟩⟩
    · rw [List.nil_append, List.append_nil]
    · rw [List.nil_append, List.append_nil, List.append_assoc]
  have hrows : ∀ (n : Nat) {before w after g g'}, Rounds (Spans (cat [lineStart, text "|", many isDot,
      text "|", many isInlineSpace, .alt (one (isUnit '\n')) lineEnd])) (n + 1) before w after g g' →
      Sealed w := by
    intro n
    induction n with
    | zero =>
      rintro before w after g g' ⟨u, v, g₁, rfl, hfirst, rfl, -⟩
      rw [List.append_nil]
      exact hrow hfirst
    | succ n ih =>
      rintro before w after g g' ⟨u, v, g₁, rfl, hfirst, hrest⟩
      exact (hrow hfirst).append (ih hrest)
  obtain ⟨n, hn, -, hrounds⟩ := h
  obtain ⟨n, rfl⟩ := Nat.exists_eq_add_of_le' hn
  exact hrows n hrounds

theorem whole_tables : Whole table (fun w _ => tableHtml w) is := by
  intro before p w q g js hspans _ _
  obtain ⟨hbefore, hbehind⟩ := (table_sealed hspans).apart p q
  exact ⟨hbefore, hbehind, fun ks hks =>
    marked_element .pre (marked_escapeHtml (marked_dropFinalNewline hks))⟩

theorem whole_inline : Whole inlineCode (fun _ groups => inlineHtml groups) is := by
  intro before p w q g js hspans _ _
  have htick : Foreign coming (lit "`").units := foreign_lit (by decide)
  have hne : (lit "`").units ≠ [] := by decide
  obtain rfl := inlineCode_spans hspans
  have hsealed : Sealed ((lit "`").units ++ (g 1 ++ (lit "`").units)) :=
    ⟨⟨_, _, rfl, hne, htick⟩, ⟨(lit "`").units ++ g 1, _, (List.append_assoc ..).symm, hne, htick⟩⟩
  obtain ⟨hbefore, hbehind⟩ := hsealed.apart p q
  refine ⟨hbefore, hbehind, fun ks hks => ?_⟩
  have hks : Reads coming ks ([] ++ ((lit "`").units ++ (g 1 ++ ((lit "`").units ++ [])))) [] := by
    rw [List.nil_append, List.append_nil]
    exact hks
  obtain ⟨b, c, hnil, -, hbody, -, hend⟩ := Reads.cut_around hne htick htick (htick.apart_before hne) hks
  rw [hnil.nil_inv, ← hend.nil_inv] at hbody
  exact marked_element .code (marked_escapeHtml hbody)

theorem marked_prepared (us : List UInt16) : Marked (prepared us) [] :=
  marked_of_unmarked fun _ hu => of_decide_eq_true (List.mem_filter.mp hu).2

theorem accounted_protectCode (us : List UInt16) : Accounted (protectCode us).1 (protectCode us).2 := by
  have hprepared : Accounted (prepared us) [] := ⟨[], [], marked_prepared us, .nil, .nil⟩
  have hfences : Accounted (withoutFences us).1 (withoutFences us).2 := by
    refine accounted_stash hprepared fun is his => ?_
    rw [← his.unique (marked_prepared us)]
    exact whole_fences
  have htables : Accounted (withoutTables us).1 (withoutTables us).2 :=
    accounted_stash hfences fun _ _ => whole_tables
  exact accounted_stash htables fun _ _ => whole_inline

/-! ## blocks with a mark -/

theorem mem_stashItems {html : List UInt16 → (Nat → List UInt16) → List UInt16}
    {blocks : List (List UInt16)} {items : List (Item UInt16)} {block : List UInt16} :
    block ∈ (stashItems html blocks items).2 ↔
      block ∈ blocks ∨ ∃ w g, .found w g ∈ items ∧ html w g = block := by
  induction items generalizing blocks with
  | nil =>
    refine ⟨Or.inl, fun h => h.resolve_right ?_⟩
    rintro ⟨w, g, hmem, -⟩
    cases hmem
  | cons item items ih =>
    cases item with
    | kept u =>
      refine ih.trans (or_congr_right (exists₂_congr fun w g => and_congr_left fun _ => ?_))
      rw [List.mem_cons, or_iff_right (fun h => nomatch h)]
    | found v f =>
      refine ih.trans ?_
      show (block ∈ blocks ++ [html v f] ∨ _) ↔ _
      rw [List.mem_append, List.mem_singleton, or_assoc]
      refine or_congr_right ⟨?_, ?_⟩
      · rintro (rfl | ⟨w, g, hmem, rfl⟩)
        · exact ⟨v, f, List.mem_cons_self, rfl⟩
        · exact ⟨w, g, List.mem_cons_of_mem _ hmem, rfl⟩
      · rintro ⟨w, g, hmem, rfl⟩
        rcases List.mem_cons.mp hmem with heq | hmem
        · cases heq
          exact Or.inl rfl
        · exact Or.inr ⟨w, g, hmem, rfl⟩

theorem openMark_mem_escapeHtml : openMark ∈ escapeHtml us ↔ openMark ∈ us := by
  induction us with
  | nil => exact Iff.rfl
  | cons u us ih =>
    have hsingle : openMark ∈ escapeHtml [u] ↔ openMark = u := by
      have hentity : ∀ e : Entity, openMark ∉ e.units := fun e => by cases e <;> decide
      rw [escapeHtml_single]
      split
      next h => exact iff_of_false (hentity .amp) (h ▸ by decide)
      split
      next h => exact iff_of_false (hentity .lt) (h ▸ by decide)
      split
      next h => exact iff_of_false (hentity .gt) (h ▸ by decide)
      next => exact List.mem_singleton
    rw [← List.singleton_append, escapeHtml_append, List.mem_append, ih, hsingle, List.mem_append,
      List.mem_singleton]

theorem openMark_mem_element (name : TagName) :
    openMark ∈ element name.text (escapeHtml us) ↔ openMark ∈ us := by
  have htags : openMark ∉ (Tag.opening name).units ∧ openMark ∉ (Tag.closing name).units := by
    cases name <;> decide
  show openMark ∈ (Tag.opening name).units ++ (escapeHtml us ++ (Tag.closing name).units) ↔ _
  rw [List.mem_append, List.mem_append, or_iff_right htags.1, or_iff_left htags.2,
    openMark_mem_escapeHtml]

theorem openMark_mem_dropFinalNewline : openMark ∈ dropFinalNewline us ↔ openMark ∈ us := by
  rw [dropFinalNewline]
  split
  next hlast =>
    obtain ⟨ys, rfl⟩ := List.getLast?_eq_some_iff.mp hlast
    have hne : openMark ∉ [newline] := by decide
    rw [List.dropLast_concat, List.mem_append, or_iff_left hne]
  next => exact Iff.rfl

theorem openMark_notMem_fence {block : List UInt16} {markdown : List UInt16}
    (h : block ∈ (withoutFences markdown).2) : openMark ∉ block := by
  obtain ⟨w, g, hmem, rfl⟩ := (mem_stashItems.mp h).resolve_left (List.not_mem_nil)
  obtain ⟨p, q, hparts, hspans⟩ := scan_found hmem
  have hmarked := marked_prepared markdown
  rw [hparts] at hmarked
  have hplain := marked_nil_iff.mp hmarked
  have hw : Marked w [] := marked_of_unmarked fun u hu =>
    hplain u (List.mem_append_right p (List.mem_append_left q hu))
  obtain ⟨-, -, hhtml⟩ := whole_fences _ p w q g [] hspans (List.suffix_refl _) hmarked
  exact fun hopen => (hhtml [] hw).openMark_iff.mp hopen rfl

theorem separate_iff (markdown : List UInt16) :
    Separate markdown ↔ ∀ block ∈ (protectCode markdown).2, openMark ∉ block := by
  rw [protectCode_eq]
  constructor
  · rintro ⟨htables, hinline⟩ block hblock
    rcases mem_stashItems.mp hblock with hblock | ⟨w, g, hmem, rfl⟩
    · rcases mem_stashItems.mp hblock with hblock | ⟨w, g, hmem, rfl⟩
      · exact openMark_notMem_fence hblock
      · have hnot := htables w g hmem
        rw [← openMark_mem_dropFinalNewline] at hnot
        exact fun h => hnot ((openMark_mem_element .pre).mp h)
    · exact fun h => hinline w g hmem ((openMark_mem_element .code).mp h)
  · intro hblocks
    refine ⟨fun w g hmem => ?_, fun w g hmem => ?_⟩
    · have hblock : tableHtml w ∈ (withoutTables markdown).2 :=
        mem_stashItems.mpr (Or.inr ⟨w, g, hmem, rfl⟩)
      rw [← openMark_mem_dropFinalNewline]
      exact fun h => hblocks _ (mem_stashItems.mpr (Or.inl hblock)) ((openMark_mem_element .pre).mpr h)
    · have hblock : inlineHtml g ∈ (protectCode markdown).2 :=
        mem_stashItems.mpr (Or.inr ⟨w, g, hmem, rfl⟩)
      exact fun h => hblocks _ hblock ((openMark_mem_element .code).mpr h)

/-- no block has a mark if and only if no number stands in a block -/
theorem flatten_nil_iff {blocks : List (List UInt16)} {inside : List (List Nat)}
    (h : List.Forall₂ Marked blocks inside) :
    inside.flatten = [] ↔ ∀ block ∈ blocks, openMark ∉ block := by
  induction h with
  | nil => exact iff_of_true rfl fun _ h => (List.not_mem_nil h).elim
  | cons hblock _ ih =>
    rw [List.flatten_cons, List.append_eq_nil_iff, ih, List.forall_mem_cons, hblock.openMark_iff,
      not_not]

theorem marked_of_flatten_nil {blocks : List (List UInt16)} {inside : List (List Nat)}
    (h : List.Forall₂ Marked blocks inside) (hnil : inside.flatten = []) :
    ∀ block ∈ blocks, Marked block [] := by
  induction h with
  | nil => exact fun _ h => (List.not_mem_nil h).elim
  | cons hblock _ ih =>
    rw [List.flatten_cons, List.append_eq_nil_iff] at hnil
    rw [hnil.1] at hblock
    exact List.forall_mem_cons.mpr ⟨hblock, ih hnil.2⟩

theorem units_of_marked {blocks : List (List UInt16)} (h : ∀ block ∈ blocks, Marked block [])
    (index : Nat) : ∀ u ∈ Fragment.units blocks (.block index), u ≠ openMark ∧ u ≠ closeMark := by
  intro u hu
  rw [Fragment.units] at hu
  cases hblock : blocks[index]? with
  | none =>
    rw [hblock] at hu
    cases hu
  | some block =>
    rw [hblock] at hu
    exact marked_nil_iff.mp (h block (List.mem_of_getElem? hblock)) u hu

end

/-- **Code is put back** whole and once exactly where no table has a fence in one of its rows, and no
inline code has a fence or a table between its backticks. -/
theorem restored_iff (letter : Nat → Bool) (markdown : JsString) :
    Restored letter markdown ↔ Separate markdown.units := by
  obtain ⟨is, inside, his, hinside, hperm⟩ := accounted_protectCode markdown.units
  have hnodup := (accounted_protectCode markdown.units).nodup his
  obtain ⟨hcount, hunits⟩ := fragments_marked (marked_emphasis letter (marked_lineMarkup hnodup his))
  have hwhole : (markdownToTelegramHtml letter markdown).units
      = (shown letter markdown).flatMap (Fragment.units (protectCode markdown.units).2) := by
    rw [markdownToTelegramHtml_units]
    exact restore_fragments ..
  have hsum : ∀ index, (shown letter markdown).count (.block index) + inside.flatten.count index
      = (List.range (protectCode markdown.units).2.length).count index := by
    intro index
    have hshown : (shown letter markdown).count (.block index) = is.count index := hcount index
    rw [hshown, ← hperm.count_eq index, List.count_append]
  rw [separate_iff, ← flatten_nil_iff hinside]
  constructor
  · intro h
    rw [List.eq_nil_iff_forall_not_mem]
    intro index hmem
    have hrange : index ∈ List.range (protectCode markdown.units).2.length :=
      hperm.subset (List.mem_append_right is hmem)
    have hone := hsum index
    rw [h.once index (List.mem_range.mp hrange), List.count_eq_one_of_mem List.nodup_range hrange] at hone
    have hpos := List.count_pos_iff.mpr hmem
    omega
  · intro hnil
    refine ⟨?_, hwhole, fun index hindex => ?_, protectCode_isCode markdown.units⟩
    · rw [hwhole]
      intro u hu
      obtain ⟨fragment, hfragment, hu⟩ := List.mem_flatMap.mp hu
      cases fragment with
      | unit v =>
        rw [Fragment.units, List.mem_singleton] at hu
        exact hu ▸ hunits v hfragment
      | block index => exact units_of_marked (marked_of_flatten_nil hinside hnil) index u hu
    · have hone := hsum index
      rw [hnil, List.count_nil, Nat.add_zero] at hone
      rw [hone]
      exact List.count_eq_one_of_mem List.nodup_range (List.mem_range.mpr hindex)

/-- a fence in a row of a table is not put back -/
theorem fence_lost : ¬ Restored (fun _ => true) (lit "|```a```|") := by
  intro h
  have hmark : openMark ∈ (markdownToTelegramHtml (fun _ => true) (lit "|```a```|")).units := by
    decide
  exact (h.clean openMark hmark).1 rfl

end Telegram
