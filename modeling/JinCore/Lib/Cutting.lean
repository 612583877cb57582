import Mathlib.Data.List.Chain
import Mathlib.Tactic.Ring

/-!
# A text cut into pieces

* `cutEvery n l`   the pieces of `n` symbols, the last of which may be shorter;
* `piecesOf n l`   a line that is too long is cut, any other is one piece;
* `placed sep n l` the pieces of the lines of a text, each with whether a separator stands before it;
* `joined`         the text of such pieces; `joined_placed`;
* `placed_full`    a piece that is followed by one of the same line has `n` symbols;
* `Inside`         a place inside of a line; `placed_cut`, `placed_of_cut`, where lines are cut.
-/

namespace Cutting
variable {α : Type*}

/-- the first argument bounds the number of pieces -/
def cutFrom (n : Nat) : Nat → List α → List (List α)
  | 0, _ => []
  | _ + 1, [] => []
  | fuel + 1, c :: l => (c :: l).take n :: cutFrom n fuel ((c :: l).drop n)

def cutEvery (n : Nat) (l : List α) : List (List α) := cutFrom n l.length l

def piecesOf (n : Nat) (line : List α) : List (List α) :=
  if n < line.length then cutEvery n line else [line]

/-! ## one line -/

section
variable {n : Nat} {line : List α}

theorem flatten_cutFrom (hn : 0 < n) (fuel : Nat) (l : List α) (hl : l.length ≤ fuel) :
    (cutFrom n fuel l).flatten = l := by
  induction fuel generalizing l with
  | zero =>
    rw [List.length_eq_zero_iff.mp (Nat.le_zero.mp hl)]
    rfl
  | succ fuel ih =>
    cases l with
    | nil => rfl
    | cons c l =>
      have hdrop : ((c :: l).drop n).length ≤ fuel := by
        rw [List.length_drop]
        omega
      rw [cutFrom, List.flatten_cons, ih _ hdrop, List.take_append_drop]

theorem length_le_of_mem_cutFrom {fuel : Nat} {l piece : List α} (h : piece ∈ cutFrom n fuel l) :
    piece.length ≤ n := by
  induction fuel generalizing l with
  | zero => cases h
  | succ fuel ih =>
    cases l with
    | nil => cases h
    | cons c l =>
      rcases List.mem_cons.mp h with rfl | h
      · rw [List.length_take]
        exact Nat.min_le_left _ _
      · exact ih h

/-- a piece that is not the last has `n` symbols -/
theorem length_of_cutFrom (hn : 0 < n) {fuel : Nat} {l : List α} (hl : l.length ≤ fuel)
    {before after : List (List α)} (h : cutFrom n fuel l = before ++ after) (hafter : after ≠ []) :
    before.flatten.length = n * before.length ∧ n * before.length < l.length := by
  induction fuel generalizing l before with
  | zero => exact absurd (List.append_eq_nil_iff.mp h.symm).2 hafter
  | succ fuel ih =>
    cases l with
    | nil => exact absurd (List.append_eq_nil_iff.mp h.symm).2 hafter
    | cons c l =>
      cases before with
      | nil => exact ⟨rfl, by rw [List.length_nil, Nat.mul_zero]; exact Nat.succ_pos _⟩
      | cons piece before =>
        rw [cutFrom, List.cons_append, List.cons.injEq] at h
        obtain ⟨rfl, h⟩ := h
        have hdrop : ((c :: l).drop n).length ≤ fuel := by
          rw [List.length_drop]
          omega
        obtain ⟨hlength, hlt⟩ := ih hdrop h
        rw [List.length_drop, List.length_cons] at hlt
        have hle : n ≤ l.length + 1 := by
          have hpos := Nat.lt_of_le_of_lt (Nat.zero_le _) hlt
          omega
        refine ⟨?_, ?_⟩
        · rw [List.flatten_cons, List.length_append, hlength, List.length_take, List.length_cons,
            List.length_cons, Nat.mul_succ, Nat.min_eq_left hle]
          omega
        · rw [List.length_cons, List.length_cons, Nat.mul_succ]
          omega

theorem flatten_piecesOf (hn : 0 < n) (line : List α) : (piecesOf n line).flatten = line := by
  rw [piecesOf]
  split
  · exact flatten_cutFrom hn _ _ (Nat.le_refl _)
  · exact List.append_nil line

theorem length_le_of_mem_piecesOf {piece : List α} (h : piece ∈ piecesOf n line) :
    piece.length ≤ n := by
  rw [piecesOf] at h
  split at h
  next => exact length_le_of_mem_cutFrom h
  next hle =>
    rw [List.mem_singleton.mp h]
    exact Nat.le_of_not_lt hle

theorem piecesOf_ne_nil (hn : 0 < n) (line : List α) : piecesOf n line ≠ [] := by
  rw [piecesOf]
  split
  next hlt =>
    intro h
    have hflat := flatten_cutFrom hn line.length line (Nat.le_refl _)
    rw [cutEvery] at h
    rw [h, List.flatten_nil] at hflat
    rw [← hflat] at hlt
    exact absurd hlt (Nat.not_lt_zero n)
  next => exact List.cons_ne_nil _ _

/-- a line is cut after a multiple of `n` symbols -/
theorem piecesOf_cut (hn : 0 < n) {before after : List (List α)}
    (h : piecesOf n line = before ++ after) (hbefore : before ≠ []) (hafter : after ≠ []) :
    ∃ k, 0 < k ∧ n * k < line.length ∧ before.flatten = line.take (n * k) ∧
      after.flatten = line.drop (n * k) := by
  have hflat := flatten_piecesOf hn line
  rw [h, List.flatten_append] at hflat
  rw [piecesOf] at h
  split at h
  next =>
    obtain ⟨hlength, hlt⟩ := length_of_cutFrom hn (Nat.le_refl _) h hafter
    refine ⟨before.length, List.length_pos_iff.mpr hbefore, hlt, ?_, ?_⟩
    · rw [← hlength, ← hflat, List.take_left]
    · rw [← hlength, ← hflat, List.drop_left]
  next =>
    have hlengths := congrArg List.length h
    have hbefore := List.length_pos_iff.mpr hbefore
    have hafter := List.length_pos_iff.mpr hafter
    rw [List.length_append, List.length_singleton] at hlengths
    omega

/-- and at each of them -/
theorem cutFrom_of_cut (hn : 0 < n) {fuel : Nat} {l : List α} (hl : l.length ≤ fuel) {k : Nat}
    (hk : n * k < l.length) : ∃ before after, cutFrom n fuel l = before ++ after ∧
      before.length = k ∧ after ≠ [] := by
  induction k generalizing fuel l with
  | zero =>
    refine ⟨[], cutFrom n fuel l, rfl, rfl, fun h => ?_⟩
    have hflat := flatten_cutFrom hn fuel l hl
    rw [h, List.flatten_nil] at hflat
    rw [← hflat] at hk
    exact absurd hk (Nat.not_lt_zero _)
  | succ k ih =>
    cases l with
    | nil => exact absurd hk (Nat.not_lt_zero _)
    | cons c l =>
      cases fuel with
      | zero => exact absurd hl (Nat.not_succ_le_zero _)
      | succ fuel =>
        have hdrop : ((c :: l).drop n).length ≤ fuel := by
          rw [List.length_drop]
          omega
        have hlt : n * k < ((c :: l).drop n).length := by
          rw [Nat.mul_succ] at hk
          rw [List.length_drop]
          omega
        obtain ⟨before, after, hcut, hlength, hafter⟩ := ih hdrop hlt
        exact ⟨(c :: l).take n :: before, after, by rw [cutFrom, hcut, List.cons_append],
          by rw [List.length_cons, hlength], hafter⟩

theorem piecesOf_of_cut (hn : 0 < n) {k : Nat} (hpos : 0 < k) (hk : n * k < line.length) :
    ∃ before after, piecesOf n line = before ++ after ∧ before ≠ [] ∧ after ≠ [] ∧
      before.flatten = line.take (n * k) ∧ after.flatten = line.drop (n * k) := by
  have hlong : n < line.length := by
    refine Nat.lt_of_le_of_lt ?_ hk
    exact Nat.le_mul_of_pos_right n hpos
  obtain ⟨before, after, hcut, hlength, hafter⟩ := cutFrom_of_cut hn (Nat.le_refl _) hk
  have hpieces : piecesOf n line = before ++ after := by
    rw [piecesOf, if_pos hlong, cutEvery, hcut]
  have hbefore : before ≠ [] := by
    intro h
    rw [h, List.length_nil] at hlength
    omega
  have hflat := flatten_piecesOf hn line
  rw [hpieces, List.flatten_append] at hflat
  obtain ⟨hsize, -⟩ := length_of_cutFrom hn (Nat.le_refl _) hcut hafter
  rw [hlength] at hsize
  refine ⟨before, after, hpieces, hbefore, hafter, ?_, ?_⟩
  · rw [← hsize, ← hflat, List.take_left]
  · rw [← hsize, ← hflat, List.drop_left]

end

/-! ## the lines of a text -/

/-- the pieces of a line, of which the first stands after a separator if `broken` -/
def placeLine (n : Nat) (broken : Bool) (line : List α) : List (Bool × List α) :=
  match piecesOf n line with
  | [] => []
  | piece :: pieces => (broken, piece) :: pieces.map (Prod.mk false)

def placeLines (n : Nat) : Bool → List (List α) → List (Bool × List α)
  | _, [] => []
  | broken, line :: lines => placeLine n broken line ++ placeLines n true lines

def placed [BEq α] (sep : α) (n : Nat) (text : List α) : List (Bool × List α) :=
  placeLines n false (text.splitOn sep)

/-- a piece with what stands before it -/
def spelled (sep : α) (item : Bool × List α) : List α :=
  if item.1 then sep :: item.2 else item.2

def joined (sep : α) (items : List (Bool × List α)) : List α := items.flatMap (spelled sep)

/-- the text is `u`, the two sides of a place inside of a line, and `v` -/
structure Inside (sep : α) (broken : Bool) (a b left right : List α) : Prop where
  before : (broken = false ∧ a = left) ∨ ∃ u, a = u ++ sep :: left
  after : b = right ∨ ∃ v, b = right ++ sep :: v

section
variable {n : Nat} {sep : α} {broken : Bool} {line : List α}

theorem joined_cons (item : Bool × List α) (items : List (Bool × List α)) :
    joined sep (item :: items) = spelled sep item ++ joined sep items := rfl

theorem joined_append (a b : List (Bool × List α)) :
    joined sep (a ++ b) = joined sep a ++ joined sep b := List.flatMap_append

theorem joined_unbroken (pieces : List (List α)) :
    joined sep (pieces.map (Prod.mk false)) = pieces.flatten := by
  induction pieces with
  | nil => rfl
  | cons piece pieces ih =>
    rw [List.map_cons, joined_cons, ih, List.flatten_cons]
    rfl

theorem spelled_pair (broken : Bool) (piece : List α) :
    spelled sep (broken, piece) = (if broken then [sep] else []) ++ piece := by
  cases broken <;> rfl

theorem placeLine_eq (hn : 0 < n) (broken : Bool) (line : List α) : ∃ piece pieces,
    piecesOf n line = piece :: pieces ∧
      placeLine n broken line = (broken, piece) :: pieces.map (Prod.mk false) := by
  obtain ⟨piece, pieces, hpieces⟩ := List.exists_cons_of_ne_nil (piecesOf_ne_nil hn line)
  exact ⟨piece, pieces, hpieces, by rw [placeLine, hpieces]⟩

theorem joined_placeLine (hn : 0 < n) (broken : Bool) (line : List α) :
    joined sep (placeLine n broken line) = (if broken then [sep] else []) ++ line := by
  obtain ⟨piece, pieces, hpieces, hplace⟩ := placeLine_eq hn broken line
  have hflat := flatten_piecesOf hn line
  rw [hpieces, List.flatten_cons] at hflat
  rw [hplace, joined_cons, joined_unbroken, spelled_pair, List.append_assoc, hflat]

theorem map_placeLine (broken : Bool) (line : List α) :
    (placeLine n broken line).map Prod.snd = piecesOf n line := by
  rw [placeLine]
  cases piecesOf n line with
  | nil => rfl
  | cons piece pieces => simp

theorem map_placeLines (broken : Bool) (lines : List (List α)) :
    (placeLines n broken lines).map Prod.snd = lines.flatMap (piecesOf n) := by
  induction lines generalizing broken with
  | nil => rfl
  | cons line lines ih =>
    rw [placeLines, List.map_append, map_placeLine, ih, List.flatMap_cons]

theorem joined_placeLines (hn : 0 < n) (line : List α) (lines : List (List α)) :
    joined sep (placeLines n broken (line :: lines))
      = (if broken then [sep] else []) ++ [sep].intercalate (line :: lines) := by
  induction lines generalizing broken line with
  | nil =>
    rw [placeLines, joined_append, joined_placeLine hn, List.intercalate_singleton]
    exact List.append_nil _
  | cons next lines ih =>
    rw [placeLines, joined_append, joined_placeLine hn, ih, List.intercalate_cons_cons,
      List.append_assoc, List.append_assoc]
    rfl

section
variable [BEq α] [LawfulBEq α]

theorem joined_placed (hn : 0 < n) (text : List α) : joined sep (placed sep n text) = text := by
  have hlines : [sep].intercalate (text.splitOn sep) = text := List.intercalate_splitOn sep
  rw [placed]
  obtain ⟨line, lines, hsplit⟩ := List.exists_cons_of_ne_nil (List.splitOn_ne_nil sep text)
  rw [hsplit] at hlines ⊢
  rw [joined_placeLines hn, hlines]
  rfl

omit [LawfulBEq α] in
theorem map_placed (text : List α) :
    (placed sep n text).map Prod.snd = (text.splitOn sep).flatMap (piecesOf n) :=
  map_placeLines false _

end

/-! ### full pieces -/

theorem cutFrom_full (fuel : Nat) (l : List α) :
    (cutFrom n fuel l).IsChain fun piece _ => piece.length = n := by
  induction fuel generalizing l with
  | zero => exact .nil
  | succ fuel ih =>
    cases l with
    | nil => exact .nil
    | cons c l =>
      rw [cutFrom, List.isChain_cons]
      refine ⟨fun piece hpiece => ?_, ih _⟩
      rw [List.length_take]
      by_cases hle : n ≤ (c :: l).length
      · exact Nat.min_eq_left hle
      · -- nothing is left for another piece
        rw [List.drop_eq_nil_of_le (Nat.le_of_not_le hle)] at hpiece
        cases fuel <;> cases hpiece

theorem placeLine_full (broken : Bool) (line : List α) :
    (placeLine n broken line).IsChain fun i j => j.1 = false → i.2.length = n := by
  have hpieces : (piecesOf n line).IsChain fun piece _ => piece.length = n := by
    rw [piecesOf]
    split
    · exact cutFrom_full _ _
    · exact .singleton _
  rw [placeLine]
  cases h : piecesOf n line with
  | nil => exact .nil
  | cons piece pieces =>
    rw [h, List.isChain_cons] at hpieces
    refine List.isChain_cons.mpr ⟨fun item hitem _ => ?_, ?_⟩
    · rw [List.head?_map] at hitem
      obtain ⟨next, hnext, -⟩ := Option.map_eq_some_iff.mp hitem
      exact hpieces.1 next hnext
    · exact (List.isChain_map _).mpr (hpieces.2.imp fun _ _ h _ => h)

theorem placeLines_full (hn : 0 < n) (lines : List (List α)) :
    (placeLines n broken lines).IsChain fun i j => j.1 = false → i.2.length = n := by
  induction lines generalizing broken with
  | nil => exact .nil
  | cons line lines ih =>
    rw [placeLines]
    refine (placeLine_full broken line).append ih fun i _ j hj hfalse => ?_
    cases lines with
    | nil => cases hj
    | cons next lines =>
      obtain ⟨piece, pieces, -, hnext⟩ := placeLine_eq hn true next
      rw [placeLines, hnext] at hj
      cases hj
      cases hfalse

theorem placed_full [BEq α] (hn : 0 < n) (text : List α) :
    (placed sep n text).IsChain fun i j => j.1 = false → i.2.length = n := placeLines_full hn _

/-! ### where a line is cut -/

theorem joined_placeLines_after (sep : α) (hn : 0 < n) (lines : List (List α)) :
    joined sep (placeLines n true lines) = [] ∨ ∃ v, joined sep (placeLines n true lines) = sep :: v := by
  cases lines with
  | nil => exact Or.inl rfl
  | cons line lines =>
    rw [joined_placeLines hn]
    exact Or.inr ⟨_, rfl⟩

/-- a cut of a line, seen from the text -/
theorem Inside.of_line (hn : 0 < n) (lines : List (List α)) {a b left right : List α}
    (ha : a = (if broken then [sep] else []) ++ left)
    (hb : b = right ++ joined sep (placeLines n true lines)) :
    Inside sep broken a b left right := by
  constructor
  · cases broken with
    | false => exact Or.inl ⟨rfl, ha⟩
    | true => exact Or.inr ⟨[], ha⟩
  · rcases joined_placeLines_after sep hn lines with hnil | ⟨v, hv⟩
    · rw [hnil, List.append_nil] at hb
      exact Or.inl hb
    · rw [hv] at hb
      exact Or.inr ⟨v, hb⟩

theorem Inside.length_le {a b left right : List α} (h : Inside sep broken a b left right) :
    left.length + right.length ≤ a.length + b.length := by
  refine Nat.add_le_add ?_ ?_
  · rcases h.before with ⟨-, rfl⟩ | ⟨u, rfl⟩
    · exact Nat.le_refl _
    · rw [List.length_append, List.length_cons]
      omega
  · rcases h.after with rfl | ⟨v, rfl⟩
    · exact Nat.le_refl _
    · rw [List.length_append]
      omega

theorem Inside.after_line {a b left right : List α} (h : Inside sep true a b left right)
    (text : List α) : Inside sep broken (text ++ a) b left right where
  before := by
    obtain ⟨hfalse, -⟩ | ⟨u, rfl⟩ := h.before
    · cases hfalse
    · exact Or.inr ⟨text ++ u, by rw [List.append_assoc]⟩
  after := h.after

/-- a piece without a separator before it stands inside of a line -/
theorem placeLines_cut (hn : 0 < n) {lines : List (List α)} {before after : List (Bool × List α)}
    {piece : List α} (h : placeLines n broken lines = before ++ (false, piece) :: after)
    (hbefore : broken = false → before ≠ []) : ∃ line ∈ lines, ∃ k, 0 < k ∧ n * k < line.length ∧
      Inside sep broken (joined sep before) (joined sep ((false, piece) :: after))
        (line.take (n * k)) (line.drop (n * k)) := by
  induction lines generalizing broken before with
  | nil => exact absurd (List.append_eq_nil_iff.mp h.symm).2 (List.cons_ne_nil _ _)
  | cons line lines ih =>
    rw [placeLines] at h
    rcases List.append_eq_append_iff.mp h with ⟨before', rfl, hrest⟩ | ⟨after', hline, hafter⟩
    · -- the place is in a later line
      obtain ⟨line', hline', k, hpos, hk, hinside⟩ := ih hrest (fun h => nomatch h)
      refine ⟨line', List.mem_cons_of_mem _ hline', k, hpos, hk, ?_⟩
      rw [joined_append]
      exact hinside.after_line _
    · obtain ⟨first, pieces, hpieces, hplace⟩ := placeLine_eq hn broken line
      cases after' with
      | nil =>
        -- the line ends here, so a separator stands before what follows
        rw [List.nil_append] at hafter
        cases lines with
        | nil => cases hafter
        | cons next lines =>
          obtain ⟨piece', pieces', -, hnext⟩ := placeLine_eq hn true next
          rw [placeLines, hnext, List.cons_append, List.cons.injEq] at hafter
          cases hafter.1
      | cons item after' =>
        rw [List.cons_append, List.cons.injEq] at hafter
        obtain ⟨rfl, rfl⟩ := hafter
        rw [hplace] at hline
        cases before with
        | nil =>
          rw [List.nil_append, List.cons.injEq] at hline
          cases hline.1
          exact absurd rfl (hbefore rfl)
        | cons item before =>
          rw [List.cons_append, List.cons.injEq] at hline
          obtain ⟨rfl, hmap⟩ := hline
          obtain ⟨left, right, rfl, rfl, hright⟩ := List.map_eq_append_iff.mp hmap
          obtain ⟨piece', right, rfl, hpiece, rfl⟩ := List.map_eq_cons_iff.mp hright
          cases hpiece
          have hcut : piecesOf n line = (first :: left) ++ piece :: right := hpieces
          obtain ⟨k, hpos, hk, hleft, hright⟩ :=
            piecesOf_cut hn hcut (List.cons_ne_nil _ _) (List.cons_ne_nil _ _)
          refine ⟨line, List.mem_cons_self, k, hpos, hk, Inside.of_line hn lines ?_ ?_⟩
          · rw [joined_cons, joined_unbroken, spelled_pair, List.append_assoc, ← hleft,
              List.flatten_cons]
          · rw [joined_cons, joined_append, joined_unbroken, ← List.append_assoc, ← hright,
              List.flatten_cons]
            rfl

/-- and every such place of a line is one -/
theorem placeLines_of_cut (hn : 0 < n) {lines : List (List α)} (hline : line ∈ lines) {k : Nat}
    (hpos : 0 < k) (hk : n * k < line.length) : ∃ before piece after,
      placeLines n broken lines = before ++ (false, piece) :: after ∧ before ≠ [] ∧
      Inside sep broken (joined sep before) (joined sep ((false, piece) :: after))
        (line.take (n * k)) (line.drop (n * k)) := by
  induction lines generalizing broken with
  | nil => cases hline
  | cons next lines ih =>
    rcases List.mem_cons.mp hline with rfl | hline
    · obtain ⟨left, right, hcut, hleft, hright, htake, hdrop⟩ := piecesOf_of_cut hn hpos hk
      obtain ⟨first, left, rfl⟩ := List.exists_cons_of_ne_nil hleft
      obtain ⟨piece, right, rfl⟩ := List.exists_cons_of_ne_nil hright
      refine ⟨(broken, first) :: left.map (Prod.mk false), piece,
        right.map (Prod.mk false) ++ placeLines n true lines, ?_, List.cons_ne_nil _ _,
        Inside.of_line hn lines ?_ ?_⟩
      · rw [placeLines, placeLine, hcut]
        simp
      · rw [joined_cons, joined_unbroken, spelled_pair, List.append_assoc, ← htake,
          List.flatten_cons]
      · rw [joined_cons, joined_append, joined_unbroken, ← List.append_assoc, ← hdrop,
          List.flatten_cons]
        rfl
    · obtain ⟨before, piece, after, heq, hne, hinside⟩ := @ih true hline
      refine ⟨placeLine n broken next ++ before, piece, after, ?_, ?_, ?_⟩
      · rw [placeLines, heq, List.append_assoc]
      · exact fun h => hne (List.append_eq_nil_iff.mp h).2
      · rw [joined_append]
        exact hinside.after_line _

theorem placed_cut [BEq α] (hn : 0 < n) {text piece : List α} {before after : List (Bool × List α)}
    (h : placed sep n text = before ++ (false, piece) :: after) (hbefore : before ≠ []) :
    ∃ line ∈ text.splitOn sep, ∃ k, 0 < k ∧ n * k < line.length ∧
      Inside sep false (joined sep before) (joined sep ((false, piece) :: after))
        (line.take (n * k)) (line.drop (n * k)) := placeLines_cut hn h fun _ => hbefore

theorem placed_of_cut [BEq α] (hn : 0 < n) {text : List α} (hline : line ∈ text.splitOn sep) {k : Nat}
    (hpos : 0 < k) (hk : n * k < line.length) : ∃ before piece after,
      placed sep n text = before ++ (false, piece) :: after ∧
      Inside sep false (joined sep before) (joined sep ((false, piece) :: after))
        (line.take (n * k)) (line.drop (n * k)) := by
  obtain ⟨before, piece, after, heq, -, hinside⟩ := placeLines_of_cut hn hline hpos hk
  exact ⟨before, piece, after, heq, hinside⟩

end

end Cutting
