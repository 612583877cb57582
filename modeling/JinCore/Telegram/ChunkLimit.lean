import JinCore.Telegram.Splitting

/-!
# The chunks of a message and the limit of Telegram

`flush` does nothing where the buffer is blank, and takes a buffer of tags only for a text.

* `SplitsWell`   chunks that Telegram takes, and that give the text;
* `Suits`        a piece, before it is added; `FillsWell`, all of them;
* `length_messages`, `visible_messages`   what comes of the pieces that follow;
* `splitsWell_iff`, `blanks_overflow`.
-/

namespace Telegram
open JsString Regex Cutting

/-- the real limit -/
def telegramLimit : Nat := 4096

/-- there is more to it than blanks and tags -/
def Visible (html : List UInt16) : Prop := ∃ u ∈ withoutTags html, isSpace u = false

structure SplitsWell (html : List UInt16) : Prop where
  short : ∀ chunk ∈ splitForTelegram html telegramChunkLimit, chunk.length ≤ telegramLimit
  visible : ∀ chunk ∈ splitForTelegram html telegramChunkLimit, Visible chunk
  whole : Chunked false (splitForTelegram html telegramChunkLimit) html

/-- the tag that will be put after a buffer, if another piece follows -/
def closingLength (inPre : Bool) (after : List (List UInt16)) : Nat :=
  if inPre && !after.isEmpty then preClosing.length else 0

/-- a piece that comes next, with those after it -/
structure Suits (b : Filling) (piece : List UInt16) (after : List (List UInt16)) : Prop where
  /-- blanks that stay in the buffer leave room for the first piece that is not blank -/
  room : isEmptyTrimmed b.current = true → isEmptyTrimmed piece = false →
    b.current.length + 1 + piece.length + closingLength (inPreAfter b.inPre piece) after
      ≤ telegramLimit
  /-- a buffer that has to go is more than tags -/
  visible : isFull telegramChunkLimit b.current piece = true → isEmptyTrimmed b.current = false →
    Visible (closed b.inPre b.current)

def FillsWell : Filling → List (List UInt16) → Prop
  | b, [] => isEmptyTrimmed b.current = false → Visible b.current
  | b, piece :: pieces => Suits b piece pieces ∧ FillsWell (addPiece telegramChunkLimit b piece) pieces

/-- what the splitter does well -/
def Splittable (html : List UInt16) : Prop :=
  if html.length ≤ telegramChunkLimit then Visible html
  else FillsWell .start (piecesOfLines telegramChunkLimit html)

/-! ## inside of a `<pre>` the buffer is not blank -/

section
variable {inPre : Bool} {current piece : List UInt16} {pieces : List (List UInt16)}

theorem exists_found {pattern : Regex UInt16} {us : List UInt16} (h : 0 < matchCount pattern us) :
    ∃ w groups, Item.found w groups ∈ scan pattern us := by
  obtain ⟨item, hitem, hfound⟩ := List.countP_pos_iff.mp h
  cases item with
  | kept u => cases hfound
  | found w groups => exact ⟨w, groups, hitem⟩

theorem not_blank_of_opens (h : 0 < matchCount preOpens piece) : isEmptyTrimmed piece = false := by
  obtain ⟨w, groups, hfound⟩ := exists_found h
  obtain ⟨before, after, rfl, hspans⟩ := scan_found hfound
  have hmem : (0x3C : UInt16) ∈ w := by
    rcases hspans with hspans | hspans <;> rw [(spans_literal hspans).1] <;> decide
  rw [Bool.eq_false_iff]
  intro hblank
  have hspace := isEmptyTrimmed_iff.mp hblank 0x3C
    (List.mem_append_right _ (List.mem_append_left _ hmem))
  revert hspace
  decide

theorem not_blank_of_inPreAfter (hpre : inPre = true → isEmptyTrimmed current = false)
    (h : inPreAfter inPre piece = true) :
    isEmptyTrimmed current = false ∨ isEmptyTrimmed piece = false := by
  rw [inPreAfter] at h
  split at h
  next => cases h
  next =>
    split at h
    next hopens => exact Or.inr (not_blank_of_opens (Nat.lt_of_le_of_lt (Nat.zero_le _) hopens))
    next => exact Or.inl (hpre h)

theorem inPre_appended (hpre : inPre = true → isEmptyTrimmed current = false)
    (h : inPreAfter inPre piece = true) : isEmptyTrimmed (appended current piece) = false := by
  rw [isEmptyTrimmed_appended]
  rcases not_blank_of_inPreAfter hpre h with h | h
  · rw [h, Bool.false_and]
  · rw [h, Bool.and_false]

theorem not_blank_reopened (h : inPre = true) : isEmptyTrimmed (reopened inPre) = false := by
  rw [h]
  exact not_isEmptyTrimmed_pre

/-! ## the length of a chunk -/

theorem length_appended (current piece : List UInt16) :
    (appended current piece).length ≤ current.length + 1 + piece.length ∧
      (current ≠ [] → (appended current piece).length = current.length + 1 + piece.length) := by
  by_cases h : current = []
  · subst h
    rw [appended_nil]
    exact ⟨Nat.le_add_left _ _, fun h => absurd rfl h⟩
  · have hlength : (appended current piece).length = current.length + 1 + piece.length := by
      rw [appended_of_ne h, List.length_append, List.length_cons]
      omega
    exact ⟨hlength.le, fun _ => hlength⟩

theorem length_preClosing : preClosing.length = 6 := by decide

theorem length_reopened (inPre : Bool) : (reopened inPre).length ≤ 5 := by
  cases inPre <;> decide

theorem closingLength_le (inPre : Bool) (after : List (List UInt16)) :
    closingLength inPre after ≤ 6 := by
  rw [closingLength, length_preClosing]
  split <;> omega

theorem length_closed (inPre : Bool) (current piece : List UInt16) (after : List (List UInt16)) :
    (closed inPre current).length = current.length + closingLength inPre (piece :: after) := by
  cases inPre with
  | false => rfl
  | true => exact List.length_append

/-- the buffer, when it goes -/
def Short (current : List UInt16) (inPre : Bool) (after : List (List UInt16)) : Prop :=
  isEmptyTrimmed current = false → current.length + closingLength inPre after ≤ telegramLimit

theorem short_of_le (h : current.length ≤ 4090) : Short current inPre pieces := by
  intro _
  have hclosing := closingLength_le inPre pieces
  rw [telegramLimit]
  omega

/-! ## one piece -/

/-- a piece that fits beside what is in the buffer -/
theorem short_appended (hpre : inPre = true → isEmptyTrimmed current = false)
    (hpiece : piece.length ≤ telegramChunkLimit)
    (hkept : (isFull telegramChunkLimit current piece && !isEmptyTrimmed current) = false) :
    Short (appended current piece) (inPreAfter inPre piece) pieces ↔
      Short current inPre (piece :: pieces) ∧ (isEmptyTrimmed current = true →
        isEmptyTrimmed piece = false → current.length + 1 + piece.length
          + closingLength (inPreAfter inPre piece) pieces ≤ telegramLimit) := by
  obtain ⟨hle, heq⟩ := length_appended current piece
  cases hblank : isEmptyTrimmed current with
  | false =>
    rw [hblank, Bool.not_false, Bool.and_true, isFull, decide_eq_false_iff_not, telegramChunkLimit]
      at hkept
    refine iff_of_true (short_of_le (by omega)) ⟨short_of_le (by omega), fun h => nomatch h⟩
  | true =>
    have hcurrent : Short current inPre (piece :: pieces) := by
      intro h
      rw [hblank] at h
      cases h
    rw [Short, isEmptyTrimmed_appended, hblank, Bool.true_and]
    by_cases hnil : current = []
    · -- one piece alone is short enough
      have hclosing := closingLength_le (inPreAfter inPre piece) pieces
      rw [telegramChunkLimit] at hpiece
      rw [hnil, List.length_nil, Nat.zero_add] at hle
      rw [telegramLimit]
      refine iff_of_true (fun _ => ?_) ⟨hcurrent, fun _ _ => ?_⟩
      · rw [hnil]
        omega
      · rw [hnil, List.length_nil]
        omega
    · rw [heq hnil]
      exact ⟨fun h => ⟨hcurrent, fun _ => h⟩, fun h => h.2 rfl⟩

theorem short_reopened (hpiece : piece.length ≤ telegramChunkLimit) :
    Short (appended (reopened inPre) piece) (inPreAfter inPre piece) pieces := by
  have hle := (length_appended (reopened inPre) piece).1
  have hpre := length_reopened inPre
  rw [telegramChunkLimit] at hpiece
  exact short_of_le (by omega)

end

/-! ## all pieces -/

theorem messages_good {pieces : List (List UInt16)}
    (hpieces : ∀ piece ∈ pieces, piece.length ≤ telegramChunkLimit) (b : Filling)
    (hpre : b.inPre = true → isEmptyTrimmed b.current = false) :
    (∀ chunk ∈ messages telegramChunkLimit b.current b.inPre pieces,
        chunk.length ≤ telegramLimit ∧ Visible chunk) ↔
      Short b.current b.inPre pieces ∧ FillsWell b pieces := by
  induction pieces generalizing b with
  | nil =>
    have hclosing : closingLength b.inPre [] = 0 := by
      rw [closingLength, List.isEmpty_nil, Bool.not_true, Bool.and_false]
      rfl
    rw [messages, FillsWell, Short, hclosing, Nat.add_zero]
    cases isEmptyTrimmed b.current with
    | true => simp
    | false => simp
  | cons piece pieces ih =>
    have hpiece := hpieces piece List.mem_cons_self
    have hrest : ∀ piece ∈ pieces, piece.length ≤ telegramChunkLimit := fun p hp =>
      hpieces p (List.mem_cons_of_mem piece hp)
    rw [messages, FillsWell, addPiece_eq]
    split
    next hpush =>
      -- the buffer goes, and a new one begins with the piece
      obtain ⟨hfull, hblank⟩ := (Bool.and_eq_true _ _).mp hpush
      rw [Bool.not_eq_true'] at hblank
      have hsuits : Suits b piece pieces ↔ Visible (closed b.inPre b.current) := by
        refine ⟨fun h => h.visible hfull hblank, fun h => ⟨fun hempty => ?_, fun _ _ => h⟩⟩
        rw [hblank] at hempty
        cases hempty
      have hshort : Short b.current b.inPre (piece :: pieces) ↔
          (closed b.inPre b.current).length ≤ telegramLimit := by
        rw [length_closed b.inPre b.current piece pieces]
        exact ⟨fun h => h hblank, fun h _ => h⟩
      have hnext := ih hrest ⟨b.chunks ++ [closed b.inPre b.current],
        appended (reopened b.inPre) piece, inPreAfter b.inPre piece⟩
        (inPre_appended not_blank_reopened)
      rw [List.forall_mem_cons, hsuits, hshort, hnext, and_iff_right (short_reopened hpiece), and_assoc]
    next hpush =>
      have hkept := Bool.eq_false_iff.mpr hpush
      have hsuits : Suits b piece pieces ↔ (isEmptyTrimmed b.current = true →
          isEmptyTrimmed piece = false → b.current.length + 1 + piece.length
            + closingLength (inPreAfter b.inPre piece) pieces ≤ telegramLimit) := by
        refine ⟨fun h => h.room, fun h => ⟨h, fun hfull hblank => ?_⟩⟩
        rw [hfull, hblank] at hkept
        cases hkept
      have hnext := ih hrest ⟨b.chunks, appended b.current piece, inPreAfter b.inPre piece⟩
        (inPre_appended hpre)
      rw [hnext, short_appended hpre hpiece hkept, hsuits, and_assoc]

/-- **when the chunks are good**: they are exactly where the text goes through the loop well -/
theorem splitsWell_iff (html : List UInt16) : SplitsWell html ↔ Splittable html := by
  have hgood : SplitsWell html ↔ ∀ chunk ∈ splitForTelegram html telegramChunkLimit,
      chunk.length ≤ telegramLimit ∧ Visible chunk := by
    refine ⟨fun h chunk hchunk => ⟨h.short chunk hchunk, h.visible chunk hchunk⟩, fun h => ?_⟩
    exact ⟨fun chunk hchunk => (h chunk hchunk).1, fun chunk hchunk => (h chunk hchunk).2,
      splitForTelegram_chunked (Nat.succ_pos _) html⟩
  rw [hgood, Splittable]
  split
  next hshort =>
    rw [splitForTelegram, if_pos hshort, List.forall_mem_singleton]
    refine and_iff_right (Nat.le_trans hshort ?_)
    decide
  next hlong =>
    have hpieces : ∀ piece ∈ piecesOfLines telegramChunkLimit html,
        piece.length ≤ telegramChunkLimit := by
      intro piece hpiece
      obtain ⟨line, -, hline⟩ := List.mem_flatMap.mp hpiece
      exact length_le_of_mem_piecesOf hline
    have hmessages := messages_good hpieces .start (by
      intro hpre
      cases hpre)
    rw [splitForTelegram_long (Nat.lt_of_not_le hlong)]
    refine hmessages.trans (and_iff_right ?_)
    intro hkept
    cases hkept

/-- three thousand blanks and a long line make one chunk -/
theorem blanks_overflow : ¬ SplitsWell
    (List.replicate 3000 0x20 ++ newline :: List.replicate 3900 0x61) := by
  intro h
  have hchunk : ∃ chunk ∈ splitForTelegram
      (List.replicate 3000 0x20 ++ newline :: List.replicate 3900 0x61) telegramChunkLimit,
      telegramLimit < chunk.length := by
    decide +kernel
  obtain ⟨chunk, hmem, hlong⟩ := hchunk
  exact absurd (h.short chunk hmem) (Nat.not_le_of_lt hlong)

end Telegram
