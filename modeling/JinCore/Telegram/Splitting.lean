import JinCore.Lib.Cutting
import JinCore.Telegram.Format

/-!
# A message in chunks (`src/telegram/telegram-format.ts`)

* `Filling`, `flush`, `addPiece`   the loop over the pieces of the lines;
* `splitForTelegram`, `htmlToPlain`   the chunks, and the plain text of one;
* `messages`, `chunks_fill`   the chunks that are still to come;
* `Chunked`        chunks that give a text, up to the tags at the cuts and to blanks after them;
* `Grouped`        chunks of which each has a group of the pieces; `messages_grouped`;
* `splitForTelegram_chunked`.
-/

namespace Telegram
open JsString Regex Occurrences Cutting

def telegramChunkLimit : Nat := 3900

/-! ## the loop -/

/-- `text.trim().length === 0` -/
def isEmptyTrimmed (us : List UInt16) : Bool := decide ((Blanks.trim isSpace us).length = 0)

def preOpening : List UInt16 := (lit "<pre>").units
def preClosing : List UInt16 := (lit "</pre>").units

structure Filling where
  chunks : List (List UInt16)
  current : List UInt16
  inPre : Bool

def closed (inPre : Bool) (current : List UInt16) : List UInt16 :=
  if inPre then current ++ preClosing else current

def reopened (inPre : Bool) : List UInt16 := if inPre then preOpening else []

def flush (b : Filling) : Filling :=
  if isEmptyTrimmed b.current then b
  else { b with chunks := b.chunks ++ [closed b.inPre b.current], current := reopened b.inPre }

/-- `/<pre>|<pre /g` -/
def preOpens : Regex UInt16 := .alt (text "<pre>") (text "<pre ")

/-- `/<\/pre>/g` -/
def preCloses : Regex UInt16 := text "</pre>"

/-- `(us.match(pattern) ?? []).length` -/
def matchCount (pattern : Regex UInt16) (us : List UInt16) : Nat :=
  (scan pattern us).countP fun
    | .found _ _ => true
    | .kept _ => false

/-- whether what follows a piece is inside of a `<pre>` -/
def inPreAfter (inPre : Bool) (piece : List UInt16) : Bool :=
  let opens := matchCount preOpens piece
  let closes := matchCount preCloses piece
  if closes > opens then false else if opens > closes then true else inPre

/-- `current += (current.length > 0 ? '\n' : '') + piece` -/
def appended (current piece : List UInt16) : List UInt16 :=
  current ++ ((if current.length > 0 then [newline] else []) ++ piece)

def isFull (limit : Nat) (current piece : List UInt16) : Bool :=
  decide (current.length + piece.length + 1 > limit)

def addPiece (limit : Nat) (b : Filling) (piece : List UInt16) : Filling :=
  let b := if isFull limit b.current piece then flush b else b
  { b with current := appended b.current piece, inPre := inPreAfter b.inPre piece }

def Filling.start : Filling := ⟨[], [], false⟩

/-- the chunks at the end -/
def Filling.finish (b : Filling) : List (List UInt16) :=
  if isEmptyTrimmed b.current then b.chunks else b.chunks ++ [b.current]

/-- the pieces of all lines -/
def piecesOfLines (limit : Nat) (html : List UInt16) : List (List UInt16) :=
  (html.splitOn newline).flatMap (piecesOf limit)

def fill (limit : Nat) (pieces : List (List UInt16)) : Filling :=
  pieces.foldl (addPiece limit) .start

def splitForTelegram (html : List UInt16) (limit : Nat) : List (List UInt16) :=
  if html.length ≤ limit then [html] else (fill limit (piecesOfLines limit html)).finish

/-! ## plain text -/

/-- `/<[^>]+>/g` -/
def anyTag : Regex UInt16 := cat [text "<", some₁ fun u => !isUnit '>' u, text ">"]

def withoutTags (html : List UInt16) : List UInt16 := replace anyTag (fun _ _ => []) html

def htmlToPlain (html : List UInt16) : List UInt16 :=
  replaceAll "&amp;" "&" (replaceAll "&gt;" ">" (replaceAll "&lt;" "<" (withoutTags html)))

/-! ## the buffer -/

theorem isEmptyTrimmed_iff {us : List UInt16} :
    isEmptyTrimmed us = true ↔ ∀ u ∈ us, isSpace u = true := by
  rw [isEmptyTrimmed, decide_eq_true_iff, List.length_eq_zero_iff, Blanks.trim_eq_nil_iff]

theorem isEmptyTrimmed_append {us vs : List UInt16} :
    isEmptyTrimmed (us ++ vs) = (isEmptyTrimmed us && isEmptyTrimmed vs) := by
  rw [Bool.eq_iff_iff, Bool.and_eq_true, isEmptyTrimmed_iff, isEmptyTrimmed_iff, isEmptyTrimmed_iff]
  exact List.forall_mem_append

theorem isSpace_newline : isSpace newline = true := by decide

theorem not_isEmptyTrimmed_pre : isEmptyTrimmed preOpening = false := by decide

theorem appended_nil (piece : List UInt16) : appended [] piece = piece := rfl

theorem appended_of_ne {current : List UInt16} (h : current ≠ []) (piece : List UInt16) :
    appended current piece = current ++ newline :: piece := by
  rw [appended, if_pos (List.length_pos_iff.mpr h)]
  rfl

theorem isEmptyTrimmed_appended (current piece : List UInt16) :
    isEmptyTrimmed (appended current piece) = (isEmptyTrimmed current && isEmptyTrimmed piece) := by
  have hbreak : isEmptyTrimmed (if current.length > 0 then [newline] else []) = true := by
    split
    · exact isEmptyTrimmed_iff.mpr fun u hu => List.mem_singleton.mp hu ▸ isSpace_newline
    · rfl
  rw [appended, isEmptyTrimmed_append, isEmptyTrimmed_append, hbreak, Bool.true_and]

/-! ## the chunks that are still to come -/

section
variable (limit : Nat)

/-- the chunks of the pieces that follow -/
def messages : List UInt16 → Bool → List (List UInt16) → List (List UInt16)
  | current, _, [] => if isEmptyTrimmed current then [] else [current]
  | current, inPre, piece :: pieces =>
    if isFull limit current piece && !isEmptyTrimmed current then
      closed inPre current ::
        messages (appended (reopened inPre) piece) (inPreAfter inPre piece) pieces
    else messages (appended current piece) (inPreAfter inPre piece) pieces

variable {limit}

/-- a piece goes into the buffer, or into a new one -/
theorem addPiece_eq (b : Filling) (piece : List UInt16) : addPiece limit b piece =
    if isFull limit b.current piece && !isEmptyTrimmed b.current then
      ⟨b.chunks ++ [closed b.inPre b.current], appended (reopened b.inPre) piece,
        inPreAfter b.inPre piece⟩
    else ⟨b.chunks, appended b.current piece, inPreAfter b.inPre piece⟩ := by
  rw [addPiece]
  cases isFull limit b.current piece with
  | false => rfl
  | true =>
    rw [flush]
    cases isEmptyTrimmed b.current <;> rfl

theorem chunks_fill (b : Filling) (pieces : List (List UInt16)) :
    (pieces.foldl (addPiece limit) b).finish = b.chunks ++ messages limit b.current b.inPre pieces := by
  induction pieces generalizing b with
  | nil =>
    rw [List.foldl_nil, Filling.finish, messages]
    split
    · rw [List.append_nil]
    · rfl
  | cons piece pieces ih =>
    rw [List.foldl_cons, ih, addPiece_eq, messages]
    split
    · rw [List.append_assoc]
      rfl
    · rfl

theorem splitForTelegram_long {html : List UInt16} (h : limit < html.length) :
    splitForTelegram html limit = messages limit [] false (piecesOfLines limit html) := by
  rw [splitForTelegram, if_neg (Nat.not_le_of_lt h), fill, chunks_fill]
  rfl

/-! ## the text of the chunks -/

/-- the chunks of a text: each is a part of it, up to blanks at its beginning, with the tags that are
inserted where a `<pre>` is cut; the text after the last is blank -/
inductive Chunked : Bool → List (List UInt16) → List UInt16 → Prop
  | done {tail : List UInt16} (htail : ∀ u ∈ tail, isSpace u = true) : Chunked false [] tail
  | next {opened inPre : Bool} {content part text : List UInt16} {chunks : List (List UInt16)}
      (hcontent : content.dropWhile isSpace = part.dropWhile isSpace)
      (hrest : Chunked inPre chunks text) :
      Chunked opened (closed inPre (reopened opened ++ content) :: chunks) (part ++ text)

theorem dropWhile_eq_nil {us : List UInt16} (h : isEmptyTrimmed us = true) :
    us.dropWhile isSpace = [] := List.dropWhile_eq_nil_iff.mpr (isEmptyTrimmed_iff.mp h)

theorem dropWhile_nil : ([] : List UInt16).dropWhile isSpace = ([] : List UInt16).dropWhile isSpace :=
  rfl

theorem dropWhile_append_eq {us vs : List UInt16} (h : us.dropWhile isSpace = vs.dropWhile isSpace)
    (text : List UInt16) : (us ++ text).dropWhile isSpace = (vs ++ text).dropWhile isSpace := by
  rw [List.dropWhile_append, List.dropWhile_append, h]

theorem dropWhile_cons_newline (us : List UInt16) :
    (newline :: us).dropWhile isSpace = us.dropWhile isSpace :=
  List.dropWhile_cons_of_pos isSpace_newline

/-- blanks do not count before what is put after them -/
theorem dropWhile_blank_append {us : List UInt16} (h : us.dropWhile isSpace = [])
    (text : List UInt16) : (us ++ text).dropWhile isSpace = text.dropWhile isSpace := by
  rw [List.dropWhile_append, h]
  rfl

theorem reopened_eq_nil {opened : Bool} {content : List UInt16}
    (h : isEmptyTrimmed (reopened opened ++ content) = true) : opened = false := by
  cases opened with
  | false => rfl
  | true =>
    rw [isEmptyTrimmed_append] at h
    have hpre : isEmptyTrimmed (reopened true) = false := not_isEmptyTrimmed_pre
    rw [hpre] at h
    cases h

/-- a piece is put after what it follows, up to blanks at the beginning -/
theorem appended_content (opened broken : Bool) {content part : List UInt16} (piece : List UInt16)
    (hcontent : content.dropWhile isSpace = part.dropWhile isSpace)
    (hunbroken : broken = false → content.dropWhile isSpace = []) :
    ∃ content', appended (reopened opened ++ content) piece = reopened opened ++ content' ∧
      content'.dropWhile isSpace = (part ++ spelled newline (broken, piece)).dropWhile isSpace := by
  by_cases hnil : reopened opened ++ content = []
  · obtain ⟨hopened, rfl⟩ := List.append_eq_nil_iff.mp hnil
    refine ⟨piece, by rw [hnil, appended_nil, hopened, List.nil_append], ?_⟩
    rw [dropWhile_blank_append hcontent.symm]
    cases broken with
    | false => rfl
    | true => exact (dropWhile_cons_newline piece).symm
  · refine ⟨content ++ newline :: piece, by rw [appended_of_ne hnil, List.append_assoc], ?_⟩
    cases broken with
    | true => exact dropWhile_append_eq hcontent _
    | false =>
      have hnone := hunbroken rfl
      rw [dropWhile_blank_append hnone, dropWhile_cons_newline,
        dropWhile_blank_append (hcontent ▸ hnone)]
      rfl

theorem length_le_appended (current piece : List UInt16) :
    piece.length ≤ (appended current piece).length := by
  rw [appended, List.length_append, List.length_append]
  omega

/-! ## the pieces of the chunks -/

/-- a piece that goes on with a line has only blanks before it -/
def Unbroken (group : List (Bool × List UInt16)) : Prop := ∀ before piece after,
  group = before ++ (false, piece) :: after → ∀ u ∈ joined newline before, isSpace u = true

/-- the chunks of some pieces -/
inductive Grouped : Bool → List (List UInt16) → List (Bool × List UInt16) → Prop
  | done {items : List (Bool × List UInt16)}
      (hblank : ∀ u ∈ joined newline items, isSpace u = true) : Grouped false [] items
  | next {opened inPre : Bool} {content : List UInt16} {group items : List (Bool × List UInt16)}
      {chunks : List (List UInt16)}
      (hcontent : content.dropWhile isSpace = (joined newline group).dropWhile isSpace)
      (hgroup : Unbroken group) (hrest : Grouped inPre chunks items) :
      Grouped opened (closed inPre (reopened opened ++ content) :: chunks) (group ++ items)

theorem Grouped.chunked {opened : Bool} {chunks : List (List UInt16)}
    {items : List (Bool × List UInt16)} (h : Grouped opened chunks items) :
    Chunked opened chunks (joined newline items) := by
  induction h with
  | done hblank => exact .done hblank
  | next hcontent _ _ ih =>
    rw [joined_append]
    exact .next hcontent ih

theorem unbroken_singleton (item : Bool × List UInt16) : Unbroken [item] := by
  intro before piece after h
  cases before with
  | nil => exact fun u hu => (List.not_mem_nil hu).elim
  | cons first before => exact absurd (List.cons.inj h).2 (by simp)

theorem Unbroken.concat {group : List (Bool × List UInt16)} {item : Bool × List UInt16}
    (h : Unbroken group) (hitem : item.1 = false → ∀ u ∈ joined newline group, isSpace u = true) :
    Unbroken (group ++ [item]) := by
  intro before piece after heq
  rcases List.eq_nil_or_concat' after with rfl | ⟨after, last, rfl⟩
  · obtain ⟨rfl, hlast⟩ := List.append_inj' heq rfl
    cases hlast
    exact hitem rfl
  · rw [← List.cons_append, ← List.append_assoc] at heq
    exact h before piece after (List.append_inj' heq rfl).1

theorem messages_grouped {items : List (Bool × List UInt16)}
    (hfull : items.IsChain fun i j => j.1 = false → i.2.length = limit) {opened inPre : Bool}
    {content : List UInt16} {since : List (Bool × List UInt16)}
    (hcontent : content.dropWhile isSpace = (joined newline since).dropWhile isSpace)
    (hsince : Unbroken since)
    (hfirst : ∀ item ∈ items.head?, item.1 = false → reopened opened ++ content ≠ [] →
      limit ≤ (reopened opened ++ content).length) :
    Grouped opened (messages limit (reopened opened ++ content) inPre (items.map Prod.snd))
      (since ++ items) := by
  induction items generalizing opened inPre content since with
  | nil =>
    rw [List.map_nil, messages]
    split
    next hblank =>
      obtain rfl := reopened_eq_nil hblank
      rw [List.append_nil]
      exact .done (List.dropWhile_eq_nil_iff.mp (hcontent ▸ dropWhile_eq_nil hblank))
    next =>
      have hlast : Grouped opened [closed false (reopened opened ++ content)] (since ++ []) :=
        .next hcontent hsince (.done fun u hu => (List.not_mem_nil hu).elim)
      exact hlast
  | cons item items ih =>
    obtain ⟨broken, piece⟩ := item
    rw [List.isChain_cons] at hfull
    have hnext : ∀ current : List UInt16, ∀ item ∈ items.head?, item.1 = false →
        appended current piece ≠ [] → limit ≤ (appended current piece).length := by
      intro current item hitem hunbroken _
      rw [← hfull.1 item hitem hunbroken]
      exact length_le_appended current piece
    rw [List.map_cons, messages]
    split
    next =>
      -- a new buffer begins with the piece
      obtain ⟨content', happended, hcontent'⟩ :=
        appended_content inPre broken piece dropWhile_nil fun _ => rfl
      rw [List.append_nil] at happended
      rw [happended]
      have hjoined : content'.dropWhile isSpace
          = (joined newline [(broken, piece)]).dropWhile isSpace := by
        rw [hcontent', joined_cons]
        show _ = (spelled newline (broken, piece) ++ []).dropWhile isSpace
        rw [List.append_nil, List.nil_append]
      refine .next hcontent hsince (ih hfull.2 hjoined (unbroken_singleton _) ?_)
      rw [← happended]
      exact hnext _
    next hroom =>
      have hblank : broken = false → content.dropWhile isSpace = [] := by
        intro hunbroken
        by_cases hnil : reopened opened ++ content = []
        · rw [(List.append_eq_nil_iff.mp hnil).2]
          rfl
        -- the piece before was full, so only blanks can be in the buffer
        have hlimit := hfirst _ List.head?_cons hunbroken hnil
        have hover : isFull limit (reopened opened ++ content) piece = true :=
          decide_eq_true (by omega)
        rw [hover, Bool.true_and, Bool.not_eq_true', Bool.not_eq_false, isEmptyTrimmed_append,
          Bool.and_eq_true] at hroom
        exact dropWhile_eq_nil hroom.2
      obtain ⟨content', happended, hcontent'⟩ :=
        appended_content opened broken piece hcontent hblank
      have hjoined : content'.dropWhile isSpace
          = (joined newline (since ++ [(broken, piece)])).dropWhile isSpace := by
        rw [hcontent', joined_append, joined_cons]
        show _ = (_ ++ (spelled newline (broken, piece) ++ [])).dropWhile isSpace
        rw [List.append_nil]
      have hwhole : Unbroken (since ++ [(broken, piece)]) :=
        hsince.concat fun hunbroken =>
          List.dropWhile_eq_nil_iff.mp (hcontent ▸ hblank hunbroken)
      rw [happended, List.append_cons]
      refine ih hfull.2 hjoined hwhole ?_
      rw [← happended]
      exact hnext _

theorem splitForTelegram_grouped (hlimit : 0 < limit) {html : List UInt16}
    (h : limit < html.length) :
    Grouped false (splitForTelegram html limit) (placed newline limit html) := by
  have hfull : (placed newline limit html).IsChain fun i j => j.1 = false → i.2.length = limit :=
    placed_full hlimit html
  have hnone : Unbroken [] := fun before piece after heq => by
    cases (List.append_eq_nil_iff.mp heq.symm).2
  have hgrouped : Grouped false
      (messages limit (reopened false ++ []) false ((placed newline limit html).map Prod.snd))
      ([] ++ placed newline limit html) :=
    messages_grouped hfull dropWhile_nil hnone fun _ _ _ hne => absurd rfl hne
  rw [map_placed] at hgrouped
  rw [splitForTelegram_long h]
  exact hgrouped

/-- **the chunks give the text**, up to blanks at the cuts -/
theorem splitForTelegram_chunked (hlimit : 0 < limit) (html : List UInt16) :
    Chunked false (splitForTelegram html limit) html := by
  by_cases h : html.length ≤ limit
  · rw [splitForTelegram, if_pos h]
    have hchunked : Chunked false [closed false (reopened false ++ html)] (html ++ []) :=
      .next rfl (.done fun u hu => (List.not_mem_nil hu).elim)
    rw [List.append_nil] at hchunked
    exact hchunked
  · have hchunked := (splitForTelegram_grouped hlimit (Nat.lt_of_not_le h)).chunked
    rw [joined_placed hlimit] at hchunked
    exact hchunked

end

end Telegram
