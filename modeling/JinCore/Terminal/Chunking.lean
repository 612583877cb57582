import JinCore.Terminal.PtyInputGate

/-!
# The gate and the chunks of its input

The gate keeps its line, its decoder and its escape sequence from one chunk to the next, so that what it
takes for a line depends on the bytes alone.  Where a chunk ends does show in the steps: a CR that an
escape sequence swallows is the last byte of a step if its chunk ends there.

* `ChunkingInvariant`    what two ways of cutting an input have in common;
* `entered`              the Enters of an input, each with its line;
* `lines_feedLoop`, `enterEnds_feedLoop`   the steps of a chunk, against these;
* `gate_chunking`, `swallowed_enter_ends_step`.
-/

namespace Terminal
namespace PtyInputGate

/-- the offsets, counted from `start`, at which a step ends in an Enter -/
def enterEnds (start : Nat) : List PtyInputStep → List Nat
  | [] => []
  | step :: steps =>
    let stop := start + step.bytes.length
    if step.bytes.getLast?.any isEnter then stop :: enterEnds stop steps else enterEnds stop steps

/-- the non-null lines -/
def lines (steps : List PtyInputStep) : List (List Char) := steps.filterMap PtyInputStep.line

/-- what a fresh gate makes of the same input in two ways of cutting it -/
structure ChunkingInvariant (chunks chunks' : List (List UInt8)) : Prop where
  bytes : (feedAll fresh chunks).2.flatMap PtyInputStep.bytes = chunks.flatten
  enters : enterEnds 0 (feedAll fresh chunks).2 = enterEnds 0 (feedAll fresh chunks').2
  lines : lines (feedAll fresh chunks).2 = lines (feedAll fresh chunks').2

/-- an Enter that stands outside of an escape sequence, as the byte before an offset -/
def taken (data : List UInt8) (offset : Nat) : Bool :=
  (data[offset - 1]?).any isEnter &&
    decide (((data.take (offset - 1)).foldl byte fresh).escape = .none)

/-! ## the Enters of an input -/

/-- the offsets after the Enters outside of escape sequences, each with its line -/
def entered (g : PtyInputGate) (start : Nat) : List UInt8 → List (Nat × Option (List Char))
  | [] => []
  | b :: data =>
    if g.escape ≠ .none ∨ isEnter b = false then entered (g.byte b) (start + 1) data
    else (start + 1, g.takeLine.2) :: entered (g.byte b) (start + 1) data

theorem entered_append (g : PtyInputGate) (start : Nat) (a b : List UInt8) :
    entered g start (a ++ b) = entered g start a ++ entered (a.foldl byte g) (start + a.length) b := by
  induction a generalizing g start with
  | nil => rfl
  | cons c a ih =>
    rw [List.cons_append, entered, entered, ih, List.foldl_cons, List.length_cons,
      Nat.add_assoc, Nat.add_comm 1 a.length]
    split
    · rfl
    · rfl

theorem lines_append (a b : List PtyInputStep) : lines (a ++ b) = lines a ++ lines b :=
  List.filterMap_append

/-- the lines of a chunk are those of its Enters -/
theorem lines_feedLoop (g : PtyInputGate) (held data : List UInt8) (start : Nat) :
    lines (g.feedLoop held data).2 = (entered g start data).filterMap Prod.snd := by
  induction data generalizing g held start with
  | nil =>
    rw [feedLoop]
    split
    · rfl
    · rfl
  | cons b data ih =>
    by_cases h : g.escape ≠ .none ∨ isEnter b = false
    · rw [feedLoop_key h, entered, if_pos h]
      exact ih _ _ _
    · rw [entered, if_neg h]
      rw [not_or, ne_eq, not_not, Bool.not_eq_false] at h
      rw [feedLoop_enter h.1 h.2, lines, List.filterMap_cons, List.filterMap_cons]
      have htail := ih (g.byte b) [] (start + 1)
      rw [lines] at htail
      rw [htail]

theorem lines_feedAll (g : PtyInputGate) (chunks : List (List UInt8)) (start : Nat) :
    lines (g.feedAll chunks).2 = (entered g start chunks.flatten).filterMap Prod.snd := by
  induction chunks generalizing g start with
  | nil => rfl
  | cons data chunks ih =>
    rw [feedAll, lines_append, feed, lines_feedLoop g [] data start, List.flatten_cons,
      entered_append, List.filterMap_append, ← gate_feed, ← ih]
    rfl

theorem bytes_feedAll (g : PtyInputGate) (chunks : List (List UInt8)) :
    (g.feedAll chunks).2.flatMap PtyInputStep.bytes = chunks.flatten := by
  induction chunks generalizing g with
  | nil => rfl
  | cons data chunks ih => rw [feedAll, List.flatMap_append, bytes_feed, ih, List.flatten_cons]

/-! ## where the steps end -/

theorem enterEnds_append (start : Nat) (a b : List PtyInputStep) : enterEnds start (a ++ b)
    = enterEnds start a ++ enterEnds (start + (a.flatMap PtyInputStep.bytes).length) b := by
  induction a generalizing start with
  | nil => rfl
  | cons step a ih =>
    rw [List.cons_append, enterEnds, enterEnds, ih, List.flatMap_cons, List.length_append,
      Nat.add_assoc]
    split
    · rfl
    · rfl

/-- after the bytes `past`, the next one is the byte before the offset `past.length + 1` -/
theorem taken_next (past : List UInt8) (b : UInt8) (rest : List UInt8) :
    taken (past ++ b :: rest) (past.length + 1) =
      (isEnter b && decide ((past.foldl byte fresh).escape = .none)) := by
  rw [taken, Nat.add_sub_cancel, List.getElem?_append_right (Nat.le_refl _), Nat.sub_self,
    List.take_left']
  · rfl
  · rfl

/-- the offset after these bytes is not that of an Enter outside of an escape sequence -/
def NotTaken (whole : List UInt8) (past held : List UInt8) : Prop :=
  held ≠ [] → taken whole (past.length + held.length) = false

theorem enterEnds_feedLoop (whole past held data later : List UInt8)
    (hwhole : whole = past ++ held ++ data ++ later) (hheld : NotTaken whole past held) :
    (enterEnds past.length (((past ++ held).foldl byte fresh).feedLoop held data).2).filter
        (taken whole)
      = (entered ((past ++ held).foldl byte fresh) (past.length + held.length) data).map Prod.fst := by
  induction data generalizing past held with
  | nil =>
    rw [feedLoop, entered]
    by_cases hnil : held = []
    · rw [if_pos hnil]
      rfl
    · rw [if_neg hnil, enterEnds]
      split
      · exact List.filter_singleton.trans (by rw [hheld hnil]; rfl)
      · rfl
  | cons b data ih =>
    have hbyte : ((past ++ held).foldl byte fresh).byte b
        = (past ++ (held ++ [b])).foldl byte fresh := by
      rw [← List.append_assoc, List.foldl_append (l := past ++ held)]
      rfl
    have htaken : taken whole (past.length + (held.length + 1))
        = (isEnter b && decide (((past ++ held).foldl byte fresh).escape = .none)) := by
      have hnext := taken_next (past ++ held) b (data ++ later)
      rw [List.length_append, Nat.add_assoc] at hnext
      rw [← hnext, hwhole, List.append_assoc _ (b :: data)]
      rfl
    by_cases h : ((past ++ held).foldl byte fresh).escape ≠ .none ∨ isEnter b = false
    · rw [feedLoop_key h, entered, if_pos h, hbyte]
      have hlast : NotTaken whole past (held ++ [b]) := by
        intro _
        rw [List.length_append, List.length_singleton, htaken]
        rcases h with h | h
        · rw [decide_eq_false h, Bool.and_false]
        · rw [h, Bool.false_and]
      have hrest := ih past (held ++ [b]) (by rw [hwhole]; simp) hlast
      rw [List.length_append] at hrest
      exact hrest
    · rw [entered, if_neg h]
      rw [not_or, ne_eq, not_not, Bool.not_eq_false] at h
      have hrest := ih (past ++ (held ++ [b])) [] (by rw [hwhole]; simp)
        fun hne => absurd rfl hne
      rw [List.append_nil, List.length_append, List.length_append, List.length_singleton] at hrest
      have hstop : taken whole (past.length + (held.length + 1)) = true := by
        rw [htaken, h.1, h.2]
        rfl
      have hlast : ((held ++ [b]).getLast?.any isEnter) = true := by
        rw [List.getLast?_append_of_ne_nil _ (List.cons_ne_nil b [])]
        exact h.2
      rw [feedLoop_enter h.1 h.2, hbyte, enterEnds, if_pos hlast, List.length_append,
        List.length_singleton, List.filter_cons_of_pos hstop, hrest]
      rfl

theorem enterEnds_feedAll (whole past : List UInt8) (chunks : List (List UInt8))
    (hwhole : whole = past ++ chunks.flatten) :
    (enterEnds past.length ((past.foldl byte fresh).feedAll chunks).2).filter (taken whole)
      = (entered (past.foldl byte fresh) past.length chunks.flatten).map Prod.fst := by
  induction chunks generalizing past with
  | nil => rfl
  | cons data chunks ih =>
    have hdata := enterEnds_feedLoop whole past [] data chunks.flatten (by rw [hwhole]; simp) fun hne => absurd rfl hne
    rw [List.append_nil, List.length_nil, Nat.add_zero] at hdata
    have hrest := ih (past ++ data) (by rw [hwhole]; simp)
    rw [List.foldl_append, List.length_append] at hrest
    rw [feedAll, enterEnds_append, List.filter_append, bytes_feed, gate_feed, hrest, feed, hdata,
      List.flatten_cons, entered_append, List.map_append]

/-- **the steps of the gate** hold the bytes that were fed; the Enters outside of escape sequences end
steps, and the lines are the same, however the input is cut -/
theorem gate_chunking (chunks chunks' : List (List UInt8)) (h : chunks.flatten = chunks'.flatten) :
    (feedAll fresh chunks).2.flatMap PtyInputStep.bytes = chunks.flatten ∧
    (enterEnds 0 (feedAll fresh chunks).2).filter (taken chunks.flatten)
      = (enterEnds 0 (feedAll fresh chunks').2).filter (taken chunks.flatten) ∧
    lines (feedAll fresh chunks).2 = lines (feedAll fresh chunks').2 := by
  have hends := enterEnds_feedAll chunks.flatten [] chunks rfl
  have hends' := enterEnds_feedAll chunks.flatten [] chunks' h
  refine ⟨bytes_feedAll fresh chunks, ?_, ?_⟩
  · exact hends.trans ((congrArg (fun data => (entered fresh 0 data).map Prod.fst) h).trans hends'.symm)
  · rw [lines_feedAll fresh chunks 0, lines_feedAll fresh chunks' 0, h]

theorem gate_chunking_demo : (feedAll fresh [[ESC, CR], [0x6C, 0x73, CR]]).2.flatMap PtyInputStep.bytes
      = [ESC, CR, 0x6C, 0x73, CR] ∧
    (enterEnds 0 (feedAll fresh [[ESC, CR], [0x6C, 0x73, CR]]).2).filter
        (taken [ESC, CR, 0x6C, 0x73, CR])
      = (enterEnds 0 (feedAll fresh [[ESC, CR, 0x6C, 0x73, CR]]).2).filter
        (taken [ESC, CR, 0x6C, 0x73, CR]) ∧
    lines (feedAll fresh [[ESC, CR], [0x6C, 0x73, CR]]).2
      = lines (feedAll fresh [[ESC, CR, 0x6C, 0x73, CR]]).2 :=
  gate_chunking [[ESC, CR], [0x6C, 0x73, CR]] [[ESC, CR, 0x6C, 0x73, CR]] rfl

/-- a CR that an escape sequence swallows ends a step where its chunk ends, and only there -/
theorem swallowed_enter_ends_step : ¬ ∀ chunks chunks' : List (List UInt8),
    chunks.flatten = chunks'.flatten → ChunkingInvariant chunks chunks' := by
  intro h
  have hends := (h [[ESC, CR], [0x61]] [[ESC, CR, 0x61]] rfl).enters
  revert hends
  decide

end PtyInputGate
end Terminal
