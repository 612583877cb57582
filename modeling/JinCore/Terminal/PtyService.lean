import JinCore.Terminal.TypedLine

/-!
# The input of an interactive session

`TerminalPtyService.input` queues the chunks of a session, so that they are processed one after the
other: each step of the gate is audited and sent, and the first failure drops the rest of the chunk,
resets the gate and sends a Ctrl-C, which can fail too.  The shell sees only what was sent.

* `PtySession.input`, `process`, `onInputFailure`, `withinRate`   the service;
* `FailClosed`               no Enter reaches the shell on a line that was not audited before;
* `Near`, `near_byte`        the gate against the line of the shell;
* `failClosed_input`, `terminal_fail_closed`, `terminal_fails_open`.
-/

namespace Terminal

def MAX_INPUT_BYTES_PER_SECOND : Nat := 512 * 1024

/-- whether the append to the audit and the request to the Executor succeed for a step -/
structure StepReply where
  audited : Bool
  sent : Bool
  deriving DecidableEq, Repr

/-- a call of `input`, with what becomes of each step and of the Ctrl-C after a failure -/
structure InputCall where
  now : Int
  data : List UInt8
  replies : Nat → StepReply
  ctrlCSent : Bool

structure PtySession where
  gate : PtyInputGate
  ended : Bool
  bytesIn : Nat
  rateWindowStart : Int
  rateBytes : Nat
  deriving DecidableEq, Repr

/-- what an input leaves behind: a row of the audit, bytes at the shell -/
inductive PtyEffect where
  | audited (line : List Char)
  | delivered (bytes : List UInt8)
  deriving DecidableEq, Repr

/-- the effects up to the first failure, and whether there was none -/
def process (replies : Nat → StepReply) : Nat → List PtyInputStep → List PtyEffect × Bool
  | _, [] => ([], true)
  | n, step :: steps =>
    match step.line with
    | some line =>
      if (replies n).audited then
        if (replies n).sent then
          (.audited line :: .delivered step.bytes :: (process replies (n + 1) steps).1,
            (process replies (n + 1) steps).2)
        else ([.audited line], false)
      else ([], false)
    | none =>
      if (replies n).sent then
        (.delivered step.bytes :: (process replies (n + 1) steps).1,
          (process replies (n + 1) steps).2)
      else ([], false)

def onInputFailure (gate : PtyInputGate) (ctrlCSent : Bool) : PtyInputGate × List PtyEffect :=
  (gate.reset, if ctrlCSent then [.delivered [CTRL_C]] else [])

namespace PtySession

def withinRate (s : PtySession) (now : Int) (bytes : Nat) : PtySession × Bool :=
  let rated := if now - s.rateWindowStart ≥ 1000 then bytes else s.rateBytes + bytes
  ({ s with
      rateWindowStart := if now - s.rateWindowStart ≥ 1000 then now else s.rateWindowStart
      rateBytes := rated },
    decide (rated ≤ MAX_INPUT_BYTES_PER_SECOND))

/-- the chunk is neither after the end nor beyond the rate -/
def accepts (s : PtySession) (call : InputCall) : Bool :=
  !s.ended && (s.withinRate call.now call.data.length).2

/-- what `process` does with the chunk -/
def processed (s : PtySession) (call : InputCall) : List PtyEffect × Bool :=
  process call.replies 0 (s.gate.feed call.data).2

def input (s : PtySession) (call : InputCall) : PtySession × List PtyEffect :=
  if s.ended then (s, [])
  else
    let (rated, within) := s.withinRate call.now call.data.length
    if within then
      if (s.processed call).2 then
        ({ rated with
            bytesIn := rated.bytesIn + call.data.length, gate := (s.gate.feed call.data).1 },
          (s.processed call).1)
      else
        ({ rated with
            bytesIn := rated.bytesIn + call.data.length
            gate := (onInputFailure (s.gate.feed call.data).1 call.ctrlCSent).1 },
          (s.processed call).1
            ++ (onInputFailure (s.gate.feed call.data).1 call.ctrlCSent).2)
    else (rated, [])

/-- the calls of a session, in the order of its queue -/
def inputs (s : PtySession) : List InputCall → PtySession × List PtyEffect
  | [] => (s, [])
  | call :: calls =>
    (((s.input call).1.inputs calls).1, (s.input call).2 ++ ((s.input call).1.inputs calls).2)

end PtySession

/-! ## the shell -/

/-- the line at the shell, of the bytes that were delivered -/
def shellLine (t : TypedLine) : List PtyEffect → TypedLine
  | [] => t
  | .audited _ :: es => shellLine t es
  | .delivered bytes :: es => shellLine (bytes.foldl TypedLine.byte t) es

/-- an Enter among the bytes finds its line in the row appended just before -/
def DeliveredClosed (t : TypedLine) (row : Option (List Char)) (bytes : List UInt8) : Prop :=
  ∀ p b r, bytes = p ++ b :: r → isEnter b = true → Recorded (p.foldl TypedLine.byte t).text row

/-- from a line at the shell and the last row of the audit -/
def FailClosed : TypedLine → Option (List Char) → List PtyEffect → Prop
  | _, _, [] => True
  | t, _, .audited line :: es => FailClosed t (some line) es
  | t, row, .delivered bytes :: es =>
    DeliveredClosed t row bytes ∧ FailClosed (bytes.foldl TypedLine.byte t) none es

/-! ## where the session is closed -/

/-- a printable character or an Enter -/
def isTextOrEnter (b : UInt8) : Bool := isText b || isEnter b

/-- the cap drops no text of a line of which nothing is recorded, nor text before an incomplete
character -/
def CapFollowed (g : PtyInputGate) (t : TypedLine) (b : UInt8) : Prop :=
  if isEnter b then t.decoder.flush = [] ∨ (SameWords g t ∧ SameEnd g t)
  else unitLength g.line < MAX_LINE_CHARS ∨ (t.decoder.write b).2.all isSpace = true ∨
    g.line.all isSpace = false

def AllCapFollowed : PtyInputGate → TypedLine → List UInt8 → Prop
  | _, _, [] => True
  | g, t, b :: bs => CapFollowed g t b ∧ AllCapFollowed (g.byte b) (t.byte b) bs

/-- nothing stands on the line of the shell -/
def AtPrompt (t : TypedLine) : Prop := t.line.all isSpace = true ∧ t.decoder = .fresh

/-- the Ctrl-C after a failure fails only where there is nothing to cancel -/
def CallFollowed (s : PtySession) (t : TypedLine) (call : InputCall) : Prop :=
  s.accepts call = true → AllCapFollowed s.gate t call.data ∧
    ((s.processed call).2 = false → call.ctrlCSent = false →
      AtPrompt (shellLine t (s.processed call).1))

def AllCallsFollowed : PtySession → TypedLine → List InputCall → Prop
  | _, _, [] => True
  | s, t, call :: calls => CallFollowed s t call ∧
    AllCallsFollowed (s.input call).1 (shellLine t (s.input call).2) calls

instance decidableCapFollowed (g : PtyInputGate) (t : TypedLine) (b : UInt8) :
    Decidable (CapFollowed g t b) := by
  unfold CapFollowed SameWords SameEnd
  infer_instance

instance decidableAllCapFollowed : ∀ g t bs, Decidable (AllCapFollowed g t bs)
  | _, _, [] => instDecidableTrue
  | g, t, b :: bs =>
    haveI := decidableAllCapFollowed (g.byte b) (t.byte b) bs
    inferInstanceAs (Decidable (CapFollowed g t b ∧ AllCapFollowed (g.byte b) (t.byte b) bs))

instance decidableCallFollowed (s : PtySession) (t : TypedLine) (call : InputCall) :
    Decidable (CallFollowed s t call) := by
  unfold CallFollowed AtPrompt
  infer_instance

instance decidableAllCallsFollowed : ∀ s t calls, Decidable (AllCallsFollowed s t calls)
  | _, _, [] => instDecidableTrue
  | s, t, call :: calls =>
    haveI := decidableAllCallsFollowed (s.input call).1 (shellLine t (s.input call).2) calls
    inferInstanceAs (Decidable (CallFollowed s t call ∧
      AllCallsFollowed (s.input call).1 (shellLine t (s.input call).2) calls))

/-! ## the gate against the shell -/

/-- without editing keys the gate is in step with the shell, and below the cap so are the ends -/
structure Near (g : PtyInputGate) (t : TypedLine) : Prop where
  inStep : InStep g t
  escape : g.escape = .none
  sameEnd : unitLength g.line < MAX_LINE_CHARS → SameEnd g t

theorem endsInWord_blank {l : List Char} (h : l.all isSpace = true) : endsInWord l = false := by
  rw [endsInWord_eq]
  exact Blanks.Trails.inWord_of_all_blank (List.all_reverse.trans h)

/-- a fresh gate is near a shell at its prompt -/
theorem near_atPrompt {t : TypedLine} (h : AtPrompt t) (hescape : t.escape = .none) :
    Near .fresh t := by
  have hskips := Blanks.Trails.nil.skips (x := t.line.reverse) fun c hc =>
    List.all_eq_true.mp h.1 c (List.mem_reverse.mp hc)
  rw [List.append_nil] at hskips
  refine ⟨⟨h.2.symm, hescape.symm, Or.inl hskips⟩, rfl, fun _ => ?_⟩
  exact (endsInWord_blank h.1).symm

theorem atPrompt_empty : AtPrompt .empty := ⟨rfl, rfl⟩

theorem endsInWord_append (l : List Char) {text : List Char} (h : text ≠ []) :
    endsInWord (l ++ text) = endsInWord text := by
  rw [endsInWord, List.getLast?_append_of_ne_nil l h]
  rfl

section

variable {g : PtyInputGate} {t : TypedLine} {b : UInt8}

theorem isEnter_of_not_text (hb : isTextOrEnter b = true) (hnot : isText b = false) :
    isEnter b = true := by
  rwa [isTextOrEnter, hnot, Bool.false_or] at hb

theorem applyKey_text (hb : isText b = true) :
    g.applyKey b = { g with
      decoder := (g.decoder.write b).1
      line := if unitLength g.line < MAX_LINE_CHARS then g.line ++ (g.decoder.write b).2
        else g.line } := by
  obtain ⟨hlow, hdel⟩ := of_decide_eq_true hb
  have hne := ne_control hlow
  rw [PtyInputGate.applyKey, if_neg (not_or_intro (hne BACKSPACE (by decide)) hdel),
    if_neg (not_or_intro (hne CTRL_C (by decide)) (hne CTRL_U (by decide))),
    if_neg (hne CTRL_W (by decide)), if_neg (UInt8.not_lt.mpr hlow)]

theorem gate_text (hescape : g.escape = .none) (hb : isText b = true) :
    g.byte b = g.applyKey b := by
  obtain ⟨hlow, -⟩ := of_decide_eq_true hb
  rw [PtyInputGate.byte, if_neg (not_not_intro hescape), if_neg (ne_control hlow ESC (by decide)),
    not_isEnter_text hb, if_neg Bool.false_ne_true]

theorem followed_text (h : Near g t) (hb : isText b = true) (hf : CapFollowed g t b) :
    Followed g t b := by
  obtain ⟨hlow, hdel⟩ := of_decide_eq_true hb
  have hne := ne_control hlow
  rw [CapFollowed, not_isEnter_text hb, if_neg Bool.false_ne_true] at hf
  rw [Followed, if_neg (not_not_intro h.escape), not_isEnter_text hb, if_neg Bool.false_ne_true,
    if_neg (not_or_intro (hne BACKSPACE (by decide)) hdel), if_neg (hne CTRL_W (by decide)),
    if_neg (UInt8.not_lt.mpr hlow), TextFollowed]
  split
  next hlt => exact fun _ => h.sameEnd hlt
  next hge => exact hf.resolve_left hge

/-- one byte of text, or an Enter, keeps the gate near the shell -/
theorem near_byte (h : Near g t) (hb : isTextOrEnter b = true) (hf : CapFollowed g t b) :
    Followed g t b ∧ Near (g.byte b) (t.byte b) := by
  have hescape : t.escape = .none := h.inStep.escape ▸ h.escape
  cases htext : isText b with
  | true =>
    have hfollowed := followed_text h htext hf
    have hstep := inStep_byte h.inStep hfollowed
    refine ⟨hfollowed, hstep, ?_, ?_⟩
    · rw [hstep.escape, byte_text hescape htext]
      exact hescape
    · rw [gate_text h.escape htext, applyKey_text htext, byte_text hescape htext, h.inStep.decoder]
      intro hlt
      by_cases hcap : unitLength g.line < MAX_LINE_CHARS
      · show endsInWord (if _ then _ else _) = endsInWord (t.line ++ (t.decoder.write b).2)
        rw [if_pos hcap]
        by_cases hnil : (t.decoder.write b).2 = []
        · rw [hnil, List.append_nil, List.append_nil]
          exact h.sameEnd hcap
        · rw [endsInWord_append _ hnil, endsInWord_append _ hnil]
      · have hlt : unitLength (if unitLength g.line < MAX_LINE_CHARS
            then g.line ++ (t.decoder.write b).2 else g.line) < MAX_LINE_CHARS := hlt
        rw [if_neg hcap] at hlt
        exact absurd hlt hcap
  | false =>
    have henter := isEnter_of_not_text hb htext
    have hesc : b ≠ ESC := by
      rintro rfl
      exact absurd henter (by decide)
    have hfollowed : Followed g t b := by
      rw [CapFollowed, if_pos henter] at hf
      rwa [Followed, if_neg (not_not_intro h.escape), if_pos henter]
    have hgate : g.byte b = g.takeLine.1 := by
      rw [PtyInputGate.byte, if_neg (not_not_intro h.escape), if_neg hesc, if_pos henter]
    have hshell : t.byte b = .empty := by
      simp only [TypedLine.byte, hescape]
      rw [TypedLine.key, if_neg hesc, if_pos henter]
    refine ⟨hfollowed, inStep_byte h.inStep hfollowed, ?_, fun _ => ?_⟩
    · rw [hgate]
      exact h.escape
    · rw [hgate, hshell]
      rfl

theorem near_run {bs : List UInt8} (h : Near g t) (hbs : ∀ b ∈ bs, isTextOrEnter b = true)
    (hf : AllCapFollowed g t bs) :
    AllFollowed g t bs ∧ Near (bs.foldl PtyInputGate.byte g) (bs.foldl TypedLine.byte t) := by
  induction bs generalizing g t with
  | nil => exact ⟨True.intro, h⟩
  | cons b bs ih =>
    obtain ⟨hb, hnear⟩ := near_byte h (hbs b List.mem_cons_self) hf.1
    obtain ⟨hrest, hnear⟩ := ih hnear (fun c hc => hbs c (List.mem_cons_of_mem _ hc)) hf.2
    exact ⟨⟨hb, hrest⟩, hnear⟩

theorem escape_run {bs : List UInt8} (ht : t.escape = .none)
    (hbs : ∀ b ∈ bs, isTextOrEnter b = true) : (bs.foldl TypedLine.byte t).escape = .none := by
  induction bs generalizing t with
  | nil => exact ht
  | cons b bs ih =>
    refine ih ?_ fun c hc => hbs c (List.mem_cons_of_mem _ hc)
    cases htext : isText b with
    | true =>
      rw [byte_text ht htext]
      exact ht
    | false =>
      have henter := isEnter_of_not_text (hbs b List.mem_cons_self) htext
      have hesc : b ≠ ESC := by
        rintro rfl
        exact absurd henter (by decide)
      simp only [TypedLine.byte, ht]
      rw [TypedLine.key, if_neg hesc, if_pos henter]
      rfl

end

/-! ## effects -/

theorem shellLine_append (t : TypedLine) (xs ys : List PtyEffect) :
    shellLine t (xs ++ ys) = shellLine (shellLine t xs) ys := by
  induction xs generalizing t with
  | nil => rfl
  | cons x xs ih => cases x <;> exact ih _

theorem failClosed_append {t : TypedLine} {row : Option (List Char)} (xs ys : List PtyEffect)
    (hxs : FailClosed t row xs) (hys : ∀ row, FailClosed (shellLine t xs) row ys) :
    FailClosed t row (xs ++ ys) := by
  induction xs generalizing t row with
  | nil => exact hys row
  | cons x xs ih =>
    cases x with
    | audited line => exact ih hxs hys
    | delivered bytes => exact ⟨hxs.1, ih hxs.2 hys⟩

/-- the Enter of a step is its last byte -/
theorem deliveredClosed_step {t : TypedLine} {step : PtyInputStep} {row : Option (List Char)}
    (h : StepComplete t step) (hrow : ∀ line, step.line = some line → row = some line) :
    DeliveredClosed t row step.bytes := by
  intro p b r hbytes henter
  rcases List.eq_nil_or_concat r with rfl | ⟨r, c, rfl⟩
  · have hlast : step.bytes.getLast? = some b := by
      rw [hbytes]
      exact getLast?_concat p b
    have hrecorded := h.2 b hlast henter
    rw [hbytes, List.dropLast_concat] at hrecorded
    intro htext
    obtain ⟨l, hline, hl⟩ := hrecorded htext
    exact ⟨l, hrow l hline, hl⟩
  · have hmem : b ∈ step.bytes.dropLast := by
      rw [hbytes, List.concat_eq_append, ← List.cons_append, ← List.append_assoc,
        List.dropLast_concat]
      exact List.mem_append_right _ List.mem_cons_self
    rw [h.1 b hmem] at henter
    cases henter

theorem failClosed_process {t : TypedLine} {steps : List PtyInputStep} (h : StepsComplete t steps)
    (replies : Nat → StepReply) (n : Nat) (row : Option (List Char)) :
    FailClosed t row (process replies n steps).1 := by
  induction steps generalizing t n row with
  | nil => exact True.intro
  | cons step steps ih =>
    rw [process]
    cases hline : step.line with
    | some line =>
      simp only
      split
      · split
        · refine ⟨deliveredClosed_step h.1 fun l hl => ?_, ih h.2 _ _⟩
          rw [hline] at hl
          exact hl
        · exact True.intro
      · exact True.intro
    | none =>
      simp only
      split
      · refine ⟨deliveredClosed_step h.1 fun l hl => ?_, ih h.2 _ _⟩
        rw [hline] at hl
        cases hl
      · exact True.intro

/-- when no request fails, the shell has the whole chunk -/
theorem shellLine_process {t : TypedLine} {steps : List PtyInputStep} {replies : Nat → StepReply}
    {n : Nat} (h : (process replies n steps).2 = true) :
    shellLine t (process replies n steps).1
      = (steps.flatMap PtyInputStep.bytes).foldl TypedLine.byte t := by
  induction steps generalizing t n with
  | nil => rfl
  | cons step steps ih =>
    rw [List.flatMap_cons, List.foldl_append]
    rw [process] at h ⊢
    cases hline : step.line with
    | some line =>
      simp only [hline] at h ⊢
      split at h
      · split at h
        · rename_i haudited hsent
          rw [if_pos haudited, if_pos hsent]
          exact ih h
        · cases h
      · cases h
    | none =>
      simp only [hline] at h ⊢
      split at h
      next hsent =>
        rw [if_pos hsent]
        exact ih h
      · cases h

/-- a failure leaves a prefix of the chunk at the shell -/
theorem escape_process {t : TypedLine} {steps : List PtyInputStep} (ht : t.escape = .none)
    (hsteps : ∀ step ∈ steps, ∀ b ∈ step.bytes, isTextOrEnter b = true)
    (replies : Nat → StepReply) (n : Nat) :
    (shellLine t (process replies n steps).1).escape = .none := by
  induction steps generalizing t n with
  | nil => exact ht
  | cons step steps ih =>
    have hrest := ih (escape_run ht (hsteps step List.mem_cons_self))
      (fun s hs => hsteps s (List.mem_cons_of_mem _ hs)) (n + 1)
    rw [process]
    cases step.line with
    | some line =>
      simp only
      split
      · split
        · exact hrest
        · exact ht
      · exact ht
    | none =>
      simp only
      split
      · exact hrest
      · exact ht

/-! ## runs -/

section

variable {s : PtySession} {t : TypedLine} {call : InputCall}

theorem bytes_of_feed (hbytes : ∀ b ∈ call.data, isTextOrEnter b = true) :
    ∀ step ∈ (s.gate.feed call.data).2, ∀ b ∈ step.bytes, isTextOrEnter b = true := by
  intro step hstep b hb
  apply hbytes
  rw [← s.gate.bytes_feed call.data]
  exact List.mem_flatMap.mpr ⟨step, hstep, hb⟩

theorem input_done (h : s.accepts call = true) (hdone : (s.processed call).2 = true) :
    (s.input call).1.gate = (s.gate.feed call.data).1 ∧
      (s.input call).2 = (s.processed call).1 := by
  obtain ⟨hended, hrate⟩ := (Bool.and_eq_true _ _).mp h
  rw [PtySession.input, if_neg (by simpa using hended)]
  simp only [hrate, hdone, if_true]
  exact ⟨trivial, trivial⟩

theorem input_failed (h : s.accepts call = true) (hdone : (s.processed call).2 = false) :
    (s.input call).1.gate = .fresh ∧ (s.input call).2
      = (s.processed call).1 ++ if call.ctrlCSent then [.delivered [CTRL_C]] else [] := by
  obtain ⟨hended, hrate⟩ := (Bool.and_eq_true _ _).mp h
  rw [PtySession.input, if_neg (by simpa using hended)]
  simp only [hrate, hdone, if_true, Bool.false_eq_true, if_false]
  exact ⟨rfl, rfl⟩

theorem input_refused (h : s.accepts call = false) :
    (s.input call).1.gate = s.gate ∧ (s.input call).2 = [] := by
  cases hended : s.ended with
  | true =>
    rw [PtySession.input, if_pos hended]
    exact ⟨rfl, rfl⟩
  | false =>
    have hrate : (s.withinRate call.now call.data.length).2 = false := by
      simpa [PtySession.accepts, hended] using h
    have hinput : s.input call = ((s.withinRate call.now call.data.length).1, []) := by
      rw [PtySession.input, if_neg (by simp [hended])]
      simp only [hrate, Bool.false_eq_true, if_false]
    rw [hinput]
    exact ⟨rfl, rfl⟩

theorem ctrlC_empty (ht : t.escape = .none) : t.byte CTRL_C = .empty := by
  simp only [TypedLine.byte, ht]
  rw [TypedLine.key, if_neg (by decide), if_neg (by decide), if_neg (by decide),
    if_pos (Or.inl rfl), ht]
  rfl

theorem deliveredClosed_ctrlC (row : Option (List Char)) : DeliveredClosed t row [CTRL_C] := by
  intro p b r hbytes henter
  have hmem : b ∈ [CTRL_C] := hbytes ▸ List.mem_append_right p List.mem_cons_self
  rw [List.mem_singleton.mp hmem] at henter
  exact absurd henter (by decide)

/-- one call keeps the gate near the shell and every Enter audited -/
theorem failClosed_input (h : Near s.gate t) (hbytes : ∀ b ∈ call.data, isTextOrEnter b = true)
    (hf : CallFollowed s t call) :
    (∀ row, FailClosed t row (s.input call).2) ∧
      Near (s.input call).1.gate (shellLine t (s.input call).2) := by
  cases haccepts : s.accepts call with
  | false =>
    obtain ⟨hgate, heffects⟩ := input_refused haccepts
    rw [hgate, heffects]
    exact ⟨fun _ => True.intro, h⟩
  | true =>
    obtain ⟨hcap, hcancel⟩ := hf haccepts
    obtain ⟨hfollowed, hnear⟩ := near_run h hbytes hcap
    have hsteps := stepsComplete_feed h.inStep hfollowed
    have hprocess := fun row => failClosed_process hsteps call.replies 0 row
    cases hdone : (s.processed call).2 with
    | true =>
      obtain ⟨hgate, heffects⟩ := input_done haccepts hdone
      rw [hgate, heffects]
      refine ⟨hprocess, ?_⟩
      have hshell := shellLine_process (t := t) hdone
      rw [s.gate.bytes_feed] at hshell
      rw [s.gate.gate_feed]
      exact hshell ▸ hnear
    | false =>
      obtain ⟨hgate, heffects⟩ := input_failed haccepts hdone
      rw [hgate, heffects]
      have ht : t.escape = .none := h.inStep.escape ▸ h.escape
      have hescape : (shellLine t (s.processed call).1).escape = .none :=
        escape_process ht (bytes_of_feed hbytes) call.replies 0
      cases hsent : call.ctrlCSent with
      | true =>
        rw [if_pos rfl, shellLine_append]
        refine ⟨fun row => failClosed_append _ _ (hprocess row) fun row =>
          ⟨deliveredClosed_ctrlC row, True.intro⟩, ?_⟩
        show Near .fresh ((shellLine t (s.processed call).1).byte CTRL_C)
        rw [ctrlC_empty hescape]
        exact near_atPrompt atPrompt_empty rfl
      | false =>
        rw [if_neg Bool.false_ne_true, List.append_nil]
        exact ⟨hprocess, near_atPrompt (hcancel hdone hsent) hescape⟩

end

theorem failClosed_inputs {s : PtySession} {t : TypedLine} {calls : List InputCall}
    (h : Near s.gate t) (hbytes : ∀ call ∈ calls, ∀ b ∈ call.data, isTextOrEnter b = true)
    (hf : AllCallsFollowed s t calls) (row : Option (List Char)) :
    FailClosed t row (s.inputs calls).2 := by
  induction calls generalizing s t row with
  | nil => exact True.intro
  | cons call calls ih =>
    obtain ⟨hcall, hnear⟩ := failClosed_input h (hbytes call List.mem_cons_self) hf.1
    exact failClosed_append _ _ (hcall row) fun row =>
      ih hnear (fun c hc => hbytes c (List.mem_cons_of_mem _ hc)) hf.2 row

/-- **Where the terminal fails closed.**  Whatever appends and requests fail, as long as a Ctrl-C
fails only at an empty prompt and the cap drops no text of an unrecorded line: no Enter reaches the
shell on a line that is not blank without a row of that line just before. -/
theorem terminal_fail_closed (s : PtySession) (hs : s.gate = .fresh) (calls : List InputCall)
    (hbytes : ∀ call ∈ calls, ∀ b ∈ call.data, isTextOrEnter b = true)
    (hf : AllCallsFollowed s .empty calls) : FailClosed .empty none (s.inputs calls).2 :=
  failClosed_inputs (hs ▸ near_atPrompt atPrompt_empty rfl) hbytes hf none

/-! ## failures -/

def sampleSession : PtySession where
  gate := .fresh
  ended := false
  bytesIn := 0
  rateWindowStart := 0
  rateBytes := 0

/-- a chunk whose requests all succeed -/
def sentCall (data : List UInt8) : InputCall where
  now := 0
  data := data
  replies _ := ⟨true, true⟩
  ctrlCSent := true

/-- a chunk whose append fails -/
def unauditedCall (data : List UInt8) (ctrlCSent : Bool) : InputCall where
  now := 0
  data := data
  replies _ := ⟨false, true⟩
  ctrlCSent := ctrlCSent

theorem terminal_fail_closed_cancel :
    FailClosed .empty none (sampleSession.inputs
      [sentCall (keys "npm ins"), unauditedCall (keys "tall" ++ [CR]) true,
        sentCall (keys "ls" ++ [CR])]).2 :=
  terminal_fail_closed sampleSession rfl _ (by decide +kernel) (by decide +kernel)

/-- the append of the Enter fails, the Ctrl-C fails too, and the next Enter runs the line -/
theorem terminal_fails_open :
    ¬ FailClosed .empty none (sampleSession.inputs
      [sentCall (keys "rm -rf datos"), unauditedCall [CR] false, sentCall [CR]]).2 := by
  intro h
  have heffects : (sampleSession.inputs
      [sentCall (keys "rm -rf datos"), unauditedCall [CR] false, sentCall [CR]]).2
      = [.delivered (keys "rm -rf datos"), .delivered [CR]] := by decide
  rw [heffects] at h
  obtain ⟨l, hline, -⟩ := h.2.1 [] CR [] rfl (by decide) (by decide)
  cases hline

end Terminal
