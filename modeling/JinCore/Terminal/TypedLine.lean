import JinCore.Terminal.PtyInputGate

/-!
# The typed line and the audited line

`TypedLine` says what stands on the line at the prompt, with no cap: characters are appended,
Backspace takes the last one, Ctrl-C and Ctrl-U the line, Ctrl-W the last word (and the blanks after
it), well-formed escape sequences nothing.  `PtyInputGate` follows it as long as each byte is
`Followed`: then a line that is not blank is never forwarded without being given to the audit.

* `TypedLine.byte`, `append_encodeChar`  the typed line; a UTF-8 character is appended;
* `GateComplete`                 every Enter ends a step, and the step has the line it ends;
* `InStep`, `inStep_byte`        the gate follows the typed line, and one byte keeps it so;
* `stepsComplete_feedLoop`       the steps of a chunk;
* `gate_complete`, `gate_hides_enter`.
-/

namespace Terminal

structure TypedLine where
  line : List Char
  decoder : StringDecoder
  escape : EscapeState
  deriving DecidableEq, Repr

/-- the last word of a line goes, with the blanks after it -/
def eraseLastWord (l : List Char) : List Char :=
  (l.rdropWhile isSpace).rdropWhile fun c => !isSpace c

def isPrintable (b : UInt8) : Bool := decide (0x20 ≤ b ∧ b ≤ 0x7E)

namespace TypedLine

def empty : TypedLine := ⟨[], .fresh, .none⟩

/-- what an Enter would send: an incomplete character counts as U+FFFD -/
def text (t : TypedLine) : List Char := t.line ++ t.decoder.flush

def key (t : TypedLine) (b : UInt8) : TypedLine :=
  if b = ESC then { t with escape := .esc }
  else if isEnter b then empty
  else if b = BACKSPACE ∨ b = DEL then { t with line := t.line.dropLast }
  else if b = CTRL_C ∨ b = CTRL_U then { t with line := [], decoder := .fresh }
  else if b = CTRL_W then { t with line := eraseLastWord t.line }
  else if b < 0x20 then t
  else { t with decoder := (t.decoder.write b).1, line := t.line ++ (t.decoder.write b).2 }

/-- of a sequence that is not well formed only the bytes before the wrong one are dropped -/
def byte (t : TypedLine) (b : UInt8) : TypedLine :=
  match t.escape with
  | .none => t.key b
  | .esc =>
    if isPrintable b then
      { t with escape := if b = 0x5B then .csi else if b = 0x4F then .ss3 else .none }
    else { t with escape := .none }.key b
  | .csi =>
    if 0x20 ≤ b ∧ b < 0x40 then t
    else if 0x40 ≤ b ∧ b ≤ 0x7E then { t with escape := .none }
    else { t with escape := .none }.key b
  | .ss3 => if isPrintable b then { t with escape := .none } else { t with escape := .none }.key b

end TypedLine

/-- a byte of a character: no control byte and no DEL -/
def isText (b : UInt8) : Bool := decide (0x20 ≤ b ∧ b ≠ DEL)

theorem ne_control {b : UInt8} (hb : 0x20 ≤ b) (c : UInt8) (hc : c < 0x20) : b ≠ c := by
  rintro rfl
  exact UInt8.not_le.mpr hc hb

theorem not_isEnter_text {b : UInt8} (hb : isText b = true) : isEnter b = false := by
  have hne := ne_control (of_decide_eq_true hb).1
  rw [isEnter, Bool.or_eq_false_iff, beq_eq_false_iff_ne, beq_eq_false_iff_ne]
  exact ⟨hne CR (by decide), hne LF (by decide)⟩

theorem byte_text {t : TypedLine} {b : UInt8} (ht : t.escape = .none) (hb : isText b = true) :
    t.byte b = { t with
      decoder := (t.decoder.write b).1, line := t.line ++ (t.decoder.write b).2 } := by
  obtain ⟨hlow, hdel⟩ := of_decide_eq_true hb
  have hne := ne_control hlow
  have hbyte : t.byte b = t.key b := by simp only [TypedLine.byte, ht]
  rw [hbyte, TypedLine.key, if_neg (hne ESC (by decide)), not_isEnter_text hb,
    if_neg Bool.false_ne_true, if_neg (not_or_intro (hne BACKSPACE (by decide)) hdel),
    if_neg (not_or_intro (hne CTRL_C (by decide)) (hne CTRL_U (by decide))),
    if_neg (hne CTRL_W (by decide)), if_neg (UInt8.not_lt.mpr hlow)]

theorem run_text {t : TypedLine} {bs : List UInt8} (ht : t.escape = .none)
    (hbs : ∀ b ∈ bs, isText b = true) :
    bs.foldl TypedLine.byte t = { t with
      decoder := (t.decoder.writeAll bs).1, line := t.line ++ (t.decoder.writeAll bs).2 } := by
  induction bs generalizing t with
  | nil =>
    show t = { t with line := t.line ++ [] }
    rw [List.append_nil]
  | cons b bs ih =>
    have hrest := ih (t := { t with
      decoder := (t.decoder.write b).1, line := t.line ++ (t.decoder.write b).2 }) ht
      fun c hc => hbs c (List.mem_cons_of_mem _ hc)
    rw [List.foldl_cons, byte_text ht (hbs b List.mem_cons_self), hrest]
    simp only [StringDecoder.writeAll, List.append_assoc]

theorem isText_ofNat {n : Nat} (h : 0x80 ≤ n) (hn : n < 0x100) : isText (UInt8.ofNat n) = true := by
  have hnat := StringDecoder.toNat_ofNat8 hn
  have hlow : 0x20 ≤ UInt8.ofNat n := UInt8.le_iff_toNat_le.mpr (by rw [hnat]; exact Nat.le_trans (by decide) h)
  have hdel : UInt8.ofNat n ≠ DEL := by
    intro heq
    have htoNat := congrArg UInt8.toNat heq
    rw [hnat] at htoNat
    have h127 : n = 127 := htoNat
    omega
  exact decide_eq_true ⟨hlow, hdel⟩

/-- a character that is no control character is appended, whatever the length of its encoding -/
theorem append_encodeChar {t : TypedLine} {c : Char} (ht : t.escape = .none)
    (hd : t.decoder = .fresh) (hlow : 0x20 ≤ c.toNat) (hdel : c.toNat ≠ 0x7F) :
    (String.utf8EncodeChar c).foldl TypedLine.byte t = { t with line := t.line ++ [c] } := by
  have hrange := JsString.char_range c
  have htext : ∀ b ∈ String.utf8EncodeChar c, isText b = true := by
    intro b hb
    rw [String.utf8EncodeChar] at hb
    split at hb
    next hascii =>
      have hnat := StringDecoder.toNat_ofNat8 (n := c.toNat) (Nat.lt_of_le_of_lt hascii (by decide))
      rw [List.mem_singleton.mp hb]
      refine decide_eq_true ⟨UInt8.le_iff_toNat_le.mpr ?_, fun heq => hdel ?_⟩
      · show 0x20 ≤ (UInt8.ofNat c.toNat).toNat
        rw [hnat]
        exact hlow
      · have htoNat := congrArg UInt8.toNat heq
        exact hnat.symm.trans htoNat
    next =>
      split at hb
      next =>
        simp only [List.mem_cons, List.not_mem_nil, or_false] at hb
        rcases hb with rfl | rfl <;> exact isText_ofNat (by omega) (by omega)
      next =>
        split at hb
        next =>
          simp only [List.mem_cons, List.not_mem_nil, or_false] at hb
          rcases hb with rfl | rfl | rfl <;> exact isText_ofNat (by omega) (by omega)
        next =>
          simp only [List.mem_cons, List.not_mem_nil, or_false] at hb
          rcases hb with rfl | rfl | rfl | rfl <;> exact isText_ofNat (by omega) (by omega)
  rw [run_text ht htext, hd, StringDecoder.writeAll_encodeChar]

/-! ## the claim of the gate -/

/-- a line that is not blank is given to the audit, up to the cap -/
def Recorded (typed : List Char) (line : Option (List Char)) : Prop :=
  typed.all isSpace = false → ∃ l, line = some l ∧
    (l = normalizeLine typed ∨
      (l ≠ [] ∧ l <+: normalizeLine typed ∧ MAX_LINE_CHARS < unitLength typed))

/-- an Enter is the last byte of its step, and the step has the line typed up to it -/
def StepComplete (t : TypedLine) (step : PtyInputStep) : Prop :=
  (∀ b ∈ step.bytes.dropLast, isEnter b = false) ∧
    ∀ b, step.bytes.getLast? = some b → isEnter b = true →
      Recorded (step.bytes.dropLast.foldl TypedLine.byte t).text step.line

/-- steps forwarded one after the other, from a typed line -/
def StepsComplete : TypedLine → List PtyInputStep → Prop
  | _, [] => True
  | t, step :: steps => StepComplete t step ∧ StepsComplete (step.bytes.foldl TypedLine.byte t) steps

def GateComplete (chunks : List (List UInt8)) : Prop :=
  StepsComplete .empty (PtyInputGate.fresh.feedAll chunks).2

/-! ## where the gate follows -/

/-- the gate has the words of the typed line -/
def SameWords (g : PtyInputGate) (t : TypedLine) : Prop :=
  normalizeLine g.line = normalizeLine t.line

def endsInWord (l : List Char) : Bool := l.getLast?.any fun c => !isSpace c

/-- both lines end in a word, or neither (after a Ctrl-W the gate has lost the blanks before the
word, and the typed line has not) -/
def SameEnd (g : PtyInputGate) (t : TypedLine) : Prop := endsInWord g.line = endsInWord t.line

/-- the text of a byte: below the cap a word is continued or started on both sides; above it the
text is dropped, and then it is blank or something has been recorded -/
def TextFollowed (g : PtyInputGate) (t : TypedLine) (text : List Char) : Prop :=
  if unitLength g.line < MAX_LINE_CHARS then
    text.head?.any (fun c => !isSpace c) = true → SameEnd g t
  else text.all isSpace = true ∨ g.line.all isSpace = false

/-- the gate does with a byte what happens to the typed line -/
def Followed (g : PtyInputGate) (t : TypedLine) (b : UInt8) : Prop :=
  if g.escape ≠ .none then isPrintable b = true
  else if isEnter b then t.decoder.flush = [] ∨ (SameWords g t ∧ SameEnd g t)
  else if b = BACKSPACE ∨ b = DEL then SameWords g t ∧ SameEnd g t
  else if b = CTRL_W then SameWords g t ∧ (endsInWord g.line = true ∨ g.line.all isSpace = true)
  else if b < 0x20 then True
  else TextFollowed g t (t.decoder.write b).2

/-- every byte of a stream is followed -/
def AllFollowed : PtyInputGate → TypedLine → List UInt8 → Prop
  | _, _, [] => True
  | g, t, b :: bs => Followed g t b ∧ AllFollowed (g.byte b) (t.byte b) bs

instance decidableFollowed (g : PtyInputGate) (t : TypedLine) (b : UInt8) :
    Decidable (Followed g t b) := by
  unfold Followed TextFollowed SameWords SameEnd
  infer_instance

instance decidableAllFollowed : ∀ g t bs, Decidable (AllFollowed g t bs)
  | _, _, [] => instDecidableTrue
  | g, t, b :: bs =>
    haveI := decidableAllFollowed (g.byte b) (t.byte b) bs
    inferInstanceAs (Decidable (Followed g t b ∧ AllFollowed (g.byte b) (t.byte b) bs))

/-! ## both lines together -/

/-- the cap has cut the line after something that is not blank -/
structure Cut (l typed : List Char) : Prop where
  recorded : l.all isSpace = false
  start : normalizeLine l <+: normalizeLine typed
  words : normalizeLine l ≠ normalizeLine typed
  full : MAX_LINE_CHARS ≤ unitLength l
  longer : MAX_LINE_CHARS < unitLength typed

structure InStep (g : PtyInputGate) (t : TypedLine) : Prop where
  decoder : g.decoder = t.decoder
  escape : g.escape = t.escape
  lines : Blanks.Trails isSpace g.line.reverse t.line.reverse ∨ Cut g.line t.line

theorem inStep_fresh : InStep .fresh .empty := ⟨rfl, rfl, Or.inl .nil⟩

/-! ### lines -/

section

variable {l typed text : List Char}

theorem normalizeLine_eq_nil : normalizeLine l = [] ↔ l.all isSpace = true := by
  have h := Blanks.normalize_eq_nil isSpace_space l.reverse
  rwa [List.reverse_reverse, List.all_reverse] at h

theorem endsInWord_eq (l : List Char) : endsInWord l = Blanks.inWord isSpace l.reverse := by
  rw [endsInWord, Blanks.inWord, List.head?_reverse]

theorem normalizeLine_grows (l text : List Char) :
    normalizeLine l <+: normalizeLine (l ++ text) := by
  have h := Blanks.normalize_grows isSpace_space l.reverse text.reverse
  rwa [← List.reverse_append, List.reverse_reverse, List.reverse_reverse] at h

theorem normalizeLine_ne (l : List Char) (h : text.all isSpace = false) :
    normalizeLine l ≠ normalizeLine (l ++ text) := by
  have h := Blanks.normalize_ne isSpace_space l.reverse (List.all_reverse.trans h)
  rwa [← List.reverse_append, List.reverse_reverse, List.reverse_reverse] at h

theorem unitLength_append (l text : List Char) :
    unitLength (l ++ text) = unitLength l + unitLength text := by
  rw [unitLength, List.map_append, List.sum_append]
  rfl

theorem unitLength_pos (h : text ≠ []) : 0 < unitLength text := by
  cases text with
  | nil => exact absurd rfl h
  | cons c text =>
    have hc : 0 < (JsString.encode c).length := by
      unfold JsString.encode
      split <;> exact Nat.succ_pos _
    exact Nat.add_pos_left hc _

theorem normalizeLine_of_trails (h : Blanks.Trails isSpace l.reverse typed.reverse) :
    normalizeLine l = normalizeLine typed := by
  have h := h.normalize_eq isSpace_space
  rwa [List.reverse_reverse, List.reverse_reverse] at h

theorem unitLength_of_trails (h : Blanks.Trails isSpace l.reverse typed.reverse) :
    unitLength l ≤ unitLength typed := by
  have h := h.sum_le fun c => (JsString.encode c).length
  rwa [List.map_reverse, List.map_reverse, List.sum_reverse, List.sum_reverse] at h

theorem Cut.append (h : Cut l typed) (text : List Char) : Cut l (typed ++ text) where
  recorded := h.recorded
  start := h.start.trans (normalizeLine_grows typed text)
  words heq := h.words (h.start.eq_of_length (Nat.le_antisymm h.start.length_le
    (heq ▸ (normalizeLine_grows typed text).length_le)))
  full := h.full
  longer := unitLength_append typed text ▸ Nat.lt_of_lt_of_le h.longer (Nat.le_add_right _ _)

/-- the text of a byte comes to both lines, or is dropped where that is followed -/
theorem lines_text {g : PtyInputGate} {t : TypedLine}
    (h : Blanks.Trails isSpace g.line.reverse t.line.reverse ∨ Cut g.line t.line)
    (hf : TextFollowed g t text) :
    Blanks.Trails isSpace
        (if unitLength g.line < MAX_LINE_CHARS then g.line ++ text else g.line).reverse
        (t.line ++ text).reverse ∨
      Cut (if unitLength g.line < MAX_LINE_CHARS then g.line ++ text else g.line)
        (t.line ++ text) := by
  rw [TextFollowed] at hf
  split
  next hlt =>
    rw [if_pos hlt] at hf
    rcases h with h | h
    · left
      rw [List.reverse_append, List.reverse_append]
      refine h.append text fun hword => ?_
      rw [← endsInWord_eq, ← endsInWord_eq]
      exact hf hword
    · exact absurd hlt (Nat.not_lt_of_le h.full)
  next hge =>
    rw [if_neg hge] at hf
    rcases h with h | h
    · cases htext : text.all isSpace with
      | true =>
        left
        rw [List.reverse_append]
        exact h.skips fun c hc => List.all_eq_true.mp htext c (List.mem_reverse.mp hc)
      | false =>
        right
        have hne : text ≠ [] := by
          rintro rfl
          cases htext
        have hnormal := normalizeLine_of_trails h
        refine ⟨hf.resolve_left (by simp [htext]), ?_, ?_, Nat.le_of_not_lt hge, ?_⟩
        · rw [hnormal]
          exact normalizeLine_grows t.line text
        · rw [hnormal]
          exact normalizeLine_ne t.line htext
        · have hlonger := unitLength_of_trails h
          have hpos := unitLength_pos hne
          rw [unitLength_append]
          omega
    · exact Or.inr (h.append text)

/-- what is recorded of two such lines -/
theorem recorded_of_lines (h : Blanks.Trails isSpace l.reverse typed.reverse ∨ Cut l typed) :
    Recorded typed (if 0 < (normalizeLine l).length then some (normalizeLine l) else none) := by
  intro htyped
  have hl : l.all isSpace = false := by
    rcases h with h | h
    · have hall := h.all_blank
      rw [List.all_reverse, List.all_reverse] at hall
      rw [hall, htyped]
    · exact h.recorded
  have hne : normalizeLine l ≠ [] := by
    intro hnil
    rw [normalizeLine_eq_nil.mp hnil] at hl
    cases hl
  refine ⟨normalizeLine l, if_pos (List.length_pos_iff.mpr hne), ?_⟩
  rcases h with h | h
  · exact Or.inl (normalizeLine_of_trails h)
  · exact Or.inr ⟨hne, h.start, h.longer⟩

end

/-! ### bytes -/

section

variable {g : PtyInputGate} {t : TypedLine} {b : UInt8}

/-- as long as both have the same words, the cap has cut nothing -/
theorem InStep.trails (h : InStep g t) (hwords : SameWords g t) :
    Blanks.Trails isSpace g.line.reverse t.line.reverse :=
  h.lines.resolve_right fun hcut => hcut.words hwords

theorem inStep_escape (h : InStep g t) (hescape : g.escape ≠ .none) (hb : isPrintable b = true) :
    InStep (g.byte b) (t.byte b) := by
  have hrange := of_decide_eq_true hb
  have hg : g.byte b = g.consumeEscape b := if_pos hescape
  rw [hg]
  cases he : g.escape with
  | none => exact absurd he hescape
  | esc =>
    have ht : t.escape = .esc := h.escape ▸ he
    simp only [PtyInputGate.consumeEscape, TypedLine.byte, he, ht, if_pos hb]
    split
    · exact ⟨h.decoder, rfl, h.lines⟩
    · split <;> exact ⟨h.decoder, rfl, h.lines⟩
  | csi =>
    have ht : t.escape = .csi := h.escape ▸ he
    simp only [PtyInputGate.consumeEscape, TypedLine.byte, he, ht]
    by_cases hfinal : 0x40 ≤ b
    · rw [if_pos ⟨hfinal, hrange.2⟩, if_neg (fun hlow => UInt8.not_le.mpr hlow.2 hfinal),
        if_pos ⟨hfinal, hrange.2⟩]
      exact ⟨h.decoder, rfl, h.lines⟩
    · rw [if_neg (fun hhigh => hfinal hhigh.1), if_pos ⟨hrange.1, UInt8.not_le.mp hfinal⟩]
      exact h
  | ss3 =>
    have ht : t.escape = .ss3 := h.escape ▸ he
    simp only [PtyInputGate.consumeEscape, TypedLine.byte, he, ht, if_pos hb]
    exact ⟨h.decoder, rfl, h.lines⟩

theorem line_backspace (h : InStep g t) (hwords : SameWords g t) (hend : SameEnd g t) :
    Blanks.Trails isSpace g.line.dropLast.reverse t.line.dropLast.reverse := by
  rw [SameEnd, endsInWord_eq, endsInWord_eq] at hend
  have htail := (h.trails hwords).tail hend
  rwa [List.tail_reverse, List.tail_reverse] at htail

theorem line_eraseWord (h : InStep g t) (hwords : SameWords g t)
    (hend : endsInWord g.line = true ∨ g.line.all isSpace = true) :
    Blanks.Trails isSpace
      ((g.line.rdropWhile fun c => !isSpace c).rdropWhile isSpace).reverse
      (eraseLastWord t.line).reverse := by
  rw [endsInWord_eq, ← List.all_reverse] at hend
  have herase := (h.trails hwords).eraseWord hend
  simpa only [eraseLastWord, List.rdropWhile, List.reverse_reverse] using herase

theorem inStep_applyKey (h : InStep g t) (hesc : b ≠ ESC) (henter : isEnter b = false)
    (hescape : g.escape = .none) (hf : Followed g t b) : InStep (g.applyKey b) (t.key b) := by
  rw [Followed, if_neg (not_not_intro hescape), henter, if_neg Bool.false_ne_true] at hf
  rw [PtyInputGate.applyKey, TypedLine.key, if_neg hesc, henter, if_neg Bool.false_ne_true]
  by_cases hback : b = BACKSPACE ∨ b = DEL
  · rw [if_pos hback] at hf
    rw [if_pos hback, if_pos hback]
    exact ⟨h.decoder, h.escape, Or.inl (line_backspace h hf.1 hf.2)⟩
  rw [if_neg hback] at hf
  rw [if_neg hback, if_neg hback]
  by_cases hclear : b = CTRL_C ∨ b = CTRL_U
  · rw [if_pos hclear, if_pos hclear]
    exact ⟨rfl, h.escape, Or.inl .nil⟩
  rw [if_neg hclear, if_neg hclear]
  by_cases hword : b = CTRL_W
  · rw [if_pos hword] at hf
    rw [if_pos hword, if_pos hword]
    exact ⟨h.decoder, h.escape, Or.inl (line_eraseWord h hf.1 hf.2)⟩
  rw [if_neg hword] at hf
  rw [if_neg hword, if_neg hword]
  by_cases hcontrol : b < 0x20
  · rw [if_pos hcontrol, if_pos hcontrol]
    exact h
  · rw [if_neg hcontrol] at hf
    rw [if_neg hcontrol, if_neg hcontrol, h.decoder]
    exact ⟨rfl, h.escape, lines_text h.lines hf⟩

/-- one byte keeps the gate in step -/
theorem inStep_byte (h : InStep g t) (hf : Followed g t b) : InStep (g.byte b) (t.byte b) := by
  by_cases hescape : g.escape = .none
  · have ht : t.byte b = t.key b := by
      have he : t.escape = .none := h.escape ▸ hescape
      simp only [TypedLine.byte, he]
    rw [PtyInputGate.byte, if_neg (not_not_intro hescape), ht]
    by_cases hesc : b = ESC
    · rw [if_pos hesc, TypedLine.key, if_pos hesc]
      exact ⟨h.decoder, rfl, h.lines⟩
    · rw [if_neg hesc]
      cases henter : isEnter b with
      | true =>
        rw [if_pos rfl, TypedLine.key, if_neg hesc, if_pos henter]
        exact ⟨rfl, hescape, Or.inl .nil⟩
      | false =>
        rw [if_neg Bool.false_ne_true]
        exact inStep_applyKey h hesc henter hescape hf
  · rw [Followed, if_pos hescape] at hf
    exact inStep_escape h hescape hf

/-- an Enter that is followed is given the line it ends -/
theorem recorded_takeLine (h : InStep g t) (hescape : g.escape = .none) (henter : isEnter b = true)
    (hf : Followed g t b) : Recorded t.text g.takeLine.2 := by
  rw [Followed, if_neg (not_not_intro hescape), if_pos henter] at hf
  show Recorded (t.line ++ t.decoder.flush)
    (if 0 < (normalizeLine (g.line ++ g.decoder.flush)).length then _ else _)
  rw [h.decoder]
  refine recorded_of_lines ?_
  rcases hf with hf | ⟨hwords, hend⟩
  · rw [hf, List.append_nil, List.append_nil]
    exact h.lines
  · left
    rw [SameEnd, endsInWord_eq, endsInWord_eq] at hend
    rw [List.reverse_append, List.reverse_append]
    exact (h.trails hwords).append t.decoder.flush fun _ => hend

theorem not_isEnter_printable (hb : isPrintable b = true) : isEnter b = false := by
  have hne := ne_control (of_decide_eq_true hb).1
  rw [isEnter, Bool.or_eq_false_iff, beq_eq_false_iff_ne, beq_eq_false_iff_ne]
  exact ⟨hne CR (by decide), hne LF (by decide)⟩

end

/-! ## a whole stream -/

theorem allFollowed_append {g : PtyInputGate} {t : TypedLine} (bs cs : List UInt8) :
    AllFollowed g t (bs ++ cs) ↔
      AllFollowed g t bs ∧ AllFollowed (bs.foldl PtyInputGate.byte g) (bs.foldl TypedLine.byte t) cs := by
  induction bs generalizing g t with
  | nil => exact (and_iff_right True.intro).symm
  | cons b bs ih =>
    rw [List.cons_append, AllFollowed, AllFollowed, ih, and_assoc]
    rfl

theorem inStep_run {g : PtyInputGate} {t : TypedLine} {bs : List UInt8} (h : InStep g t)
    (hf : AllFollowed g t bs) :
    InStep (bs.foldl PtyInputGate.byte g) (bs.foldl TypedLine.byte t) := by
  induction bs generalizing g t with
  | nil => exact h
  | cons b bs ih => exact ih (inStep_byte h hf.1) hf.2

theorem getLast?_concat (held : List UInt8) (b : UInt8) : (held ++ [b]).getLast? = some b := by
  simp

/-- the steps of the loop, `held` being the bytes since the last Enter -/
theorem stepsComplete_feedLoop {g : PtyInputGate} {t : TypedLine} (held data : List UInt8)
    (h : InStep g (held.foldl TypedLine.byte t))
    (hf : AllFollowed g (held.foldl TypedLine.byte t) data)
    (hheld : ∀ b ∈ held, isEnter b = false) :
    StepsComplete t (g.feedLoop held data).2 := by
  induction data generalizing g t held with
  | nil =>
    rw [PtyInputGate.feedLoop]
    by_cases hnil : held = []
    · rw [if_pos hnil]
      exact True.intro
    · rw [if_neg hnil]
      refine ⟨⟨fun b hb => hheld b (List.dropLast_subset held hb), fun b hb henter => ?_⟩, True.intro⟩
      rw [hheld b (List.mem_of_getLast? hb)] at henter
      cases henter
  | cons b data ih =>
    have hbyte := inStep_byte h hf.1
    have hfoldl : (held ++ [b]).foldl TypedLine.byte t
        = (held.foldl TypedLine.byte t).byte b := List.foldl_append ..
    by_cases hkey : g.escape ≠ .none ∨ isEnter b = false
    · rw [PtyInputGate.feedLoop_key hkey]
      refine ih (held ++ [b]) (hfoldl ▸ hbyte) (hfoldl ▸ hf.2) fun c hc => ?_
      rcases List.mem_append.mp hc with hc | hc
      · exact hheld c hc
      · rw [List.mem_singleton.mp hc]
        rcases hkey with hescape | henter
        · have hprintable := hf.1
          rw [Followed, if_pos hescape] at hprintable
          exact not_isEnter_printable hprintable
        · exact henter
    · rw [not_or, ne_eq, not_not, Bool.not_eq_false] at hkey
      rw [PtyInputGate.feedLoop_enter hkey.1 hkey.2]
      refine ⟨⟨?_, fun c _ _ => ?_⟩, ?_⟩
      · rw [List.dropLast_concat]
        exact hheld
      · rw [List.dropLast_concat]
        exact recorded_takeLine h hkey.1 hkey.2 hf.1
      · refine ih [] ?_ ?_ fun c hc => absurd hc List.not_mem_nil
        · exact hfoldl ▸ hbyte
        · exact hfoldl ▸ hf.2

theorem stepsComplete_feed {g : PtyInputGate} {t : TypedLine} {data : List UInt8} (h : InStep g t)
    (hf : AllFollowed g t data) : StepsComplete t (g.feed data).2 :=
  stepsComplete_feedLoop [] data h hf fun _ hb => absurd hb List.not_mem_nil

theorem stepsComplete_append {t : TypedLine} (xs ys : List PtyInputStep) :
    StepsComplete t (xs ++ ys) ↔ StepsComplete t xs ∧
      StepsComplete ((xs.flatMap PtyInputStep.bytes).foldl TypedLine.byte t) ys := by
  induction xs generalizing t with
  | nil => exact (and_iff_right True.intro).symm
  | cons x xs ih =>
    rw [List.cons_append, StepsComplete, StepsComplete, ih, and_assoc, List.flatMap_cons,
      List.foldl_append]

theorem stepsComplete_feedAll {g : PtyInputGate} {t : TypedLine} (chunks : List (List UInt8))
    (h : InStep g t) (hf : AllFollowed g t chunks.flatten) :
    StepsComplete t (g.feedAll chunks).2 := by
  induction chunks generalizing g t with
  | nil => exact True.intro
  | cons data chunks ih =>
    rw [List.flatten_cons, allFollowed_append] at hf
    rw [PtyInputGate.feedAll, stepsComplete_append, PtyInputGate.bytes_feed,
      PtyInputGate.gate_feed]
    exact ⟨stepsComplete_feed h hf.1, ih (inStep_run h hf.1) hf.2⟩

/-- **Where the gate is complete.**  However a stream is cut into chunks, as long as each of its
bytes is followed: every Enter ends its step, and a line that is not blank is given to the audit,
normalized and cut by nothing but the cap. -/
theorem gate_complete (chunks : List (List UInt8))
    (h : AllFollowed .fresh .empty chunks.flatten) : GateComplete chunks :=
  stepsComplete_feedAll chunks inStep_fresh h

/-! ## streams -/

def keys (s : String) : List UInt8 := JsString.utf8Chars s.toList

/-- two messages with an arrow, a Backspace and a Ctrl-W before the Enter -/
def editedLine : List (List UInt8) :=
  [keys "git comit" ++ [DEL, DEL] ++ keys "mit -m  fix" ++ [ESC], keys "[A" ++ [CTRL_W, CR]]

theorem gate_complete_edited : GateComplete editedLine :=
  gate_complete editedLine (by decide)

example : (PtyInputGate.fresh.feedAll editedLine).2.map PtyInputStep.line
    = [none, some "git commit -m".toList] := by decide

/-- an ESC before the Enter, and the gate takes the Enter for the end of a sequence -/
theorem gate_hides_enter : ¬ GateComplete [keys "rm -rf datos" ++ [ESC, CR]] := by
  intro h
  have hstep : StepComplete .empty ⟨keys "rm -rf datos" ++ [ESC, CR], none⟩ := h.1
  obtain ⟨l, hline, -⟩ := hstep.2 CR (by decide) (by decide) (by decide)
  cases hline

/-- text after a Ctrl-W joins the word before it -/
example : (PtyInputGate.fresh.feed (keys "git commit -m fix" ++ [CTRL_W] ++ keys "ok" ++ [CR])).2.map
    PtyInputStep.line = [some "git commit -mok".toList] := by decide

/-- a Ctrl-W after a blank takes the blank only -/
example : (PtyInputGate.fresh.feed (keys "rm a b " ++ [CTRL_W, CR])).2.map PtyInputStep.line
    = [some "rm a b".toList] := by decide

end Terminal
