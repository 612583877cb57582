import JinCore.Js.StringDecoder
import JinCore.Lib.Blanks

/-!
# The gate of the interactive terminal

`PtyInputGate` rebuilds the line that the owner is typing, byte by byte, so that it can be audited
before its Enter goes to the shell.  A line is the list of its code points; its cap counts UTF-16
units.

* `PtyInputGate.feed`, `takeLine`, `consumeEscape`, `applyKey`, `reset`   the class;
* `PtyInputGate.byte`, `feedLoop_enter`, `feedLoop_key`   one turn of the loop of `feed`;
* `bytes_feed`                   the steps hold the bytes that were fed, in their order.
-/

namespace Terminal

/-- a code point that `\s` matches -/
def isSpace (c : Char) : Bool := decide (c.toNat < 0x10000) && JsString.isSpace (.ofNat c.toNat)

/-- the `length` of a line -/
def unitLength (l : List Char) : Nat := (l.map fun c => (JsString.encode c).length).sum

/-- `line.replace(/\s+/g, ' ').trim()` -/
def normalizeLine (l : List Char) : List Char := Blanks.normalize isSpace ' ' l

theorem isSpace_space : isSpace ' ' = true := by decide

def MAX_LINE_CHARS : Nat := 4096

def ESC : UInt8 := 0x1B
def CR : UInt8 := 0x0D
def LF : UInt8 := 0x0A
def BACKSPACE : UInt8 := 0x08
def DEL : UInt8 := 0x7F
def CTRL_C : UInt8 := 0x03
def CTRL_U : UInt8 := 0x15
def CTRL_W : UInt8 := 0x17

def isEnter (b : UInt8) : Bool := b == CR || b == LF

inductive EscapeState where
  | none | esc | csi | ss3
  deriving DecidableEq, Repr

/-- keys to forward; `line` is to be audited before, `none` when there is nothing to audit -/
structure PtyInputStep where
  bytes : List UInt8
  line : Option (List Char)
  deriving DecidableEq, Repr

structure PtyInputGate where
  line : List Char
  decoder : StringDecoder
  escape : EscapeState
  deriving DecidableEq, Repr

namespace PtyInputGate

def fresh : PtyInputGate := ⟨[], .fresh, .none⟩

/-- whatever was typed is forgotten -/
def reset (_ : PtyInputGate) : PtyInputGate := fresh

def takeLine (g : PtyInputGate) : PtyInputGate × Option (List Char) :=
  let line := normalizeLine (g.line ++ g.decoder.flush)
  ({ g with line := [], decoder := .fresh }, if 0 < line.length then some line else none)

def consumeEscape (g : PtyInputGate) (b : UInt8) : PtyInputGate :=
  match g.escape with
  | .esc =>
    if b = 0x5B then { g with escape := .csi }
    else if b = 0x4F then { g with escape := .ss3 }
    else { g with escape := .none }
  | .csi => if 0x40 ≤ b ∧ b ≤ 0x7E then { g with escape := .none } else g
  | _ => { g with escape := .none }

def applyKey (g : PtyInputGate) (b : UInt8) : PtyInputGate :=
  if b = BACKSPACE ∨ b = DEL then { g with line := g.line.dropLast }
  else if b = CTRL_C ∨ b = CTRL_U then { g with line := [], decoder := .fresh }
  -- `replace(/\s*\S*$/, '')`: the last run of non-blanks, and the run of blanks before it
  else if b = CTRL_W then
    { g with line := (g.line.rdropWhile fun c => !isSpace c).rdropWhile isSpace }
  else if b < 0x20 then g
  else
    { g with
      decoder := (g.decoder.write b).1
      line := if unitLength g.line < MAX_LINE_CHARS then g.line ++ (g.decoder.write b).2 else g.line }

/-- the loop of `feed`; `held` are the bytes from `start` on -/
def feedLoop (g : PtyInputGate) (held : List UInt8) :
    List UInt8 → PtyInputGate × List PtyInputStep
  | [] => (g, if held = [] then [] else [⟨held, none⟩])
  | b :: data =>
    if g.escape ≠ .none then feedLoop (g.consumeEscape b) (held ++ [b]) data
    else if b = ESC then feedLoop { g with escape := .esc } (held ++ [b]) data
    else if isEnter b then
      ((feedLoop g.takeLine.1 [] data).1,
        ⟨held ++ [b], g.takeLine.2⟩ :: (feedLoop g.takeLine.1 [] data).2)
    else feedLoop (g.applyKey b) (held ++ [b]) data

def feed (g : PtyInputGate) (data : List UInt8) : PtyInputGate × List PtyInputStep :=
  feedLoop g [] data

/-- chunks fed in their order -/
def feedAll (g : PtyInputGate) : List (List UInt8) → PtyInputGate × List PtyInputStep
  | [] => (g, [])
  | data :: chunks =>
    ((feedAll (g.feed data).1 chunks).1, (g.feed data).2 ++ (feedAll (g.feed data).1 chunks).2)

/-! ## one byte -/

/-- the gate after a byte -/
def byte (g : PtyInputGate) (b : UInt8) : PtyInputGate :=
  if g.escape ≠ .none then g.consumeEscape b
  else if b = ESC then { g with escape := .esc }
  else if isEnter b then g.takeLine.1
  else g.applyKey b

theorem not_isEnter_ESC : isEnter ESC = false := by decide

theorem feedLoop_enter {g : PtyInputGate} {b : UInt8} (hescape : g.escape = .none)
    (hb : isEnter b = true) (held data : List UInt8) :
    g.feedLoop held (b :: data) = (((g.byte b).feedLoop [] data).1,
      ⟨held ++ [b], g.takeLine.2⟩ :: ((g.byte b).feedLoop [] data).2) := by
  have hesc : b ≠ ESC := by
    rintro rfl
    rw [not_isEnter_ESC] at hb
    cases hb
  have hbyte : g.byte b = g.takeLine.1 := by
    rw [byte, if_neg (not_not_intro hescape), if_neg hesc, if_pos hb]
  rw [feedLoop, if_neg (not_not_intro hescape), if_neg hesc, if_pos hb, hbyte]

theorem feedLoop_key {g : PtyInputGate} {b : UInt8}
    (h : g.escape ≠ .none ∨ isEnter b = false) (held data : List UInt8) :
    g.feedLoop held (b :: data) = (g.byte b).feedLoop (held ++ [b]) data := by
  rw [feedLoop, byte]
  by_cases hescape : g.escape = .none
  · have hb := h.resolve_left (not_not_intro hescape)
    rw [if_neg (not_not_intro hescape), if_neg (not_not_intro hescape)]
    by_cases hesc : b = ESC
    · rw [if_pos hesc, if_pos hesc]
    · rw [if_neg hesc, if_neg hesc, if_neg (by simp [hb]), if_neg (by simp [hb])]
  · rw [if_pos hescape, if_pos hescape]

theorem gate_feedLoop (g : PtyInputGate) (held data : List UInt8) :
    (g.feedLoop held data).1 = data.foldl byte g := by
  induction data generalizing g held with
  | nil => rfl
  | cons b data ih =>
    rw [List.foldl_cons]
    by_cases h : g.escape ≠ .none ∨ isEnter b = false
    · rw [feedLoop_key h, ih]
    · rw [not_or, ne_eq, not_not, Bool.not_eq_false] at h
      rw [feedLoop_enter h.1 h.2, ih]

theorem gate_feed (g : PtyInputGate) (data : List UInt8) : (g.feed data).1 = data.foldl byte g :=
  gate_feedLoop g [] data

theorem bytes_feedLoop (g : PtyInputGate) (held data : List UInt8) :
    (g.feedLoop held data).2.flatMap PtyInputStep.bytes = held ++ data := by
  induction data generalizing g held with
  | nil =>
    rw [feedLoop, List.append_nil]
    by_cases h : held = []
    · rw [if_pos h, h]
      rfl
    · rw [if_neg h]
      exact List.append_nil held
  | cons b data ih =>
    by_cases h : g.escape ≠ .none ∨ isEnter b = false
    · rw [feedLoop_key h, ih, List.append_assoc]
      rfl
    · rw [not_or, ne_eq, not_not, Bool.not_eq_false] at h
      rw [feedLoop_enter h.1 h.2, List.flatMap_cons, ih, List.append_assoc]
      rfl

/-- what is forwarded is what was fed -/
theorem bytes_feed (g : PtyInputGate) (data : List UInt8) :
    (g.feed data).2.flatMap PtyInputStep.bytes = data := bytes_feedLoop g [] data

end PtyInputGate

end Terminal
