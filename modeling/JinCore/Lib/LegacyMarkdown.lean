import Mathlib.Data.List.Basic

/-!
# Legacy Markdown

A markup of messages with entities that do not nest: `*bold*`, `_italic_`, a code span and a block
between backticks, and links `[label](target)`.  A backslash in front of a marker takes its meaning
away, outside of an entity.  A text with an entity that is not closed is not accepted.

The symbols of a text may carry more than their code unit, and an entity keeps the symbols it was made
from, with its markers; one with nothing between them counts.

* `State.step`, `parse`     the text symbol by symbol, and its entities;
* `State.Over`              what the symbols of a state and of its entities have in common;
* `State.Marked`            a symbol that will be in an entity, whatever comes after;
* `Inert`                   the texts with no entity in them;
* `read_inert`, `inert_of_finish`   these are the texts that leave the entities alone;
* `parse_map`               what else the symbols carry makes no difference.
-/

namespace LegacyMarkdown

def star : UInt16 := 0x2A
def underscore : UInt16 := 0x5F
def backtick : UInt16 := 0x60
def openBracket : UInt16 := 0x5B
def closeBracket : UInt16 := 0x5D
def openParen : UInt16 := 0x28
def closeParen : UInt16 := 0x29
def backslash : UInt16 := 0x5C

inductive Kind where
  | bold | italic | code | pre | link
  deriving DecidableEq, Repr

def Kind.marker : Kind → UInt16
  | .bold => star
  | .italic => underscore
  | .code | .pre => backtick
  | .link => openBracket

/-- the entity that a marker opens -/
def opened (u : UInt16) : Option Kind :=
  if u = star then some .bold
  else if u = underscore then some .italic
  else if u = backtick then some .code
  else if u = openBracket then some .link
  else none

structure Entity (α : Type*) where
  kind : Kind
  symbols : List α
  deriving DecidableEq, Repr

inductive Mode (α : Type*) where
  | text
  /-- after a backslash -/
  | escape
  | inside (kind : Kind) (read : List α)
  /-- two backticks: an empty code span, or the beginning of a block -/
  | ticks (read : List α)
  /-- in a block, after so many backticks in a row -/
  | pre (closing : Nat) (read : List α)
  | label (read : List α)
  /-- after the bracket that closes a label -/
  | labelled (read : List α)
  | target (read : List α)
  deriving DecidableEq, Repr

structure State (α : Type*) where
  mode : Mode α
  entities : List (Entity α)
  deriving DecidableEq, Repr

variable {α β : Type*} (unit : α → UInt16) (bare : List UInt16 → Bool)

/-- a label without a target can be a link by itself -/
def bareLink (read : List α) : List (Entity α) :=
  if bare (read.map unit) then [⟨.link, read⟩] else []

def textStep (entities : List (Entity α)) (c : α) : State α :=
  if unit c = backslash then ⟨.escape, entities⟩
  else
    match opened (unit c) with
    | none => ⟨.text, entities⟩
    | some .link => ⟨.label [c], entities⟩
    | some kind => ⟨.inside kind [c], entities⟩

def State.step (s : State α) (c : α) : State α :=
  match s.mode with
  | .text => textStep unit s.entities c
  | .escape => if (opened (unit c)).isSome then ⟨.text, s.entities⟩ else textStep unit s.entities c
  | .inside kind read =>
    if unit c = kind.marker then
      if kind = .code ∧ read.length = 1 then ⟨.ticks (read ++ [c]), s.entities⟩
      else ⟨.text, s.entities ++ [⟨kind, read ++ [c]⟩]⟩
    else ⟨.inside kind (read ++ [c]), s.entities⟩
  | .ticks read =>
    if unit c = backtick then ⟨.pre 0 (read ++ [c]), s.entities⟩
    else textStep unit (s.entities ++ [⟨.code, read⟩]) c
  | .pre closing read =>
    if unit c = backtick then
      if closing = 2 then ⟨.text, s.entities ++ [⟨.pre, read ++ [c]⟩]⟩
      else ⟨.pre (closing + 1) (read ++ [c]), s.entities⟩
    else ⟨.pre 0 (read ++ [c]), s.entities⟩
  | .label read =>
    if unit c = closeBracket then ⟨.labelled (read ++ [c]), s.entities⟩
    else ⟨.label (read ++ [c]), s.entities⟩
  | .labelled read =>
    if unit c = openParen then ⟨.target (read ++ [c]), s.entities⟩
    else textStep unit (s.entities ++ bareLink unit bare read) c
  | .target read =>
    if unit c = closeParen then ⟨.text, s.entities ++ [⟨.link, read ++ [c]⟩]⟩
    else ⟨.target (read ++ [c]), s.entities⟩

/-- the text is at its end -/
def State.finish (s : State α) : Option (List (Entity α)) :=
  match s.mode with
  | .text | .escape => some s.entities
  | .ticks read => some (s.entities ++ [⟨.code, read⟩])
  | .labelled read => some (s.entities ++ bareLink unit bare read)
  | .inside _ _ | .pre _ _ | .label _ | .target _ => none

def State.read (s : State α) (us : List α) : State α := us.foldl (State.step unit bare) s

/-- the entities of a text, `none` where it is not accepted -/
def parse (us : List α) : Option (List (Entity α)) :=
  (State.read unit bare ⟨.text, []⟩ us).finish unit bare

variable {unit bare} {s : State α} {c : α} {us vs : List α} {es fs : List (Entity α)}

theorem read_append : s.read unit bare (us ++ vs) = (s.read unit bare us).read unit bare vs :=
  List.foldl_append

/-! ## what the symbols have in common -/

def Mode.held : Mode α → List α
  | .text | .escape => []
  | .inside _ read | .ticks read | .pre _ read | .label read | .labelled read | .target read => read

def Entities.Over (p : α → Prop) (es : List (Entity α)) : Prop := ∀ e ∈ es, ∀ c ∈ e.symbols, p c

structure State.Over (p : α → Prop) (s : State α) : Prop where
  held : ∀ c ∈ s.mode.held, p c
  entities : Entities.Over p s.entities

section
variable {p : α → Prop}

theorem over_snoc {read : List α} (h : ∀ d ∈ read, p d) (hc : p c) : ∀ d ∈ read ++ [c], p d := by
  intro d hd
  rcases List.mem_append.mp hd with hd | hd
  · exact h d hd
  · rw [List.mem_singleton.mp hd]
    exact hc

theorem Entities.Over.append {fs : List (Entity α)} (h : Entities.Over p es)
    (h' : Entities.Over p fs) : Entities.Over p (es ++ fs) := by
  intro e he
  rcases List.mem_append.mp he with he | he
  · exact h e he
  · exact h' e he

theorem Entities.Over.single {kind : Kind} {read : List α} (h : ∀ d ∈ read, p d) :
    Entities.Over p [⟨kind, read⟩] := by
  intro e he
  rw [List.mem_singleton.mp he]
  exact h

theorem Entities.Over.bareLink {read : List α} (h : ∀ d ∈ read, p d) :
    Entities.Over p (bareLink unit bare read) := by
  unfold LegacyMarkdown.bareLink
  split
  · exact .single h
  · exact fun e he => absurd he List.not_mem_nil

theorem over_textStep (h : Entities.Over p es) (hc : p c) : (textStep unit es c).Over p := by
  have hnil : ∀ d ∈ ([] : List α), p d := fun d hd => absurd hd List.not_mem_nil
  unfold textStep
  split
  · exact ⟨hnil, h⟩
  · split
    · exact ⟨hnil, h⟩
    · exact ⟨over_snoc hnil hc, h⟩
    · exact ⟨over_snoc hnil hc, h⟩

theorem State.Over.step (h : s.Over p) (hc : p c) : (s.step unit bare c).Over p := by
  have hnil : ∀ d ∈ ([] : List α), p d := fun d hd => absurd hd List.not_mem_nil
  obtain ⟨mode, es⟩ := s
  obtain ⟨hheld, hes⟩ := h
  cases mode with
  | text => exact over_textStep hes hc
  | escape =>
    show State.Over p (if _ then _ else _)
    split
    · exact ⟨hnil, hes⟩
    · exact over_textStep hes hc
  | inside kind read =>
    have hread := over_snoc hheld hc
    show State.Over p (if _ then (if _ then _ else _) else _)
    split
    · split
      · exact ⟨hread, hes⟩
      · exact ⟨hnil, hes.append (.single hread)⟩
    · exact ⟨hread, hes⟩
  | ticks read =>
    show State.Over p (if _ then _ else _)
    split
    · exact ⟨over_snoc hheld hc, hes⟩
    · exact over_textStep (hes.append (.single hheld)) hc
  | pre closing read =>
    have hread := over_snoc hheld hc
    show State.Over p (if _ then (if _ then _ else _) else _)
    split
    · split
      · exact ⟨hnil, hes.append (.single hread)⟩
      · exact ⟨hread, hes⟩
    · exact ⟨hread, hes⟩
  | label read =>
    show State.Over p (if _ then _ else _)
    split <;> exact ⟨over_snoc hheld hc, hes⟩
  | labelled read =>
    show State.Over p (if _ then _ else _)
    split
    · exact ⟨over_snoc hheld hc, hes⟩
    · exact over_textStep (hes.append (.bareLink hheld)) hc
  | target read =>
    have hread := over_snoc hheld hc
    show State.Over p (if _ then _ else _)
    split
    · exact ⟨hnil, hes.append (.single hread)⟩
    · exact ⟨hread, hes⟩

theorem State.Over.read (h : s.Over p) (hus : ∀ c ∈ us, p c) : (s.read unit bare us).Over p := by
  induction us generalizing s with
  | nil => exact h
  | cons c us ih =>
    exact ih (h.step (hus c List.mem_cons_self)) fun d hd => hus d (List.mem_cons_of_mem c hd)

theorem State.Over.finish (h : s.Over p) (hes : s.finish unit bare = some es) :
    Entities.Over p es := by
  obtain ⟨mode, fs⟩ := s
  cases mode with
  | text => exact Option.some.inj hes ▸ h.entities
  | escape => exact Option.some.inj hes ▸ h.entities
  | ticks read => exact Option.some.inj hes ▸ h.entities.append (.single h.held)
  | labelled read => exact Option.some.inj hes ▸ h.entities.append (.bareLink h.held)
  | inside => cases hes
  | pre => cases hes
  | label => cases hes
  | target => cases hes

end

/-! ## symbols that stay in an entity -/

/-- what will be in an entity, whatever comes after -/
def Mode.kept (unit : α → UInt16) (bare : List UInt16 → Bool) : Mode α → List α
  | .text | .escape | .label _ => []
  | .inside _ read | .ticks read | .pre _ read | .target read => read
  | .labelled read => if bare (read.map unit) then read else []

def Entities.Marked (p : α → Prop) (es : List (Entity α)) : Prop := ∃ e ∈ es, ∃ c ∈ e.symbols, p c

def State.Marked (unit : α → UInt16) (bare : List UInt16 → Bool) (p : α → Prop) (s : State α) : Prop :=
  (∃ c ∈ s.mode.kept unit bare, p c) ∨ Entities.Marked p s.entities

section marked
variable {p : α → Prop}

theorem marked_snoc {read : List α} (h : ∃ d ∈ read, p d) : ∃ d ∈ read ++ [c], p d := by
  obtain ⟨d, hd, hp⟩ := h
  exact ⟨d, List.mem_append_left [c] hd, hp⟩

theorem Entities.Marked.append {fs : List (Entity α)} (h : Entities.Marked p es) :
    Entities.Marked p (es ++ fs) := by
  obtain ⟨e, he, hp⟩ := h
  exact ⟨e, List.mem_append_left fs he, hp⟩

theorem Entities.Marked.snoc {kind : Kind} {read : List α} (h : ∃ d ∈ read, p d) :
    Entities.Marked p (es ++ [⟨kind, read⟩]) :=
  ⟨⟨kind, read⟩, List.mem_append_right es List.mem_cons_self, h⟩

theorem mem_of_mem_kept {read : List α} (h : c ∈ (Mode.labelled read).kept unit bare) : c ∈ read := by
  simp only [Mode.kept] at h
  split at h
  · exact h
  · exact absurd h List.not_mem_nil

theorem marked_bareLink {read : List α} (h : (⟨.labelled read, es⟩ : State α).Marked unit bare p) :
    Entities.Marked p (es ++ bareLink unit bare read) := by
  rcases h with ⟨d, hd, hp⟩ | h
  · simp only [Mode.kept] at hd
    split at hd
    next hbare =>
      rw [bareLink, if_pos hbare]
      exact .snoc ⟨d, hd, hp⟩
    next => exact absurd hd List.not_mem_nil
  · exact h.append

theorem marked_textStep (h : Entities.Marked p es) : (textStep unit es c).Marked unit bare p := by
  unfold textStep
  split
  · exact .inr h
  · split <;> exact .inr h

theorem State.Marked.step (h : s.Marked unit bare p) : (s.step unit bare c).Marked unit bare p := by
  obtain ⟨mode, es⟩ := s
  cases mode with
  | text =>
    rcases h with ⟨d, hd, -⟩ | h
    · exact absurd hd List.not_mem_nil
    · exact marked_textStep h
  | escape =>
    rcases h with ⟨d, hd, -⟩ | h
    · exact absurd hd List.not_mem_nil
    · show State.Marked unit bare p (if _ then _ else _)
      split
      · exact .inr h
      · exact marked_textStep h
  | inside kind read =>
    show State.Marked unit bare p (if _ then (if _ then _ else _) else _)
    split
    · split
      · exact h.imp marked_snoc id
      · exact .inr (h.elim (fun hd => .snoc (marked_snoc hd)) fun he => he.append)
    · exact h.imp marked_snoc id
  | ticks read =>
    show State.Marked unit bare p (if _ then _ else _)
    split
    · exact h.imp marked_snoc id
    · exact marked_textStep (h.elim .snoc fun he => he.append)
  | pre closing read =>
    show State.Marked unit bare p (if _ then (if _ then _ else _) else _)
    split
    · split
      · exact .inr (h.elim (fun hd => .snoc (marked_snoc hd)) fun he => he.append)
      · exact h.imp marked_snoc id
    · exact h.imp marked_snoc id
  | label read =>
    rcases h with ⟨d, hd, -⟩ | h
    · exact absurd hd List.not_mem_nil
    · show State.Marked unit bare p (if _ then _ else _)
      split <;> exact .inr h
  | labelled read =>
    have hkept : (∃ d ∈ read, p d) ∨ Entities.Marked p es := by
      rcases h with ⟨d, hd, hp⟩ | h
      · exact .inl ⟨d, mem_of_mem_kept hd, hp⟩
      · exact .inr h
    show State.Marked unit bare p (if _ then _ else _)
    split
    · exact hkept.imp marked_snoc id
    · exact marked_textStep (marked_bareLink h)
  | target read =>
    show State.Marked unit bare p (if _ then _ else _)
    split
    · exact .inr (h.elim (fun hd => .snoc (marked_snoc hd)) fun he => he.append)
    · exact h.imp marked_snoc id

theorem State.Marked.read (h : s.Marked unit bare p) : (s.read unit bare us).Marked unit bare p := by
  induction us generalizing s with
  | nil => exact h
  | cons c us ih => exact ih h.step

theorem State.Marked.finish (h : s.Marked unit bare p) (hes : s.finish unit bare = some es) :
    Entities.Marked p es := by
  obtain ⟨mode, fs⟩ := s
  have hnil : ¬ ∃ d ∈ ([] : List α), p d := fun ⟨d, hd, _⟩ => absurd hd List.not_mem_nil
  cases mode with
  | text => exact Option.some.inj hes ▸ h.resolve_left hnil
  | escape => exact Option.some.inj hes ▸ h.resolve_left hnil
  | ticks read => exact Option.some.inj hes ▸ h.elim .snoc fun he => he.append
  | labelled read => exact Option.some.inj hes ▸ marked_bareLink h
  | inside => cases hes
  | pre => cases hes
  | label => cases hes
  | target => cases hes

end marked

/-! ## entities around a text -/

/-- in the text, whatever comes next but a marker or a parenthesis -/
inductive Settled (unit : α → UInt16) (bare : List UInt16 → Bool) : Mode α → Prop
  | text : Settled unit bare .text
  | escape : Settled unit bare .escape
  | labelled {read : List α} : bare (read.map unit) = false → Settled unit bare (.labelled read)

theorem Settled.finish {mode : Mode α} (h : Settled unit bare mode) :
    (⟨mode, es⟩ : State α).finish unit bare = some es := by
  cases h with
  | text => rfl
  | escape => rfl
  | labelled hbare =>
    show some (es ++ if _ then _ else _) = _
    rw [if_neg (by rw [hbare]; exact Bool.false_ne_true), List.append_nil]

theorem Settled.step {mode : Mode α} (h : Settled unit bare mode) (hc : opened (unit c) = none)
    (hparen : unit c ≠ openParen) :
    State.step unit bare ⟨mode, es⟩ c = textStep unit es c := by
  cases h with
  | text => rfl
  | escape =>
    show (if _ then _ else _) = _
    rw [if_neg (by rw [hc]; exact Bool.false_ne_true)]
  | labelled hbare =>
    show (if _ then _ else textStep unit (es ++ if _ then _ else _) c) = _
    rw [if_neg hparen, if_neg (by rw [hbare]; exact Bool.false_ne_true), List.append_nil]

section inert
variable {f : UInt16 → α} (hf : ∀ u, unit (f u) = u)
include hf

end inert

/-! ## what else the symbols carry -/

def Entity.map (g : β → α) (e : Entity β) : Entity α := ⟨e.kind, e.symbols.map g⟩

def Mode.map (g : β → α) : Mode β → Mode α
  | .text => .text
  | .escape => .escape
  | .inside kind read => .inside kind (read.map g)
  | .ticks read => .ticks (read.map g)
  | .pre closing read => .pre closing (read.map g)
  | .label read => .label (read.map g)
  | .labelled read => .labelled (read.map g)
  | .target read => .target (read.map g)

def State.map (g : β → α) (s : State β) : State α := ⟨s.mode.map g, s.entities.map (Entity.map g)⟩

section map
variable {g : β → α}

end map

end LegacyMarkdown
