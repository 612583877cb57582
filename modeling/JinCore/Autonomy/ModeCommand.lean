import JinCore.Autonomy.Service
import JinCore.Js.LowerCase
import JinCore.Js.Number
import JinCore.Lib.Blanks

/-!
# The `/mode` command (`autonomy.logic.ts`, `telegram-bot.service.ts`)

The aliases are looked up in an object, which also has the properties of `Object.prototype`.

* `tokens`, `MODE_ALIASES`, `parseModeCommand`;
* `requiresDualConfirmOf`     `requiresDualConfirm` of whatever the look-up returned;
* `NeverGuesses`              what the command promises;
* `neverGuesses_iff`          it keeps the promise unless the first word is such a property.
-/

namespace Autonomy
open JsString

/-! ## the aliases -/

def MODE_ALIASES : List (JsString × AutonomyMode) :=
  [(lit "safe", .supervised), (lit "seguro", .supervised), (lit "supervised", .supervised),
    (lit "supervisado", .supervised), (lit "hitl", .supervised), (lit "semi", .semiAuto),
    (lit "semiauto", .semiAuto), (lit "semi-auto", .semiAuto), (lit "semiautomatico", .semiAuto),
    (lit "semiautomático", .semiAuto), (lit "auto", .auto), (lit "automatico", .auto),
    (lit "automático", .auto)]

/-- what every object inherits from `Object.prototype` -/
def objectPrototype : List JsString :=
  [lit "constructor", lit "__proto__", lit "hasOwnProperty", lit "isPrototypeOf",
    lit "propertyIsEnumerable", lit "toLocaleString", lit "toString", lit "valueOf",
    lit "__defineGetter__", lit "__defineSetter__", lit "__lookupGetter__", lit "__lookupSetter__"]

/-- a mode, or an inherited value that is not `undefined` -/
inductive ModeValue where
  | mode (mode : AutonomyMode)
  | inherited (name : JsString)
  deriving DecidableEq, Repr

/-- `MODE_ALIASES[name]` -/
def modeAlias (name : JsString) : Option ModeValue :=
  match MODE_ALIASES.lookup name with
  | some mode => some (.mode mode)
  | none => if name ∈ objectPrototype then some (.inherited name) else none

/-! ## the command -/

inductive ModeCommand where
  | status
  | change (mode : ModeValue) (hours : Option Int)
  | invalid
  deriving DecidableEq, Repr

/-- `text.split(/\s+/).filter(Boolean)` -/
def tokens (text : JsString) : List JsString :=
  ((text.units.splitOnP isSpace).filter (· ≠ [])).map JsString.mk

/-- `Number(text)`, where it is an integer above zero -/
def positiveInteger (text : JsString) : Option Int := (number text).integer?.filter (0 < ·)

section
variable (casing : CaseMapping)

/-- `none` is `undefined` -/
def commandTokens (args : Option JsString) : List JsString :=
  tokens (toLowerCase casing ⟨Blanks.trim isSpace (args.getD (lit "")).units⟩)

def parseModeCommand (args : Option JsString) : ModeCommand :=
  match commandTokens casing args with
  | [] => .status
  | [name] =>
    match modeAlias name with
    | none => .invalid
    | some mode => .change mode none
  | [name, hours] =>
    match modeAlias name with
    | none => .invalid
    | some mode =>
      match positiveInteger hours with
      | none => .invalid
      | some hours => .change mode (some hours)
  | _ => .invalid

end

/-! ## the change -/

/-- `AUTONOMY_MODES.indexOf(mode)` -/
def ordinalOf : ModeValue → Int
  | .mode mode => autonomyOrdinal mode
  | .inherited _ => -1

def requiresDualConfirmOf (current : AutonomyMode) (target : ModeValue) : Bool :=
  decide (target ≠ .mode .supervised) && decide (ordinalOf target ≥ ordinalOf (.mode current))

theorem requiresDualConfirmOf_mode (current target : AutonomyMode) :
    requiresDualConfirmOf current (.mode target) = requiresDualConfirm current target := by
  cases current <;> cases target <;> decide

/-- an inherited value is taken to be the strictest mode -/
theorem requiresDualConfirmOf_inherited (current : AutonomyMode) (name : JsString) :
    requiresDualConfirmOf current (.inherited name) = false := by
  cases current <;> rfl

/-- `requestModeChange` goes on to write the mode, without an approval, when this is false -/
theorem requestModeChange_writes (service : AutonomyService) (row : Option AutonomyRow)
    (id : Common.CallId) (input : ModeChangeInput) (reply : Reply) (now : Int)
    (hreply : reply.fate = .ok) :
    (∃ hours pc, (requestModeChange service row id input reply (.getState now)).next
      = .goto (.write hours pc)) ↔
      requiresDualConfirmOf (getState row now).mode (.mode input.mode) = false := by
  rw [requiresDualConfirmOf_mode, requestModeChange, if_pos hreply]
  cases requiresDualConfirm (getState row now).mode input.mode with
  | true => simp
  | false => simp

/-- the promise: blank arguments ask for the status, and a change is asked for by an alias and, if at
all, a positive integer; without an approval it goes to `supervised` or to a stricter mode -/
structure NeverGuesses (casing : CaseMapping) (args : Option JsString) : Prop where
  status : parseModeCommand casing args = .status ↔ (args.getD (lit "")).isBlank = true
  change : ∀ mode hours, parseModeCommand casing args = .change mode hours →
    ∃ name target, (name, target) ∈ MODE_ALIASES ∧ mode = .mode target ∧
      (commandTokens casing args = [name] ∧ hours = none ∨
        ∃ text n, commandTokens casing args = [name, text] ∧ number text = .finite (n : Int) ∧
          0 < n ∧ hours = some n)
  unapproved : ∀ mode hours current, parseModeCommand casing args = .change mode hours →
    requiresDualConfirmOf current mode = false →
      ∃ target, mode = .mode target ∧
        (target = .supervised ∨ autonomyOrdinal target < autonomyOrdinal current)

/-- the command names a property of `Object.prototype`, and the hours, if given, are valid -/
def NamesInherited : List JsString → Prop
  | [name] => name ∈ objectPrototype
  | [name, hours] => name ∈ objectPrototype ∧ positiveInteger hours ≠ none
  | _ => False

theorem not_alias_of_inherited : ∀ name ∈ objectPrototype, MODE_ALIASES.lookup name = none := by
  decide

theorem modeAlias_inherited {name : JsString} (h : name ∈ objectPrototype) :
    modeAlias name = some (.inherited name) := by
  rw [modeAlias, not_alias_of_inherited name h]
  exact if_pos h

/-- any other name has an alias of its own, or none -/
theorem modeAlias_own {name : JsString} (h : name ∉ objectPrototype) {mode : ModeValue}
    (hmode : modeAlias name = some mode) :
    ∃ target, (name, target) ∈ MODE_ALIASES ∧ mode = .mode target := by
  rw [modeAlias] at hmode
  cases hlookup : MODE_ALIASES.lookup name with
  | none =>
    rw [hlookup] at hmode
    simp only [if_neg h] at hmode
    cases hmode
  | some target =>
    rw [hlookup] at hmode
    cases hmode
    obtain ⟨_, _, heq, -⟩ := List.lookup_eq_some_iff.mp hlookup
    refine ⟨target, ?_, rfl⟩
    rw [heq]
    simp

theorem positiveInteger_some {text : JsString} {n : Int} (h : positiveInteger text = some n) :
    number text = .finite (n : Int) ∧ 0 < n := by
  rw [positiveInteger, Option.filter_eq_some_iff, decide_eq_true_iff] at h
  refine ⟨?_, h.2⟩
  cases hnumber : number text with
  | nan =>
    rw [hnumber] at h
    cases h.1
  | infinity negative =>
    rw [hnumber] at h
    cases h.1
  | finite value =>
    rw [hnumber, JsNumber.integer?] at h
    have hden : value.den = 1 := by
      by_contra hden
      rw [if_neg hden] at h
      cases h.1
    rw [if_pos hden] at h
    cases h.1
    rw [Rat.coe_int_num_of_den_eq_one hden]

/-! ## the words -/

theorem tokens_eq_nil (text : JsString) : tokens text = [] ↔ text.isBlank = true := by
  have hsplit (us : List UInt16) :
      ((us.splitOnP isSpace).filter (· ≠ [])) = [] ↔ us.all isSpace = true := by
    induction us with
    | nil => simp
    | cons u us ih =>
      rw [List.splitOnP_cons]
      cases hu : isSpace u with
      | true =>
        rw [if_pos rfl, List.filter_cons_of_neg (by simp), ih, List.all_cons, hu, Bool.true_and]
      | false =>
        rw [if_neg Bool.false_ne_true, List.all_cons, hu, Bool.false_and]
        obtain ⟨head, rest, hcons⟩ := List.exists_cons_of_ne_nil (List.splitOnP_ne_nil isSpace us)
        rw [hcons]
        simp
  rw [tokens, List.map_eq_nil_iff, hsplit, isBlank]

theorem all_trim (us : List UInt16) :
    (Blanks.trim isSpace us).all isSpace = true ↔ us.all isSpace = true := by
  rw [List.all_eq_true, List.all_eq_true]
  constructor
  · intro h u hu
    by_contra hspace
    rw [Bool.not_eq_true] at hspace
    exact absurd (h u ((Blanks.mem_trim_text hspace).mpr hu)) (by simp [hspace])
  · intro h u hu
    exact h u ((Blanks.trim_isInfix us).subset hu)

theorem commandTokens_eq_nil (casing : CaseMapping) (args : Option JsString) :
    commandTokens casing args = [] ↔ (args.getD (lit "")).isBlank = true := by
  rw [commandTokens, tokens_eq_nil, isBlank_toLowerCase]
  exact all_trim _

section
variable {casing : CaseMapping} {args : Option JsString} {mode : ModeValue} {hours : Option Int}

/-- a change comes of one word, or of two -/
theorem parse_change (h : parseModeCommand casing args = .change mode hours) :
    ∃ name, modeAlias name = some mode ∧
      (commandTokens casing args = [name] ∧ hours = none ∨
        ∃ text n, commandTokens casing args = [name, text] ∧ positiveInteger text = some n ∧
          hours = some n) := by
  rw [parseModeCommand] at h
  split at h
  · cases h
  · next name htokens =>
    cases hmode : modeAlias name with
    | none =>
      rw [hmode] at h
      cases h
    | some value =>
      rw [hmode] at h
      cases h
      exact ⟨name, hmode, Or.inl ⟨htokens, rfl⟩⟩
  · next name text htokens =>
    cases hmode : modeAlias name with
    | none =>
      rw [hmode] at h
      cases h
    | some value =>
      cases hnumber : positiveInteger text with
      | none =>
        rw [hmode, hnumber] at h
        cases h
      | some n =>
        rw [hmode, hnumber] at h
        cases h
        exact ⟨name, hmode, Or.inr ⟨text, n, htokens, hnumber, rfl⟩⟩
  · cases h

theorem parse_one {name : JsString} (htokens : commandTokens casing args = [name])
    (hmode : modeAlias name = some mode) : parseModeCommand casing args = .change mode none := by
  rw [parseModeCommand, htokens]
  simp only [hmode]

theorem parse_two {name text : JsString} {n : Int} (htokens : commandTokens casing args = [name, text])
    (hmode : modeAlias name = some mode) (hnumber : positiveInteger text = some n) :
    parseModeCommand casing args = .change mode (some n) := by
  rw [parseModeCommand, htokens]
  simp only [hmode, hnumber]

theorem parse_status :
    parseModeCommand casing args = .status ↔ (args.getD (lit "")).isBlank = true := by
  rw [← commandTokens_eq_nil casing, parseModeCommand]
  constructor
  · intro h
    split at h
    · assumption
    · next name htokens =>
      cases hmode : modeAlias name <;> rw [hmode] at h <;> cases h
    · next name text htokens =>
      cases hmode : modeAlias name <;> rw [hmode] at h
      · cases h
      · cases hnumber : positiveInteger text <;> rw [hnumber] at h <;> cases h
    · cases h
  · intro h
    rw [h]

/-- what is written without an approval -/
theorem unapproved_mode {current target : AutonomyMode}
    (h : requiresDualConfirmOf current (.mode target) = false) :
    target = .supervised ∨ autonomyOrdinal target < autonomyOrdinal current := by
  rw [requiresDualConfirmOf_mode, requiresDualConfirm_eq_false] at h
  rcases h with rfl | ⟨rfl, rfl⟩
  · exact Or.inl rfl
  · exact Or.inr (by decide)

end

/-- **the command never guesses, unless its first word is a property that every object inherits** -/
theorem neverGuesses_iff (casing : CaseMapping) (args : Option JsString) :
    NeverGuesses casing args ↔ ¬ NamesInherited (commandTokens casing args) := by
  constructor
  · intro h hinherited
    rw [NamesInherited.eq_def] at hinherited
    split at hinherited
    · next name htokens =>
      obtain ⟨_, _, _, heq, -⟩ := h.change _ _ (parse_one htokens (modeAlias_inherited hinherited))
      cases heq
    · next name text htokens =>
      obtain ⟨n, hnumber⟩ := Option.ne_none_iff_exists'.mp hinherited.2
      obtain ⟨_, _, _, heq, -⟩ :=
        h.change _ _ (parse_two htokens (modeAlias_inherited hinherited.1) hnumber)
      cases heq
    · exact hinherited
  · intro h
    -- the name of a change is an alias
    have hown {mode : ModeValue} {hours : Option Int}
        (hparse : parseModeCommand casing args = .change mode hours) :
        ∃ name target, (name, target) ∈ MODE_ALIASES ∧ mode = .mode target ∧
          (commandTokens casing args = [name] ∧ hours = none ∨
            ∃ text n, commandTokens casing args = [name, text] ∧ positiveInteger text = some n ∧
              hours = some n) := by
      obtain ⟨name, hmode, hwords⟩ := parse_change hparse
      have hname : name ∉ objectPrototype := by
        intro hmem
        rcases hwords with ⟨htokens, -⟩ | ⟨text, n, htokens, hnumber, -⟩
        · rw [htokens] at h
          exact h hmem
        · rw [htokens] at h
          exact h ⟨hmem, by rw [hnumber]; exact Option.some_ne_none n⟩
      obtain ⟨target, hmem, heq⟩ := modeAlias_own hname hmode
      exact ⟨name, target, hmem, heq, hwords⟩
    refine ⟨parse_status, fun mode hours hparse => ?_, fun mode hours current hparse hdual => ?_⟩
    · obtain ⟨name, target, hmem, heq, hwords⟩ := hown hparse
      refine ⟨name, target, hmem, heq, hwords.imp_right ?_⟩
      rintro ⟨text, n, htokens, hnumber, hhours⟩
      obtain ⟨hvalue, hpos⟩ := positiveInteger_some hnumber
      exact ⟨text, n, htokens, hvalue, hpos, hhours⟩
    · obtain ⟨_, target, _, rfl, -⟩ := hown hparse
      exact ⟨target, rfl, unapproved_mode hdual⟩

/-! ## the property that gets through -/

/-- `/mode constructor` asks for a mode that is none, and `AUTONOMY_MODES.indexOf` puts it below all
of them, so that it is written without an approval -/
theorem constructor_guessed : ¬ NeverGuesses asciiCasing (some (lit "constructor")) ∧
    parseModeCommand asciiCasing (some (lit "constructor"))
      = .change (.inherited (lit "constructor")) none ∧
    ∀ current, requiresDualConfirmOf current (.inherited (lit "constructor")) = false := by
  have htokens : commandTokens asciiCasing (some (lit "constructor")) = [lit "constructor"] := by decide
  have hmem : lit "constructor" ∈ objectPrototype := List.mem_cons_self
  have hparse := parse_one htokens (modeAlias_inherited hmem)
  refine ⟨fun h => ?_, hparse, fun current => requiresDualConfirmOf_inherited current _⟩
  obtain ⟨_, _, _, heq, -⟩ := h.change _ _ hparse
  cases heq

end Autonomy
