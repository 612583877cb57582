import JinCore.Js.Text
import JinCore.Lib.Blanks
import JinCore.Lib.Regex

/-!
# Telegram messages (`src/telegram/telegram-format.ts`)

* `escapeHtml`             the entities for `&`, `<` and `>`;
* `codeFence` .. `marker`  the patterns of the source, in its order;
* `markdownToTelegramHtml` the Markdown of the model as the HTML that Telegram takes;
* `splitForTelegram`       the HTML in chunks.

The property `\p{L}\p{N}` of a code point is a parameter `letter`.
-/

namespace Telegram
open JsString Regex Occurrences

/-! ## classes -/

def newline : UInt16 := 0x0A

/-- what ends a line for `.`, `^` and `$` -/
def isLineTerminator (u : UInt16) : Bool := decide (u = 0x0A ∨ u = 0x0D ∨ u = 0x2028 ∨ u = 0x2029)

/-- `.` -/
def isDot (u : UInt16) : Bool := !isLineTerminator u

/-- `[^\S\n]` -/
def isInlineSpace (u : UInt16) : Bool := isSpace u && decide (u ≠ newline)

/-- `\d` -/
def isDigit (u : UInt16) : Bool := decide (0x30 ≤ u ∧ u ≤ 0x39)

/-- `[A-Za-z0-9_+-]` -/
def isLanguageUnit (u : UInt16) : Bool :=
  decide (0x41 ≤ u ∧ u ≤ 0x5A ∨ 0x61 ≤ u ∧ u ≤ 0x7A) || isDigit u ||
    decide (u = 0x5F ∨ u = 0x2B ∨ u = 0x2D)

def isUnit (c : Char) (u : UInt16) : Bool := decide (u = UInt16.ofNat c.toNat)

/-! ## parts of patterns -/

def text (s : String) : Regex UInt16 := literal (lit s).units

def optional (a : Regex UInt16) : Regex UInt16 := .rep 0 (some 1) true a

/-- `^` with the flag `m` -/
def lineStart : Regex UInt16 := .look fun before _ => before.head?.all isLineTerminator

/-- `$` with the flag `m` -/
def lineEnd : Regex UInt16 := .look fun _ after => after.head?.all isLineTerminator

/-- `[^..]` with the flag `u`: a surrogate pair is one character -/
def codePointExcept (excluded : UInt16 → Bool) : Regex UInt16 :=
  .token fun
    | [] => none
    | [u] => if excluded u then none else some 1
    | u :: v :: _ =>
      if isLead u && isTrail v then some 2 else if excluded u then none else some 1

def codePoint (lead trail : UInt16) : Nat :=
  0x10000 + (lead.toNat - 0xD800) * 0x400 + (trail.toNat - 0xDC00)

/-- the code point that ends here, in what comes before read backwards -/
def codePointBefore : List UInt16 → Option Nat
  | [] => none
  | [v] => some v.toNat
  | v :: u :: _ => if isLead u && isTrail v then some (codePoint u v) else some v.toNat

def codePointAfter : List UInt16 → Option Nat
  | [] => none
  | [u] => some u.toNat
  | u :: v :: _ => if isLead u && isTrail v then some (codePoint u v) else some u.toNat

section
variable (letter : Nat → Bool)

/-- `[\p{L}\p{N}c]` -/
def isWordOr (c : Char) (point : Nat) : Bool := letter point || decide (point = c.toNat)

/-- `(?<![\p{L}\p{N}c])` -/
def notAfterWord (c : Char) : Regex UInt16 :=
  .look fun before _ => !(codePointBefore before).any (isWordOr letter c)

/-- `(?![\p{L}\p{N}c])` -/
def notBeforeWord (c : Char) : Regex UInt16 :=
  .look fun _ after => !(codePointAfter after).any (isWordOr letter c)

end

/-! ## the patterns -/

/-- `/```([A-Za-z0-9_+-]*)[^\S\n]*\n?([\s\S]*?)```/g` -/
def codeFence : Regex UInt16 := cat
  [text "```", .group 1 (many isLanguageUnit), many isInlineSpace, optional (one (isUnit '\n')),
    .group 2 (.rep 0 none false (one fun _ => true)), text "```"]

/-- `/(?:^\|.*\|[^\S\n]*(?:\n|$))+/gm` -/
def table : Regex UInt16 := .rep 1 none true (cat
  [lineStart, text "|", many isDot, text "|", many isInlineSpace, .alt (one (isUnit '\n')) lineEnd])

/-- a backtick, `[^`\n]+`, a backtick -/
def inlineCode : Regex UInt16 := cat
  [text "`", .group 1 (some₁ fun u => !isUnit '`' u && !isUnit '\n' u), text "`"]

/-- `/\[([^\]\n]+)\]\((https?:\/\/[^\s)]+)\)/g` -/
def link : Regex UInt16 := cat
  [text "[", .group 1 (some₁ fun u => !isUnit ']' u && !isUnit '\n' u), text "](",
    .group 2 (cat [text "http", optional (text "s"), text "://",
      some₁ fun u => !isSpace u && !isUnit ')' u]), text ")"]

/-- `/^[^\S\n]{0,3}#{1,6}[^\S\n]+(.+?)[^\S\n]*#*[^\S\n]*$/gm` -/
def heading : Regex UInt16 := cat
  [lineStart, .rep 0 (some 3) true (one isInlineSpace), .rep 1 (some 6) true (one (isUnit '#')),
    some₁ isInlineSpace, .group 1 (.rep 1 none false (one isDot)), many isInlineSpace,
    many (isUnit '#'), many isInlineSpace, lineEnd]

/-- `/^[^\S\n]*(?:-{3,}|\*{3,}|_{3,})[^\S\n]*$/gm` -/
def horizontalRule : Regex UInt16 := cat
  [lineStart, many isInlineSpace, .alt (.rep 3 none true (one (isUnit '-')))
    (.alt (.rep 3 none true (one (isUnit '*'))) (.rep 3 none true (one (isUnit '_')))),
    many isInlineSpace, lineEnd]

/-- `/^&gt;[^\S\n]?(.*)$/gm` -/
def quote : Regex UInt16 := cat
  [lineStart, text "&gt;", optional (one isInlineSpace), .group 1 (many isDot), lineEnd]

/-- `/^([^\S\n]*)[-*+][^\S\n]+/gm` -/
def bullet : Regex UInt16 := cat
  [lineStart, .group 1 (many isInlineSpace),
    one (fun u => isUnit '-' u || isUnit '*' u || isUnit '+' u), some₁ isInlineSpace]

/-- `/\*\*([^\n*]+?)\*\*/g` -/
def boldStars : Regex UInt16 := cat
  [text "**", .group 1 (.rep 1 none false (one fun u => !isUnit '\n' u && !isUnit '*' u)), text "**"]

/-- `/~~([^\n~]+?)~~/g` -/
def strike : Regex UInt16 := cat
  [text "~~", .group 1 (.rep 1 none false (one fun u => !isUnit '\n' u && !isUnit '~' u)), text "~~"]

section
variable (letter : Nat → Bool)

/-- `/(?<![\p{L}\p{N}_])__([^\n_]+?)__(?![\p{L}\p{N}_])/gu` -/
def boldUnderscores : Regex UInt16 := cat
  [notAfterWord letter '_', text "__",
    .group 1 (.rep 1 none false (codePointExcept fun u => isUnit '\n' u || isUnit '_' u)),
    text "__", notBeforeWord letter '_']

/-- `/(?<![\p{L}\p{N}c])c([^\sc][^\nc]*?)c(?![\p{L}\p{N}c])/gu`, where `c` is `*` or `_` -/
def italic (c : Char) : Regex UInt16 := cat
  [notAfterWord letter c, one (isUnit c),
    .group 1 (cat [codePointExcept fun u => isSpace u || isUnit c u,
      .rep 0 none false (codePointExcept fun u => isUnit '\n' u || isUnit c u)]),
    one (isUnit c), notBeforeWord letter c]

def italicStars : Regex UInt16 := italic letter '*'

def italicUnderscores : Regex UInt16 := italic letter '_'

end

def openMark : UInt16 := 0xE000
def closeMark : UInt16 := 0xE001

/-- the pattern of a marker: its number between the two marks -/
def marker : Regex UInt16 := cat
  [one fun u => decide (u = openMark), .group 1 (some₁ isDigit), one fun u => decide (u = closeMark)]

/-! ## replacing -/

/-- `text.replaceAll(pattern, replacement)` -/
def replaceAll (pattern replacement : String) (us : List UInt16) : List UInt16 :=
  replaceFrom (lit pattern).units (lit replacement).units 0 us

def escapeHtml (us : List UInt16) : List UInt16 :=
  replaceAll ">" "&gt;" (replaceAll "<" "&lt;" (replaceAll "&" "&amp;" us))

/-- `code.replace(/\n$/, '')` -/
def dropFinalNewline (us : List UInt16) : List UInt16 :=
  if us.getLast? = some newline then us.dropLast else us

/-- `<name>body</name>` -/
def element (name : String) (body : List UInt16) : List UInt16 :=
  (lit ("<" ++ name ++ ">")).units ++ (body ++ (lit ("</" ++ name ++ ">")).units)

/-! ## code -/

def fencedHtml (groups : Nat → List UInt16) : List UInt16 :=
  let body := escapeHtml (dropFinalNewline (groups 2))
  if groups 1 = [] then element "pre" body
  else (lit "<pre><code class=\"language-").units ++ (escapeHtml (groups 1)
    ++ ((lit "\">").units ++ (body ++ (lit "</code></pre>").units)))

def tableHtml (table : List UInt16) : List UInt16 :=
  element "pre" (escapeHtml (dropFinalNewline table))

def inlineHtml (groups : Nat → List UInt16) : List UInt16 := element "code" (escapeHtml (groups 1))

def markerOf (index : Nat) : List UInt16 :=
  openMark :: ((ofChars (Nat.toDigits 10 index)).units ++ [closeMark])

/-- the html is put aside, and a marker stands in its place -/
def stash (protectedBlocks : List (List UInt16)) (html : List UInt16) :
    List UInt16 × List (List UInt16) :=
  (markerOf protectedBlocks.length, protectedBlocks ++ [html])

/-- the matches of a text put aside one after the other -/
def stashItems (html : List UInt16 → (Nat → List UInt16) → List UInt16) :
    List (List UInt16) → List (Item UInt16) → List UInt16 × List (List UInt16)
  | protectedBlocks, [] => ([], protectedBlocks)
  | protectedBlocks, .kept u :: items =>
    let rest := stashItems html protectedBlocks items
    (u :: rest.1, rest.2)
  | protectedBlocks, .found w groups :: items =>
    let stashed := stash protectedBlocks (html w groups)
    let rest := stashItems html stashed.2 items
    (stashed.1 ++ rest.1, rest.2)

/-- what the input becomes before anything else: the markers must not be in it -/
def prepared (us : List UInt16) : List UInt16 :=
  (replaceAll "\r\n" "\n" us).filter fun u => decide (u ≠ openMark ∧ u ≠ closeMark)

/-- the text with the code put aside, and the code -/
def protectCode (us : List UInt16) : List UInt16 × List (List UInt16) :=
  let fences := stashItems (fun _ groups => fencedHtml groups) [] (scan codeFence (prepared us))
  let tables := stashItems (fun w _ => tableHtml w) fences.2 (scan table fences.1)
  stashItems (fun _ groups => inlineHtml groups) tables.2 (scan inlineCode tables.1)

/-! ## lines -/

/-- a link with its destination in sight -/
def linkText (groups : Nat → List UInt16) : List UInt16 :=
  if Blanks.trim isSpace (groups 1) = groups 2 then groups 2
  else groups 1 ++ ((lit " (").units ++ (groups 2 ++ (lit ")").units))

def links (us : List UInt16) : List UInt16 := replace link (fun _ => linkText) us

def headings (us : List UInt16) : List UInt16 :=
  replace heading (fun _ groups => element "b" (groups 1)) us

def horizontalRules (us : List UInt16) : List UInt16 :=
  replace horizontalRule (fun _ _ => (lit "──────────").units) us

def quotes (us : List UInt16) : List UInt16 :=
  replace quote (fun _ groups => element "blockquote" (groups 1)) us

def joinQuotes (us : List UInt16) : List UInt16 :=
  replaceAll "</blockquote>\n<blockquote>" "\n" us

def bullets (us : List UInt16) : List UInt16 :=
  replace bullet (fun _ groups => groups 1 ++ (lit "• ").units) us

/-- what the lines become, before any emphasis -/
def lineMarkup (us : List UInt16) : List UInt16 :=
  bullets (joinQuotes (quotes (horizontalRules (headings (links (escapeHtml us))))))

/-! ## emphasis -/

/-- a pattern whose group is put into an element -/
def emphasize (name : String) (pattern : Regex UInt16) (us : List UInt16) : List UInt16 :=
  replace pattern (fun _ groups => element name (groups 1)) us

/-- a step of the emphasis: the name of the element, and the pattern -/
abbrev Emphasis := String × Regex UInt16

def emphases (letter : Nat → Bool) : List Emphasis :=
  [("b", boldStars), ("b", boldUnderscores letter), ("s", strike), ("i", italicStars letter),
    ("i", italicUnderscores letter)]

def emphasis (letter : Nat → Bool) (us : List UInt16) : List UInt16 :=
  (emphases letter).foldl (fun us e => emphasize e.1 e.2 us) us

/-! ## the message -/

/-- `Number(index)` of digits -/
def numberOf (digits : List UInt16) : Nat := digits.foldl (fun n u => 10 * n + (u.toNat - 0x30)) 0

def restore (protectedBlocks : List (List UInt16)) (us : List UInt16) : List UInt16 :=
  replace marker (fun _ groups => (protectedBlocks[numberOf (groups 1)]?).getD []) us

def markdownToTelegramHtml (letter : Nat → Bool) (markdown : JsString) : JsString :=
  let code := protectCode markdown.units
  ⟨restore code.2 (emphasis letter (lineMarkup code.1))⟩

theorem markdownToTelegramHtml_units (letter : Nat → Bool) (markdown : JsString) :
    (markdownToTelegramHtml letter markdown).units = restore (protectCode markdown.units).2
      (emphasis letter (lineMarkup (protectCode markdown.units).1)) := by
  rw [markdownToTelegramHtml]

end Telegram
