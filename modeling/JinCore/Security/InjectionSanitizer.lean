import JinCore.Common.Calls
import JinCore.Lib.Occurrences
import JinCore.ModelProvider.Types

/-!
# Wrapping of external text (`src/security/injection-sanitizer.ts`)

* `replaceAll`                `value.replace(/.../g, ...)` for a literal pattern;
* `escapeDelimiterChars`      the entities for `&`, `<` and `>`; no `<` is left;
* `wrapUntrustedContent`      a text between the tags of the session;
* `untrustedSources`          the matches of `UNTRUSTED_SOURCE_RE` in a text;
* `summarizeUntrustedSources` the sources of the tool results in a list of messages, counted;
* `unescape_escapeSource`     what is escaped in a source is read back as it was;
* `untrustedSources_wrapped`  a wrapped text has exactly one of them, its own.
-/

namespace Security
open JsString Common ModelProvider Occurrences

/-! ## replacing -/

def replaceAll (pattern replacement value : JsString) : JsString :=
  ⟨replaceFrom pattern.units replacement.units 0 value.units⟩

def escapeDelimiterChars (value : JsString) : JsString :=
  replaceAll (lit ">") (lit "&gt;")
    (replaceAll (lit "<") (lit "&lt;") (replaceAll (lit "&") (lit "&amp;") value))

def sanitizeForIndexing (content : JsString) : JsString := escapeDelimiterChars content

def unescapeDelimiterChars (value : JsString) : JsString :=
  replaceAll (lit "&amp;") (lit "&") (replaceAll (lit "&quot;") (lit "\"")
    (replaceAll (lit "&gt;") (lit ">") (replaceAll (lit "&lt;") (lit "<") value)))

/-! ## the tags of a session -/

def isHexDigit (u : UInt16) : Bool := decide (0x30 ≤ u ∧ u ≤ 0x39 ∨ 0x61 ≤ u ∧ u ≤ 0x66)

/-- `SESSION_NONCE_RE` -/
def isSessionNonce (s : JsString) : Bool := s.units.length = 16 && s.units.all isHexDigit

/-- what `generateSessionNonce` draws -/
structure SessionNonce where
  text : JsString
  ok : isSessionNonce text = true
  deriving DecidableEq

def invalidSessionNonceError (sessionNonce : JsString) : JinError where
  message := lit "sessionNonce inválido: \"" ++ sessionNonce
    ++ lit "\". Se espera un hexadecimal de 16 caracteres generado por generateSessionNonce()."
  code := lit "SECURITY_INVALID_SESSION_NONCE"
  httpStatus := some 400

def tagName : JsString := lit "untrusted_content_"

def openTag (source sessionNonce : JsString) : JsString :=
  lit "<" ++ tagName ++ sessionNonce ++ (lit " source=\"" ++ (source ++ lit "\">"))

def closeTag (sessionNonce : JsString) : JsString := lit "</" ++ tagName ++ sessionNonce ++ lit ">"

def escapeSource (source : JsString) : JsString :=
  replaceAll (lit "\"") (lit "&quot;") (escapeDelimiterChars source)

/-- the text between its tags -/
def wrapped (content source sessionNonce : JsString) : JsString :=
  openTag (escapeSource source) sessionNonce ++ (escapeDelimiterChars content
    ++ closeTag sessionNonce)

def wrapUntrustedContent (content source sessionNonce : JsString) : Except JinError JsString :=
  if isSessionNonce sessionNonce then .ok (wrapped content source sessionNonce)
  else .error (invalidSessionNonceError sessionNonce)

/-! ## reading the sources back -/

def sourceHead : List UInt16 := (lit "<" ++ tagName).units

def sourceAttribute : List UInt16 := (lit " source=\"").units

/-- the group of `UNTRUSTED_SOURCE_RE` in a match that starts here -/
def untrustedSourceAt (us : List UInt16) : Option (List UInt16) :=
  let nonce := (us.drop sourceHead.length).take 16
  let rest := us.drop (sourceHead.length + 16)
  let value := rest.drop sourceAttribute.length
  if sourceHead.isPrefixOf us && (decide (nonce.length = 16) && nonce.all isHexDigit) &&
      sourceAttribute.isPrefixOf rest && value.contains 0x22 then
    some (value.takeWhile (· ≠ 0x22))
  else none

/-- the length of a match with this group -/
def matchLength (source : List UInt16) : Nat :=
  sourceHead.length + 16 + sourceAttribute.length + source.length + 1

/-- `matchAll`: the groups from left to right; the first argument counts the units of a match that
are still to be passed over -/
def untrustedSourcesFrom : Nat → List UInt16 → List JsString
  | _, [] => []
  | skip + 1, _ :: us => untrustedSourcesFrom skip us
  | 0, u :: us =>
    match untrustedSourceAt (u :: us) with
    | some source => ⟨source⟩ :: untrustedSourcesFrom (matchLength source - 1) us
    | none => untrustedSourcesFrom 0 us

def untrustedSources (output : JsString) : List JsString := untrustedSourcesFrom 0 output.units

def ModelMessageContentBlock.sources : ModelMessageContentBlock → List JsString
  | .toolResult _ (.string output) _ => (untrustedSources output).map unescapeDelimiterChars
  | _ => []

/-- the sources of the messages, one for each match -/
def sourcesOf (messages : List ModelMessage) : List JsString :=
  messages.flatMap fun message => message.content.toBlocks.flatMap ModelMessageContentBlock.sources

/-- `counts.set(source, (counts.get(source) ?? 0) + 1)` on a map that keeps the order of its keys -/
def bump (counts : List (JsString × Nat)) (source : JsString) : List (JsString × Nat) :=
  if counts.any fun c => c.1 = source then
    counts.map fun c => if c.1 = source then (c.1, c.2 + 1) else c
  else counts ++ [(source, 1)]

def joinWith (separator : JsString) : List JsString → JsString
  | [] => lit ""
  | [s] => s
  | s :: ss => s ++ separator ++ joinWith separator ss

def formatCounts (counts : List (JsString × Nat)) : JsString :=
  joinWith (lit ", ") (counts.map fun c => c.1 ++ lit " (" ++ lit (toString c.2) ++ lit ")")

def summarizeUntrustedSources (messages : List ModelMessage) : Option JsString :=
  let counts := (sourcesOf messages).foldl bump []
  if counts = [] then none else some (formatCounts counts)

/-! ## what escaping leaves -/

theorem units_replaceAll (pattern replacement value : JsString) :
    (replaceAll pattern replacement value).units
      = replaceFrom pattern.units replacement.units 0 value.units := rfl

/-- no `<` is left -/
theorem notMem_escapeDelimiterChars (value : JsString) :
    (0x3C : UInt16) ∉ (escapeDelimiterChars value).units := by
  refine notMem_replaceFrom (c := 0x3E) (by decide) (Or.inr ?_)
  exact notMem_replaceFrom (c := 0x3C) (by decide) (Or.inl rfl)

theorem notMem_escapeSource (source : JsString) :
    (0x3C : UInt16) ∉ (escapeSource source).units ∧ (0x22 : UInt16) ∉ (escapeSource source).units :=
  ⟨notMem_replaceFrom (c := 0x22) (by decide) (Or.inr (notMem_escapeDelimiterChars source)),
    notMem_replaceFrom (c := 0x22) (by decide) (Or.inl rfl)⟩

/-! ### the source of a tag is read back -/

/-- the characters that are escaped in a source -/
def entities : List (UInt16 × JsString) :=
  [(0x26, lit "&amp;"), (0x3C, lit "&lt;"), (0x3E, lit "&gt;"), (0x22, lit "&quot;")]

/-- what stands for a unit of the source once the characters of `back` are read back -/
def entity (back : List UInt16) (u : UInt16) : List UInt16 :=
  if u ∈ back then [u] else ((entities.lookup u).map JsString.units).getD [u]

/-- one replacement after the other -/
theorem entity_escape (u : UInt16) :
    ((if u = 0x26 then (lit "&amp;").units else [u]).flatMap fun u =>
      (if u = 0x3C then (lit "&lt;").units else [u]).flatMap fun u =>
        (if u = 0x3E then (lit "&gt;").units else [u]).flatMap fun u =>
          if u = 0x22 then (lit "&quot;").units else [u]) = entity [] u := by
  by_cases hamp : u = 0x26
  · subst hamp
    decide
  by_cases hlt : u = 0x3C
  · subst hlt
    decide
  by_cases hgt : u = 0x3E
  · subst hgt
    decide
  by_cases hquot : u = 0x22
  · subst hquot
    decide
  have hlookup : entities.lookup u = none := by
    rw [List.lookup_eq_none_iff]
    simp only [entities, List.forall_mem_cons, bne_iff_ne]
    exact ⟨hamp, hlt, hgt, hquot, fun _ hp => absurd hp List.not_mem_nil⟩
  rw [entity, if_neg List.not_mem_nil, hlookup, if_neg hamp, List.flatMap_singleton, if_neg hlt,
    List.flatMap_singleton, if_neg hgt, List.flatMap_singleton, if_neg hquot]
  rfl

theorem units_escapeSource (source : JsString) :
    (escapeSource source).units = source.units.flatMap (entity []) := by
  have hunit (s : String) (c : UInt16) (h : (lit s).units = [c]) (code value : JsString) :
      (replaceAll (lit s) code value).units
        = value.units.flatMap fun u => if u = c then code.units else [u] := by
    rw [units_replaceAll, h, replaceFrom_singleton]
  rw [escapeSource, escapeDelimiterChars, hunit "\"" 0x22 (by decide), hunit ">" 0x3E (by decide),
    hunit "<" 0x3C (by decide), hunit "&" 0x26 (by decide), List.flatMap_assoc, List.flatMap_assoc,
    List.flatMap_assoc]
  congr 1
  funext u
  exact entity_escape u

/-- a unit stands for itself, or its entity does -/
theorem entity_cases {back : List UInt16} (hback : 0x26 ∉ back) (u : UInt16) :
    (entity back u = [u] ∧ u ≠ 0x26 ∧ (u ∈ back ∨ entities.lookup u = none)) ∨
      ∃ code, (u, code) ∈ entities ∧ u ∉ back ∧ entity back u = code.units := by
  rw [entity]
  by_cases hmem : u ∈ back
  · left
    exact ⟨if_pos hmem, fun hu => hback (hu ▸ hmem), Or.inl hmem⟩
  · rw [if_neg hmem]
    cases hcode : entities.lookup u with
    | none =>
      left
      refine ⟨rfl, ?_, Or.inr rfl⟩
      rintro rfl
      cases hcode
    | some code =>
      right
      obtain ⟨before, after, hentities, -⟩ := List.lookup_eq_some_iff.mp hcode
      refine ⟨code, ?_, hmem, rfl⟩
      rw [hentities]
      exact List.mem_append_right _ List.mem_cons_self

/-- an entity begins with `&` and has no other one, and neither it nor its character belongs to
another one -/
theorem entities_codes : ∀ p ∈ entities,
    p.2.units.head? = some 0x26 ∧ (0x26 : UInt16) ∉ p.2.units.tail ∧
      ∀ q ∈ entities, p.1 = q.1 ∨ p.2.units <+: q.2.units → p = q := by
  decide

/-- one of the characters is read back -/
theorem replaceFrom_entity {c : UInt16} {code : JsString} (hcode : (c, code) ∈ entities)
    {back : List UInt16} (hback : 0x26 ∉ back) (value : List UInt16) :
    replaceFrom code.units [c] 0 (value.flatMap (entity back))
      = value.flatMap (entity (c :: back)) := by
  obtain ⟨hhead, -, hunique⟩ := entities_codes _ hcode
  rw [replaceFrom_flatMap hhead fun u => ?_]
  · congr 1
    funext u
    by_cases hu : u = c
    · subst hu
      rw [entity.eq_1 (u :: back), if_pos List.mem_cons_self]
      rcases entity_cases hback u with ⟨hself, -, -⟩ | ⟨code', hcode', -, hentity⟩
      · rw [hself, ite_self]
      · cases hunique _ hcode' (Or.inl rfl)
        exact if_pos hentity
    · have hsame : entity (c :: back) u = entity back u := by
        simp only [entity, List.mem_cons, hu, false_or]
      rw [hsame, if_neg]
      intro hunits
      rcases entity_cases hback u with ⟨hself, hne, -⟩ | ⟨code', hcode', -, hentity⟩
      · rw [← hunits, hself] at hhead
        exact hne (Option.some.inj hhead)
      · have hself : code.units = code'.units := hunits.symm.trans hentity
        have hcodes : code.units <+: code'.units := hself ▸ List.prefix_refl _
        exact hu (congrArg Prod.fst (hunique _ hcode' (Or.inr hcodes))).symm
  · rcases entity_cases hback u with ⟨hself, hne, -⟩ | ⟨code', hcode', -, hentity⟩
    · right
      rw [hself]
      exact ⟨isPrefixOf_cons_of_ne hhead hne, List.not_mem_nil⟩
    · obtain ⟨-, htail, hunique'⟩ := entities_codes _ hcode'
      rw [hentity]
      by_cases heq : (c, code) = (u, code')
      · left
        exact congrArg (fun p => p.2.units) heq.symm
      · right
        refine ⟨isPrefixOf_append_eq_false (fun h => ?_) (fun h => ?_), htail⟩
        · exact heq (hunique _ hcode' (Or.inr h))
        · exact heq (hunique' _ hcode (Or.inr h)).symm

/-- one replacement of the way back -/
theorem units_readBack {s : String} {c : UInt16} (hs : (lit s).units = [c]) {code : JsString}
    (hcode : (c, code) ∈ entities) {back : List UInt16} (hback : 0x26 ∉ back) {text : JsString}
    {value : List UInt16} (htext : text.units = value.flatMap (entity back)) :
    (replaceAll code (lit s) text).units = value.flatMap (entity (c :: back)) := by
  rw [units_replaceAll, hs, htext, replaceFrom_entity hcode hback]

/-- with every character read back, each unit stands for itself -/
theorem entity_of_forall {back : List UInt16} (hback : ∀ p ∈ entities, p.1 ∈ back) (u : UInt16) :
    entity back u = [u] := by
  rw [entity]
  by_cases hmem : u ∈ back
  · exact if_pos hmem
  · have hlookup : entities.lookup u = none := by
      refine List.lookup_eq_none_iff.mpr fun p hp => ?_
      rw [bne_iff_ne]
      rintro rfl
      exact hmem (hback p hp)
    rw [if_neg hmem, hlookup]
    rfl

/-- every source is read back as it is written -/
theorem unescape_escapeSource (source : JsString) :
    unescapeDelimiterChars (escapeSource source) = source := by
  have hlt : ((0x3C : UInt16), lit "&lt;") ∈ entities := by decide
  have hgt : ((0x3E : UInt16), lit "&gt;") ∈ entities := by decide
  have hquot : ((0x22 : UInt16), lit "&quot;") ∈ entities := by decide
  have hamp : ((0x26 : UInt16), lit "&amp;") ∈ entities := by decide
  have hunits : (unescapeDelimiterChars (escapeSource source)).units
      = source.units.flatMap (entity [0x26, 0x22, 0x3E, 0x3C]) :=
    units_readBack (by decide) hamp (by decide) <| units_readBack (by decide) hquot (by decide) <|
      units_readBack (by decide) hgt (by decide) <| units_readBack (by decide) hlt (by decide) <|
        units_escapeSource source
  have hentity : entity [0x26, 0x22, 0x3E, 0x3C] = fun u => [u] := by
    funext u
    exact entity_of_forall (by decide) u
  rw [hentity, List.flatMap_singleton'] at hunits
  exact ext_units hunits

/-! ### wrapping -/

theorem wrapUntrustedContent_session (content source : JsString) (nonce : SessionNonce) :
    wrapUntrustedContent content source nonce.text = .ok (wrapped content source nonce.text) :=
  if_pos nonce.ok

theorem hexDigits_nonce (nonce : SessionNonce) :
    nonce.text.units.length = 16 ∧ ∀ u ∈ nonce.text.units, isHexDigit u = true := by
  obtain ⟨hlength, hall⟩ := Bool.and_eq_true_iff.mp nonce.ok
  exact ⟨of_decide_eq_true hlength, List.all_eq_true.mp hall⟩

theorem notMem_nonce (nonce : SessionNonce) {u : UInt16} (hu : isHexDigit u = false) :
    u ∉ nonce.text.units := by
  intro h
  rw [(hexDigits_nonce nonce).2 u h] at hu
  cases hu

/-! ## the tags of a session in a text -/

/-- how the tags of a session begin -/
def tagHeads (sessionNonce : JsString) : List (List UInt16) :=
  [(lit "<" ++ tagName ++ sessionNonce).units, (lit "</" ++ tagName ++ sessionNonce).units]

def tagsIn (sessionNonce text : JsString) : Nat := occurrences (tagHeads sessionNonce) text.units

theorem head_tagHeads (sessionNonce : JsString) :
    ∀ p ∈ tagHeads sessionNonce, p.head? = some 0x3C := by
  intro p hp
  rcases List.mem_cons.mp hp with rfl | hp
  · rfl
  · rw [List.mem_singleton.mp hp]
    rfl

/-- a character that is neither in the fixed part of the tags nor a hexadecimal digit -/
theorem notMem_tagHeads (nonce : SessionNonce) {u : UInt16} (hhex : isHexDigit u = false)
    (hfixed : u ∉ (lit "</" ++ tagName).units) : ∀ p ∈ tagHeads nonce.text, u ∉ p := by
  have hopen : u ∉ (lit "<" ++ tagName).units := fun h => hfixed <| by
    rcases List.mem_append.mp h with h | h
    · exact List.mem_append_left _ (List.mem_of_mem_head? (congrArg some (List.mem_singleton.mp h).symm))
    · exact List.mem_append_right _ h
  intro p hp
  rcases List.mem_cons.mp hp with rfl | hp
  · rw [units_append, List.mem_append, not_or]
    exact ⟨hopen, notMem_nonce nonce hhex⟩
  · rw [List.mem_singleton.mp hp, units_append, List.mem_append, not_or]
    exact ⟨hfixed, notMem_nonce nonce hhex⟩

/-- a text without `<` has no tag -/
theorem tagsIn_eq_zero {text : JsString} (sessionNonce : JsString) (h : (0x3C : UInt16) ∉ text.units) :
    tagsIn sessionNonce text = 0 := occurrences_eq_zero (head_tagHeads sessionNonce) h

theorem tagsIn_append_left {start : JsString} (sessionNonce text : JsString)
    (h : (0x3C : UInt16) ∉ start.units) :
    tagsIn sessionNonce (start ++ text) = tagsIn sessionNonce text :=
  occurrences_append (head_tagHeads sessionNonce) h text.units

/-- what stands between the `<` of the opening tag and that of the closing one -/
def wrappedMiddle (content source sessionNonce : JsString) : JsString :=
  tagName ++ sessionNonce ++ (lit " source=\"" ++ (escapeSource source ++ lit "\">"))
    ++ escapeDelimiterChars content

theorem units_wrapped (content source sessionNonce : JsString) :
    (wrapped content source sessionNonce).units
      = 0x3C :: ((wrappedMiddle content source sessionNonce).units ++ (closeTag sessionNonce).units) := by
  simp only [wrapped, openTag, wrappedMiddle, units_append, List.append_assoc]
  rfl

theorem notMem_wrappedMiddle (content source : JsString) (nonce : SessionNonce) :
    (0x3C : UInt16) ∉ (wrappedMiddle content source nonce.text).units := by
  simp only [wrappedMiddle, units_append, List.mem_append, not_or]
  exact ⟨⟨⟨by decide, notMem_nonce nonce (by decide)⟩, by decide, (notMem_escapeSource source).1,
    by decide⟩, notMem_escapeDelimiterChars content⟩

/-- what follows the `<` of the closing tag -/
theorem notMem_closeTag (nonce : SessionNonce) :
    (0x3C : UInt16) ∉ (lit "/" ++ tagName ++ nonce.text ++ lit ">").units := by
  simp only [units_append, List.mem_append, not_or]
  exact ⟨⟨⟨by decide, by decide⟩, notMem_nonce nonce (by decide)⟩, by decide⟩

theorem units_closeTag (sessionNonce : JsString) : (closeTag sessionNonce).units
    = 0x3C :: (lit "/" ++ tagName ++ sessionNonce ++ lit ">").units := by
  simp only [closeTag, units_append]
  rfl

/-- **a wrapped text has the two tags of the wrapping and no other** -/
theorem tagsIn_wrapped (content source : JsString) (nonce : SessionNonce) :
    tagsIn nonce.text (wrapped content source nonce.text) = 2 := by
  have hopen : begins (tagHeads nonce.text) (wrapped content source nonce.text).units = true := by
    refine List.any_eq_true.mpr ⟨_, List.mem_cons_self, List.isPrefixOf_iff_prefix.mpr ?_⟩
    simp only [wrapped, openTag, units_append, List.append_assoc]
    exact ⟨_, by simp only [List.append_assoc]; rfl⟩
  have hclose : begins (tagHeads nonce.text) (closeTag nonce.text).units = true := by
    refine List.any_eq_true.mpr ⟨_, List.mem_cons_of_mem _ (List.mem_singleton_self _),
      List.isPrefixOf_iff_prefix.mpr ?_⟩
    simp only [closeTag, units_append]
    exact ⟨_, rfl⟩
  rw [units_wrapped] at hopen
  rw [units_closeTag] at hclose
  rw [tagsIn, units_wrapped, occurrences, hopen,
    occurrences_append (head_tagHeads nonce.text) (notMem_wrappedMiddle content source nonce),
    units_closeTag, occurrences, hclose,
    occurrences_eq_zero (head_tagHeads nonce.text) (notMem_closeTag nonce)]
  rfl

/-! ## the sources in a text -/

theorem untrustedSourceAt_of_ne {u : UInt16} (hu : u ≠ 0x3C) (us : List UInt16) :
    untrustedSourceAt (u :: us) = none := by
  have hhead : sourceHead.isPrefixOf (u :: us) = false := by
    show ((0x3C : UInt16) == u && _) = false
    rw [beq_false_of_ne (Ne.symm hu), Bool.false_and]
  simp only [untrustedSourceAt, hhead, Bool.false_and]
  rfl

theorem untrustedSourcesFrom_drop (n : Nat) (us : List UInt16) :
    untrustedSourcesFrom n us = untrustedSourcesFrom 0 (us.drop n) := by
  induction n generalizing us with
  | zero => rfl
  | succ n ih =>
    cases us with
    | nil => rfl
    | cons u us => exact ih us

/-- nothing matches before the next `<` -/
theorem untrustedSourcesFrom_append {us : List UInt16} (h : (0x3C : UInt16) ∉ us)
    (vs : List UInt16) : untrustedSourcesFrom 0 (us ++ vs) = untrustedSourcesFrom 0 vs := by
  induction us with
  | nil => rfl
  | cons u us ih =>
    rw [List.mem_cons, not_or] at h
    rw [List.cons_append, untrustedSourcesFrom, untrustedSourceAt_of_ne (Ne.symm h.1)]
    exact ih h.2

theorem untrustedSources_eq_nil {text : JsString} (h : (0x3C : UInt16) ∉ text.units) :
    untrustedSources text = [] := by
  have happend := untrustedSourcesFrom_append h []
  rwa [List.append_nil] at happend

/-- the first tag, with its source -/
theorem untrustedSourceAt_wrapped (content source : JsString) (nonce : SessionNonce)
    (rest : List UInt16) :
    untrustedSourceAt ((wrapped content source nonce.text).units ++ rest)
      = some (escapeSource source).units := by
  obtain ⟨hlength, hhex⟩ := hexDigits_nonce nonce
  have hunits : (wrapped content source nonce.text).units ++ rest = sourceHead ++ (nonce.text.units ++
      (sourceAttribute ++ ((escapeSource source).units ++ 0x22 :: 0x3E ::
        ((escapeDelimiterChars content ++ closeTag nonce.text).units ++ rest)))) := by
    simp only [wrapped, openTag, units_append, List.append_assoc, sourceHead, sourceAttribute]
    rfl
  have hnonce : (((wrapped content source nonce.text).units ++ rest).drop sourceHead.length).take 16
      = nonce.text.units := by
    rw [hunits, List.drop_left, ← hlength, List.take_left]
  have hrest : ((wrapped content source nonce.text).units ++ rest).drop (sourceHead.length + 16)
      = sourceAttribute ++ ((escapeSource source).units ++ 0x22 :: 0x3E ::
        ((escapeDelimiterChars content ++ closeTag nonce.text).units ++ rest)) := by
    rw [← List.drop_drop, hunits, List.drop_left, ← hlength, List.drop_left]
  have hprefix : sourceHead.isPrefixOf ((wrapped content source nonce.text).units ++ rest)
      = true := by
    rw [hunits]
    exact List.isPrefixOf_iff_prefix.mpr (List.prefix_append _ _)
  have hattribute (us : List UInt16) : sourceAttribute.isPrefixOf (sourceAttribute ++ us) = true :=
    List.isPrefixOf_iff_prefix.mpr (List.prefix_append _ _)
  have hquote (us : List UInt16) :
      ((escapeSource source).units ++ 0x22 :: us).contains 0x22 = true := by
    rw [List.contains_iff_mem]
    exact List.mem_append_right _ List.mem_cons_self
  have htake (us : List UInt16) : ((escapeSource source).units ++ 0x22 :: us).takeWhile (· ≠ 0x22)
      = (escapeSource source).units := by
    rw [List.takeWhile_append_of_pos, List.takeWhile_cons_of_neg (by simp), List.append_nil]
    intro u hu
    refine decide_eq_true fun h => (notMem_escapeSource source).2 ?_
    exact h ▸ hu
  simp only [untrustedSourceAt, hnonce, hrest, hprefix, hattribute, List.drop_left, hquote, htake,
    hlength, List.all_eq_true.mpr hhex]
  rfl

/-- a tag that closes is passed over -/
theorem untrustedSourcesFrom_closeTag (nonce : SessionNonce) (rest : List UInt16) :
    untrustedSourcesFrom 0 ((closeTag nonce.text).units ++ rest) = untrustedSourcesFrom 0 rest := by
  have hat : untrustedSourceAt ((closeTag nonce.text).units ++ rest) = none := by
    rw [units_closeTag]
    rfl
  rw [units_closeTag, List.cons_append] at hat ⊢
  rw [untrustedSourcesFrom, hat]
  exact untrustedSourcesFrom_append (notMem_closeTag nonce) rest

/-- **a wrapped text has one source, its own, whatever the content** -/
theorem untrustedSourcesFrom_wrapped (content source : JsString) (nonce : SessionNonce)
    (rest : List UInt16) :
    untrustedSourcesFrom 0 ((wrapped content source nonce.text).units ++ rest)
      = escapeSource source :: untrustedSourcesFrom 0 rest := by
  have hat := untrustedSourceAt_wrapped content source nonce rest
  have hdrop : ((wrapped content source nonce.text).units ++ rest).drop
      (matchLength (escapeSource source).units)
        = (lit ">" ++ escapeDelimiterChars content).units ++ ((closeTag nonce.text).units ++ rest) := by
    have hunits : (wrapped content source nonce.text).units ++ rest
        = (sourceHead ++ nonce.text.units ++ sourceAttribute ++ (escapeSource source).units ++ [0x22])
          ++ ((lit ">" ++ escapeDelimiterChars content).units
            ++ ((closeTag nonce.text).units ++ rest)) := by
      simp only [wrapped, openTag, units_append, List.append_assoc, sourceHead, sourceAttribute]
      rfl
    have hlength : matchLength (escapeSource source).units
        = (sourceHead ++ nonce.text.units ++ sourceAttribute ++ (escapeSource source).units
          ++ [0x22]).length := by
      simp only [matchLength, List.length_append, (hexDigits_nonce nonce).1, List.length_singleton]
    rw [hunits, hlength, List.drop_left]
  rw [units_wrapped, List.cons_append] at hat hdrop
  have hskip (us : List UInt16) :
      us.drop (matchLength (escapeSource source).units - 1)
        = (0x3C :: us).drop (matchLength (escapeSource source).units) := by
    rfl
  have hrest : (0x3C : UInt16) ∉ (lit ">" ++ escapeDelimiterChars content).units := by
    rw [units_append, List.mem_append, not_or]
    exact ⟨by decide, notMem_escapeDelimiterChars content⟩
  rw [units_wrapped, List.cons_append, untrustedSourcesFrom, hat]
  show _ :: untrustedSourcesFrom (matchLength (escapeSource source).units - 1) _ = _
  rw [untrustedSourcesFrom_drop, hskip, hdrop, untrustedSourcesFrom_append hrest,
    untrustedSourcesFrom_closeTag]

theorem untrustedSources_wrapped (content source : JsString) (nonce : SessionNonce) :
    untrustedSources (wrapped content source nonce.text) = [escapeSource source] := by
  have hfrom := untrustedSourcesFrom_wrapped content source nonce []
  rwa [List.append_nil] at hfrom

end Security
