import JinCore.Telegram.Format
import JinCore.Lib.Nesting

/-!
# The tags and the entities that Telegram takes

* `Tag`       the closed list: opening and closing tags without attributes, and `<code>` with a
              language in its class;
* `Word`      a tag or one of the three entities; `htmlCode`, the words as a prefix code;
* `wordAt`    the word at the beginning of a text;
* `IsLoose`   units that stand in no word but the class of `<code>`.
-/

namespace Telegram
open JsString Reading Nesting

inductive TagName where
  | b
  | i
  | s
  | u
  | code
  | pre
  | blockquote
  deriving DecidableEq, Repr

def TagName.text : TagName → String
  | .b => "b"
  | .i => "i"
  | .s => "s"
  | .u => "u"
  | .code => "code"
  | .pre => "pre"
  | .blockquote => "blockquote"

/-- a text of units of `[A-Za-z0-9_+-]` -/
structure Language where
  units : List UInt16
  ok : units.all isLanguageUnit = true
  deriving DecidableEq

inductive Tag where
  | opening (name : TagName)
  | closing (name : TagName)
  /-- `<code class="language-..">` -/
  | codeIn (language : Language)
  deriving DecidableEq

inductive Entity where
  | amp
  | lt
  | gt
  deriving DecidableEq, Repr

inductive Word where
  | entity (e : Entity)
  | tag (t : Tag)
  deriving DecidableEq

def lessThan : UInt16 := 0x3C
def greaterThan : UInt16 := 0x3E
def ampersand : UInt16 := 0x26

def Entity.units : Entity → List UInt16
  | .amp => (lit "&amp;").units
  | .lt => (lit "&lt;").units
  | .gt => (lit "&gt;").units

def classHead : List UInt16 := (lit "<code class=\"language-").units
def classEnd : List UInt16 := (lit "\">").units

def Tag.units : Tag → List UInt16
  | .opening name => (lit ("<" ++ name.text ++ ">")).units
  | .closing name => (lit ("</" ++ name.text ++ ">")).units
  | .codeIn language => classHead ++ (language.units ++ classEnd)

def Word.units : Word → List UInt16
  | .entity e => e.units
  | .tag t => t.units

/-! ## the words without a class -/

def TagName.all : List TagName := [.b, .i, .s, .u, .code, .pre, .blockquote]

def simpleWords : List Word :=
  [.entity .amp, .entity .lt, .entity .gt] ++ TagName.all.map (fun n => .tag (.opening n))
    ++ TagName.all.map (fun n => .tag (.closing n))

theorem simple_or_code (w : Word) : w ∈ simpleWords ∨ ∃ l, w = .tag (.codeIn l) := by
  cases w with
  | entity e => cases e <;> exact Or.inl (by decide)
  | tag t =>
    cases t with
    | opening name => cases name <;> exact Or.inl (by decide)
    | closing name => cases name <;> exact Or.inl (by decide)
    | codeIn l => exact Or.inr ⟨l, rfl⟩

/-- a word with what is known of its ends -/
theorem simple_shape : ∀ w ∈ simpleWords, (w.units.head? = some lessThan ∨ w.units.head? = some ampersand) ∧
    w.units.length ≤ classHead.length ∧ w.units.isPrefixOf classHead = false ∧
    classHead.isPrefixOf w.units = false := by decide

theorem simple_prefixFree : ∀ w ∈ simpleWords, ∀ w' ∈ simpleWords,
    w.units.isPrefixOf w'.units = true → w = w' := by decide

/-! ## the class of `<code>` -/

theorem language_stop {l : Language} (rest : List UInt16) :
    (l.units ++ (classEnd ++ rest)).takeWhile isLanguageUnit = l.units := by
  rw [List.takeWhile_append_of_pos (List.all_eq_true.mp l.ok)]
  show l.units ++ (classEnd ++ rest).takeWhile isLanguageUnit = l.units
  have hstop : (classEnd ++ rest).takeWhile isLanguageUnit = [] := rfl
  rw [hstop, List.append_nil]

theorem codeIn_of_begins {l l' : Language} (h : (Tag.codeIn l).units <+: (Tag.codeIn l').units) :
    l = l' := by
  obtain ⟨rest, hrest⟩ := h
  have htail : l.units ++ (classEnd ++ rest) = l'.units ++ (classEnd ++ []) := by
    have hwhole : classHead ++ (l.units ++ (classEnd ++ rest))
        = classHead ++ (l'.units ++ (classEnd ++ [])) := by
      rw [List.append_nil, ← List.append_assoc l.units, ← List.append_assoc classHead]
      exact hrest
    exact List.append_cancel_left hwhole
  have hunits := congrArg (List.takeWhile isLanguageUnit) htail
  rw [language_stop, language_stop] at hunits
  cases l
  cases l'
  cases hunits
  rfl

theorem word_prefixFree {w w' : Word} (h : w.units <+: w'.units) : w = w' := by
  rcases simple_or_code w with hw | ⟨l, rfl⟩
  · rcases simple_or_code w' with hw' | ⟨l', rfl⟩
    · exact simple_prefixFree w hw w' hw' (List.isPrefixOf_iff_prefix.mpr h)
    · obtain ⟨-, hlength, hnot, -⟩ := simple_shape w hw
      have hprefix := List.prefix_of_prefix_length_le h (List.prefix_append classHead _) hlength
      rw [List.isPrefixOf_iff_prefix.mpr hprefix] at hnot
      cases hnot
  · rcases simple_or_code w' with hw' | ⟨l', rfl⟩
    · obtain ⟨-, -, -, hnot⟩ := simple_shape w' hw'
      rw [List.isPrefixOf_iff_prefix.mpr ((List.prefix_append classHead _).trans h)] at hnot
      cases hnot
    · rw [codeIn_of_begins h]

theorem word_begins (w : Word) : ∃ c us, w.units = c :: us ∧ (c = lessThan ∨ c = ampersand) := by
  rcases simple_or_code w with hw | ⟨l, rfl⟩
  · rcases (simple_shape w hw).1 with h | h
    · obtain ⟨us, hus⟩ := List.head?_eq_some_iff.mp h
      exact ⟨_, us, hus, Or.inl rfl⟩
    · obtain ⟨us, hus⟩ := List.head?_eq_some_iff.mp h
      exact ⟨_, us, hus, Or.inr rfl⟩
  · exact ⟨lessThan, _, rfl, Or.inl rfl⟩

/-- the words of a message -/
def htmlCode : Code UInt16 Word where
  word := Word.units
  begins u := u = lessThan ∨ u = ampersand
  begins_word := word_begins
  prefixFree := word_prefixFree

/-! ## reading a word -/

def codeInAt (us : List UInt16) : Option Word :=
  let rest := us.drop classHead.length
  if classHead.isPrefixOf us && classEnd.isPrefixOf (rest.dropWhile isLanguageUnit) then
    some (.tag (.codeIn ⟨rest.takeWhile isLanguageUnit, List.all_takeWhile⟩))
  else none

/-- the word at the beginning of a text -/
def wordAt (us : List UInt16) : Option Word :=
  (simpleWords.find? fun w => w.units.isPrefixOf us).or (codeInAt us)

theorem codeInAt_prefix {us : List UInt16} {w : Word} (h : codeInAt us = some w) :
    w.units <+: us := by
  obtain ⟨hif, h⟩ := Option.ite_none_right_eq_some.mp h
  obtain ⟨hhead, hend⟩ := (Bool.and_eq_true _ _).mp hif
  cases h
  obtain ⟨rest, rfl⟩ := List.isPrefixOf_iff_prefix.mp hhead
  rw [List.drop_left] at hend
  obtain ⟨tail, htail⟩ := List.isPrefixOf_iff_prefix.mp hend
  refine ⟨tail, ?_⟩
  show classHead ++ (((classHead ++ rest).drop classHead.length).takeWhile isLanguageUnit ++ classEnd)
    ++ tail = classHead ++ rest
  rw [List.drop_left, List.append_assoc, List.append_assoc, htail, List.takeWhile_append_dropWhile]

theorem codeInAt_codeIn (l : Language) (rest : List UInt16) :
    codeInAt ((Tag.codeIn l).units ++ rest) = some (.tag (.codeIn l)) := by
  have htext : (Tag.codeIn l).units ++ rest = classHead ++ (l.units ++ (classEnd ++ rest)) := by
    rw [Tag.units, List.append_assoc, List.append_assoc]
  have hhead : classHead.isPrefixOf (classHead ++ (l.units ++ (classEnd ++ rest))) = true :=
    List.isPrefixOf_iff_prefix.mpr (List.prefix_append _ _)
  have hdrop : (l.units ++ (classEnd ++ rest)).dropWhile isLanguageUnit = classEnd ++ rest :=
    List.dropWhile_append_of_pos (List.all_eq_true.mp l.ok)
  have hend : classEnd.isPrefixOf (classEnd ++ rest) = true :=
    List.isPrefixOf_iff_prefix.mpr (List.prefix_append _ _)
  rw [htext, codeInAt]
  simp only [List.drop_left, hhead, hdrop, hend, language_stop, Bool.and_self, if_true]

theorem wordAt_iff (us : List UInt16) (w : Word) : wordAt us = some w ↔ htmlCode.word w <+: us := by
  constructor
  · intro h
    rcases Option.or_eq_some_iff.mp h with h | ⟨-, h⟩
    · have hprefix := List.find?_some h
      exact List.isPrefixOf_iff_prefix.mp hprefix
    · exact codeInAt_prefix h
  · intro h
    have hsame : ∀ v, v.units <+: us → v = w := fun v hv => by
      rcases List.prefix_or_prefix_of_prefix hv h with h | h
      · exact word_prefixFree h
      · exact (word_prefixFree h).symm
    rw [wordAt]
    cases hfind : simpleWords.find? fun w => w.units.isPrefixOf us with
    | some v =>
      have hprefix := List.find?_some hfind
      rw [hsame v (List.isPrefixOf_iff_prefix.mp hprefix)]
      rfl
    | none =>
      rcases simple_or_code w with hw | ⟨l, rfl⟩
      · exact absurd (List.isPrefixOf_iff_prefix.mpr h) (List.find?_eq_none.mp hfind w hw)
      · obtain ⟨rest, rfl⟩ := h
        exact codeInAt_codeIn l rest

end Telegram
