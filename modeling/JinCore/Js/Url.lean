import JinCore.Js.LowerCase
import JinCore.Js.Uri
import Mathlib.Data.List.DropRight
import Mathlib.Tactic.IntervalCases

/-!
# `http:` and `https:` URLs, as the URL standard parses them

* `EncodeSets`       the characters that are percent-encoded in a path and in a query;
* `cleaned`          white space at the ends, tabs and line breaks are taken off;
* `walk`             one segment more, or one less;
* `parse`            scheme, authority, path and query; the fragment is not sent;
* `climb`            the segments that a relative path takes back, and those that it names;
* `parse_below`      the URL of a base followed by more;
* `parse_unchanged`  and where what follows stays as it is.
-/

namespace WhatwgUrl
open JsString

/-- a set of characters that are percent-encoded -/
structure EncodeSet where
  has : Char → Bool
  control : ∀ c, c.toNat ≤ 0x20 ∨ 0x7E < c.toNat → has c = true
  kept : ∀ c, c.isAlphanum = true ∨ c = '-' ∨ c = '%' → has c = false

structure EncodeSets where
  path : EncodeSet
  query : EncodeSet

/-! ## percent-encoding -/

def encodeWith (set : EncodeSet) (us : List UInt16) : List UInt16 :=
  (decode us).flatMap fun c => if set.has c = true then percentEncode c else encode c

/-! ## the parser -/

def isC0OrSpace (u : UInt16) : Bool := decide (u.toNat ≤ 0x20)

def isTabOrNewline (u : UInt16) : Bool := u == 0x09 || u == 0x0A || u == 0x0D

/-- the end of an input -/
def cleanedTail (us : List UInt16) : List UInt16 :=
  (us.rdropWhile isC0OrSpace).filter fun u => !isTabOrNewline u

def cleaned (us : List UInt16) : List UInt16 := cleanedTail (us.dropWhile isC0OrSpace)

/-- a backslash is one as well -/
def isSlash (u : UInt16) : Bool := u == 0x2F || u == 0x5C

def isSingleDot (segment : List UInt16) : Bool :=
  segment == (lit ".").units || segment.map lowerUnit == (lit "%2e").units

def isDoubleDot (segment : List UInt16) : Bool :=
  segment == (lit "..").units || segment.map lowerUnit == (lit ".%2e").units ||
    segment.map lowerUnit == (lit "%2e.").units || segment.map lowerUnit == (lit "%2e%2e").units

def isDots (segment : List UInt16) : Bool := isSingleDot segment || isDoubleDot segment

section
variable (sets : EncodeSets)

def walk (path : List (List UInt16)) (segment : List UInt16) : List (List UInt16) :=
  if isDoubleDot segment = true then path.dropLast
  else if isSingleDot segment = true then path
  else path ++ [encodeWith sets.path segment]

/-- dots at the end leave an empty segment -/
def walked (segments : List (List UInt16)) : List (List UInt16) :=
  let path := segments.foldl (walk sets) []
  if segments.getLast?.any isDots = true then path ++ [[]] else path

/-- the segments after the first slash -/
def pathSegments (text : List UInt16) : List (List UInt16) :=
  if text = [] then [[]] else (text.splitOnP isSlash).tail

structure Url where
  scheme : List UInt16
  authority : List UInt16
  path : List (List UInt16)
  query : Option (List UInt16)
  deriving DecidableEq, Repr

def beforeHash (us : List UInt16) : List UInt16 := us.takeWhile (· ≠ 0x23)

def pathPart (us : List UInt16) : List UInt16 := (beforeHash us).takeWhile (· ≠ 0x3F)

def queryPart (us : List UInt16) : Option (List UInt16) :=
  if 0x3F ∈ beforeHash us then some ((beforeHash us).dropWhile (· ≠ 0x3F)).tail else none

def endsAuthority (u : UInt16) : Bool := isSlash u || u == 0x3F || u == 0x23

/-- none for another scheme, or without an authority -/
def parse (input : List UInt16) : Option Url :=
  let s := cleaned input
  let scheme := (s.takeWhile (· ≠ 0x3A)).map lowerUnit
  let rest := (s.dropWhile (· ≠ 0x3A)).tail.dropWhile isSlash
  let authority := rest.takeWhile fun u => !endsAuthority u
  let rest := rest.dropWhile fun u => !endsAuthority u
  if (scheme = (lit "http").units ∨ scheme = (lit "https").units) ∧ authority ≠ [] then
    some ⟨scheme, authority, walked sets (pathSegments (pathPart rest)),
      (queryPart rest).map (encodeWith sets.query)⟩
  else none

/-- the path as it is sent -/
def pathText (path : List (List UInt16)) : List UInt16 := path.flatMap (0x2F :: ·)

/-! ## walking from a base -/

/-- how many segments are taken back, and the names after that -/
def climb (state : Nat × List (List UInt16)) (segment : List UInt16) : Nat × List (List UInt16) :=
  if isDoubleDot segment = true then
    if state.2 = [] then (state.1 + 1, []) else (state.1, state.2.dropLast)
  else if isSingleDot segment = true then state
  else (state.1, state.2 ++ [encodeWith sets.path segment])

def climbed (segments : List (List UInt16)) : Nat × List (List UInt16) :=
  let state := segments.foldl (climb sets) (0, [])
  if segments.getLast?.any isDots = true then (state.1, state.2 ++ [[]]) else state

theorem walk_climb (base : List (List UInt16)) (state : Nat × List (List UInt16)) (segment : List UInt16) :
    walk sets (base.take (base.length - state.1) ++ state.2) segment
      = base.take (base.length - (climb sets state segment).1) ++ (climb sets state segment).2 := by
  obtain ⟨ups, names⟩ := state
  rw [walk, climb]
  split
  · by_cases hnames : names = []
    · simp only [hnames, if_true, List.append_nil]
      rw [List.dropLast_eq_take, List.length_take, List.take_take]
      congr 1
      omega
    · simp only [if_neg hnames]
      rw [List.dropLast_append_of_ne_nil hnames]
  · split
    · rfl
    · rw [List.append_assoc]

theorem foldl_walk (base : List (List UInt16)) (state : Nat × List (List UInt16))
    (segments : List (List UInt16)) :
    segments.foldl (walk sets) (base.take (base.length - state.1) ++ state.2)
      = base.take (base.length - (segments.foldl (climb sets) state).1)
        ++ (segments.foldl (climb sets) state).2 := by
  induction segments generalizing state with
  | nil => rfl
  | cons segment segments ih =>
    rw [List.foldl_cons, walk_climb, ih]
    rfl

end

/-! ## plain units -/

section
variable {set : EncodeSet}

/-- a unit that stands for itself in a path or a query -/
def PlainUnit (set : EncodeSet) (u : UInt16) : Prop := isSurrogate u = false ∧ set.has (loneChar u) = false

theorem toNat_loneChar {u : UInt16} (h : isSurrogate u = false) : (loneChar u).toNat = u.toNat := by
  have hu : u.toNat < 0x10000 := u.toNat_lt
  have hs : ¬isSurrogate u = true := by
    rw [h]
    exact Bool.false_ne_true
  rw [loneChar, if_neg hs]
  refine toNat_ofNat_of_valid ?_
  rw [isSurrogate_iff] at hs
  omega

theorem PlainUnit.range {u : UInt16} (h : PlainUnit set u) : 0x20 < u.toNat ∧ u.toNat ≤ 0x7E := by
  by_contra hrange
  have hnat := toNat_loneChar h.1
  have hin := set.control (loneChar u) (by omega)
  rw [h.2] at hin
  cases hin

theorem encodeWith_cons {u : UInt16} (h : PlainUnit set u) (us : List UInt16) :
    encodeWith set (u :: us) = u :: encodeWith set us := by
  have hlead : isLead u = false := (Bool.or_eq_false_iff.mp h.1).1
  rw [encodeWith, decode_cons_of_not_lead hlead, List.flatMap_cons, h.2, if_neg Bool.false_ne_true,
    encode_loneChar h.1]
  rfl

/-- plain units stay -/
theorem encodeWith_plain {us : List UInt16} (h : ∀ u ∈ us, PlainUnit set u) : encodeWith set us = us := by
  induction us with
  | nil => rfl
  | cons u us ih =>
    rw [encodeWith_cons (h u List.mem_cons_self), ih fun v hv => h v (List.mem_cons_of_mem _ hv)]

theorem plain_hexUpper {n : Nat} (h : n < 16) : PlainUnit set (hexUpper n) := by
  have hkept := set.kept
  interval_cases n <;> exact ⟨rfl, hkept _ (.inl (by decide))⟩

/-- and what is encoded is plain -/
theorem plain_encodeWith (us : List UInt16) : ∀ u ∈ encodeWith set us, PlainUnit set u := by
  intro u hu
  obtain ⟨c, -, hu⟩ := List.mem_flatMap.mp hu
  split at hu
  · obtain ⟨b, -, hu⟩ := List.mem_flatMap.mp hu
    have hb : b.toNat < 0x100 := b.toNat_lt
    rcases List.mem_cons.mp hu with rfl | hu
    · exact ⟨rfl, set.kept _ (.inr (.inr rfl))⟩
    · rcases List.mem_cons.mp hu with rfl | hu
      · exact plain_hexUpper (by omega)
      · rw [List.mem_singleton.mp hu]
        exact plain_hexUpper (by omega)
  · next hset =>
    have hrange : ¬(c.toNat ≤ 0x20 ∨ 0x7E < c.toNat) := fun h => hset (set.control c h)
    rw [encode, if_pos (by omega), List.mem_singleton] at hu
    have hnat : u.toNat = c.toNat := by
      rw [hu]
      exact toNat_ofNat16 (by omega)
    have hsurrogate : isSurrogate u = false := by
      rw [Bool.eq_false_iff, ne_eq, isSurrogate_iff]
      omega
    have hchar : loneChar u = c := by
      rw [← Char.toNat_inj, toNat_loneChar hsurrogate, hnat]
    refine ⟨hsurrogate, ?_⟩
    rw [hchar]
    exact Bool.eq_false_iff.mpr hset

end

/-! ## a base and what follows it -/

/-- a segment that is kept as it is -/
structure Kept (set : EncodeSet) (segment : List UInt16) : Prop where
  dots : isDots segment = false
  plain : ∀ u ∈ segment, PlainUnit set u
  inside : ∀ u ∈ segment, endsAuthority u = false

/-- a URL without a query -/
structure Base (sets : EncodeSets) where
  scheme : List UInt16
  authority : List UInt16
  path : List (List UInt16)
  scheme_eq : scheme = (lit "http").units ∨ scheme = (lit "https").units
  authority_ne : authority ≠ []
  authority_inside : ∀ u ∈ authority, endsAuthority u = false ∧ 0x20 < u.toNat
  path_ne : path ≠ []
  path_kept : ∀ segment ∈ path, Kept sets.path segment

/-- the segments of a path that follows another one -/
def tailSegments (text : List UInt16) : List (List UInt16) :=
  if text = [] then [] else (text.splitOnP isSlash).tail

theorem cleanedTail_append {front : List UInt16} (h : ∀ u ∈ front, 0x20 < u.toNat) (hne : front ≠ [])
    (tail : List UInt16) : cleanedTail (front ++ tail) = front ++ cleanedTail tail := by
  have hspace (u : UInt16) (hu : u ∈ front) : isC0OrSpace u = false := by
    have hlt := h u hu
    exact decide_eq_false (by omega)
  have htab : front.filter (fun u => !isTabOrNewline u) = front := by
    rw [List.filter_eq_self]
    intro u hu
    have hlt := h u hu
    have hnot (v : UInt16) (hv : v.toNat ≤ 0x20) : (u == v) = false := by
      refine beq_false_of_ne fun heq => ?_
      rw [heq] at hlt
      omega
    rw [isTabOrNewline, hnot _ (by decide), hnot _ (by decide), hnot _ (by decide)]
    rfl
  have hdrop : (front ++ tail).rdropWhile isC0OrSpace = front ++ tail.rdropWhile isC0OrSpace := by
    obtain ⟨init, last, rfl⟩ : ∃ init last, front = init ++ [last] :=
      ⟨front.dropLast, front.getLast hne, (List.dropLast_append_getLast hne).symm⟩
    have hlast : ¬isC0OrSpace last = true := by
      rw [hspace last (List.mem_append_right _ List.mem_cons_self)]
      exact Bool.false_ne_true
    rw [List.rdropWhile, List.rdropWhile, List.reverse_append, List.dropWhile_append]
    split
    · next hempty =>
      rw [List.isEmpty_iff] at hempty
      rw [List.reverse_append, List.reverse_singleton, List.singleton_append,
        List.dropWhile_cons_of_neg hlast, hempty, List.reverse_nil, List.append_nil, List.reverse_cons,
        List.reverse_reverse]
    · rw [List.reverse_append, List.reverse_reverse]
  rw [cleanedTail, hdrop, List.filter_append, htab]
  rfl

section
variable {sets : EncodeSets} (b : Base sets)

def Base.text : List UInt16 :=
  b.scheme ++ (0x3A :: 0x2F :: 0x2F :: (b.authority ++ pathText b.path))

theorem inside_pathText : ∀ u ∈ pathText b.path, isSlash u = true ∨ PlainUnit sets.path u ∧ endsAuthority u = false := by
  intro u hu
  obtain ⟨segment, hsegment, hu⟩ := List.mem_flatMap.mp hu
  rcases List.mem_cons.mp hu with rfl | hu
  · exact .inl rfl
  · exact .inr ⟨(b.path_kept segment hsegment).plain u hu, (b.path_kept segment hsegment).inside u hu⟩

theorem Base.text_ne : b.text ≠ [] := List.append_ne_nil_of_right_ne_nil _ (List.cons_ne_nil _ _)

theorem Base.text_range : ∀ u ∈ b.text, 0x20 < u.toNat := by
  intro u hu
  rcases List.mem_append.mp hu with hu | hu
  · have hscheme : ∀ u ∈ b.scheme, 0x20 < u.toNat := by
      rcases b.scheme_eq with heq | heq
      · rw [heq]
        decide
      · rw [heq]
        decide
    exact hscheme u hu
  · have hrest : u = 0x3A ∨ u = 0x2F ∨ u ∈ b.authority ∨ u ∈ pathText b.path := by
      simpa [List.mem_append] using hu
    rcases hrest with rfl | rfl | hu | hu
    · decide
    · decide
    · exact (b.authority_inside u hu).2
    · rcases inside_pathText b u hu with hslash | hplain
      · rw [isSlash, Bool.or_eq_true, beq_iff_eq, beq_iff_eq] at hslash
        rcases hslash with rfl | rfl
        · decide
        · decide
      · exact hplain.1.range.1

theorem cleaned_base (tail : List UInt16) : cleaned (b.text ++ tail) = b.text ++ cleanedTail tail := by
  have hdrop : (b.text ++ tail).dropWhile isC0OrSpace = b.text ++ tail := by
    obtain ⟨u, us, heq⟩ := List.exists_cons_of_ne_nil b.text_ne
    have hu := b.text_range u (heq ▸ List.mem_cons_self)
    have hspace : isC0OrSpace u = false := decide_eq_false (by omega)
    rw [heq, List.cons_append, List.dropWhile_cons_of_neg (by rw [hspace]; exact Bool.false_ne_true)]
  rw [cleaned, hdrop, cleanedTail_append b.text_range b.text_ne]

section
variable {front : List UInt16} (tail : List UInt16)

theorem pathPart_append (h : ∀ u ∈ front, u ≠ 0x23 ∧ u ≠ 0x3F) :
    pathPart (front ++ tail) = front ++ pathPart tail := by
  have hhash : ∀ u ∈ front, decide (u ≠ 0x23) = true := fun u hu => decide_eq_true (h u hu).1
  have hmark : ∀ u ∈ front, decide (u ≠ 0x3F) = true := fun u hu => decide_eq_true (h u hu).2
  rw [pathPart, beforeHash, List.takeWhile_append_of_pos hhash, List.takeWhile_append_of_pos hmark]
  rfl

theorem queryPart_append (h : ∀ u ∈ front, u ≠ 0x23 ∧ u ≠ 0x3F) : queryPart (front ++ tail) = queryPart tail := by
  have hhash : ∀ u ∈ front, decide (u ≠ 0x23) = true := fun u hu => decide_eq_true (h u hu).1
  have hmark : ∀ u ∈ front, decide (u ≠ 0x3F) = true := fun u hu => decide_eq_true (h u hu).2
  have hbefore : beforeHash (front ++ tail) = front ++ beforeHash tail := by
    rw [beforeHash, List.takeWhile_append_of_pos hhash]
    rfl
  have hnot : 0x3F ∉ front := fun hmem => (h _ hmem).2 rfl
  simp only [queryPart, hbefore, List.mem_append, hnot, false_or, List.dropWhile_append_of_pos hmark]

end

/-- the segments of a base and of what follows -/
theorem pathSegments_base {path : List (List UInt16)} (hne : path ≠ [])
    (h : ∀ segment ∈ path, ∀ u ∈ segment, isSlash u = false) {tail : List UInt16}
    (htail : ∀ u ∈ tail.head?, isSlash u = true) :
    pathSegments (pathText path ++ tail) = path ++ tailSegments tail := by
  have hsplit {path : List (List UInt16)} (h : ∀ segment ∈ path, ∀ u ∈ segment, isSlash u = false)
      (front : List UInt16) (hfront : ∀ u ∈ front, isSlash u = false) :
      (front ++ pathText path).splitOnP isSlash = front :: path := by
    induction path generalizing front with
    | nil =>
      rw [pathText, List.flatMap_nil, List.append_nil]
      exact List.splitOnP_eq_singleton hfront
    | cons segment path ih =>
      have hrest := ih (fun s hs => h s (List.mem_cons_of_mem _ hs)) segment (h segment List.mem_cons_self)
      rw [pathText, List.flatMap_cons, List.cons_append,
        List.splitOnP_append_cons_of_forall_mem hfront 0x2F rfl]
      exact congrArg _ hrest
  have hbase : (pathText path).splitOnP isSlash = [] :: path := hsplit h [] fun _ hu => (nomatch hu)
  have hnil : pathText path ++ tail ≠ [] := by
    obtain ⟨segment, path, rfl⟩ := List.exists_cons_of_ne_nil hne
    exact List.cons_ne_nil _ _
  rw [pathSegments, if_neg hnil, tailSegments]
  cases tail with
  | nil => rw [if_pos rfl, List.append_nil, List.append_nil, hbase, List.tail_cons]
  | cons u us =>
    have hu : isSlash u = true := htail u rfl
    have hus : (u :: us).splitOnP isSlash = [] :: us.splitOnP isSlash := by
      rw [← List.nil_append (u :: us), List.splitOnP_append_cons [] us hu]
      rfl
    rw [if_neg (List.cons_ne_nil _ _), List.splitOnP_append_cons _ _ hu, hbase, hus, List.cons_append,
      List.tail_cons, List.tail_cons]

theorem walk_kept {sets : EncodeSets} {segment : List UInt16} (h : Kept sets.path segment)
    (path : List (List UInt16)) : walk sets path segment = path ++ [segment] := by
  have hdots := Bool.or_eq_false_iff.mp h.dots
  rw [walk, hdots.2, hdots.1, encodeWith_plain h.plain]
  rfl

theorem walked_base (base segments : List (List UInt16)) (hne : base ≠ [])
    (h : ∀ segment ∈ base, Kept sets.path segment) :
    walked sets (base ++ segments) = base.take (base.length - (climbed sets segments).1)
      ++ (climbed sets segments).2 := by
  have hbase : base.foldl (walk sets) [] = base := by
    have hfold (path : List (List UInt16)) : base.foldl (walk sets) path = path ++ base := by
      clear hne
      induction base generalizing path with
      | nil => exact (List.append_nil _).symm
      | cons segment base ih =>
        rw [List.foldl_cons, walk_kept (h segment List.mem_cons_self),
          ih (fun s hs => h s (List.mem_cons_of_mem _ hs)), List.append_assoc]
        rfl
    exact hfold []
  have hwalk := foldl_walk sets base (0, []) segments
  rw [Nat.sub_zero, List.take_length, List.append_nil] at hwalk
  have hlast : (base ++ segments).getLast?.any isDots = segments.getLast?.any isDots := by
    by_cases hsegments : segments = []
    · rw [hsegments, List.append_nil, List.getLast?_eq_some_getLast hne]
      exact (h _ (List.getLast_mem hne)).dots
    · rw [List.getLast?_append_of_ne_nil _ hsegments]
  simp only [walked, List.foldl_append, hbase, hwalk, hlast, climbed]
  split
  · rw [List.append_assoc]
  · rfl

/-- **the URL of a base and of what follows it** -/
theorem parse_below {tail : List UInt16} (htail : ∀ u ∈ (cleanedTail tail).head?, endsAuthority u = true) :
    parse sets (b.text ++ tail) = some ⟨b.scheme, b.authority,
      b.path.take (b.path.length - (climbed sets (tailSegments (pathPart (cleanedTail tail)))).1)
        ++ (climbed sets (tailSegments (pathPart (cleanedTail tail)))).2,
      (queryPart (cleanedTail tail)).map (encodeWith sets.query)⟩ := by
  have hscheme : (b.scheme.map lowerUnit = b.scheme ∧ (b.scheme = (lit "http").units ∨
      b.scheme = (lit "https").units)) ∧ ∀ u ∈ b.scheme, decide (u ≠ 0x3A) = true := by
    rcases b.scheme_eq with heq | heq
    · rw [heq]
      exact ⟨⟨by decide, .inl rfl⟩, by decide⟩
    · rw [heq]
      exact ⟨⟨by decide, .inr rfl⟩, by decide⟩
  have hinside : ∀ u ∈ b.authority, (!endsAuthority u) = true := fun u hu => by
    rw [(b.authority_inside u hu).1]
    rfl
  have hpath : ∀ u ∈ pathText b.path, u ≠ 0x23 ∧ u ≠ 0x3F := by
    intro u hu
    rcases inside_pathText b u hu with hslash | hplain
    · exact ⟨fun h => absurd (h ▸ hslash) (by decide), fun h => absurd (h ▸ hslash) (by decide)⟩
    · exact ⟨fun h => absurd (h ▸ hplain.2) (by decide), fun h => absurd (h ▸ hplain.2) (by decide)⟩
  have hsegments : ∀ segment ∈ b.path, ∀ u ∈ segment, isSlash u = false := by
    intro segment hsegment u hu
    have hkept := (b.path_kept segment hsegment).inside u hu
    rw [endsAuthority, Bool.or_eq_false_iff, Bool.or_eq_false_iff] at hkept
    exact hkept.1.1
  -- the path begins with a slash, and ends the authority
  have hend : ∀ u ∈ (pathText b.path ++ cleanedTail tail).head?, (!endsAuthority u) = false := by
    obtain ⟨segment, path, hcons⟩ := List.exists_cons_of_ne_nil b.path_ne
    rw [hcons]
    intro u hu
    rw [← Option.some.inj hu]
    rfl
  have hstop : (pathText b.path ++ cleanedTail tail).takeWhile (fun u => !endsAuthority u) = [] ∧
      (pathText b.path ++ cleanedTail tail).dropWhile (fun u => !endsAuthority u)
        = pathText b.path ++ cleanedTail tail := by
    generalize pathText b.path ++ cleanedTail tail = rest at hend
    cases rest with
    | nil => exact ⟨rfl, rfl⟩
    | cons u us =>
      have hu := hend u rfl
      constructor
      · rw [List.takeWhile_cons, hu]
        rfl
      · rw [List.dropWhile_cons, hu]
        rfl
  have hslashes : (0x2F :: 0x2F :: (b.authority ++ (pathText b.path ++ cleanedTail tail))).dropWhile isSlash
      = b.authority ++ (pathText b.path ++ cleanedTail tail) := by
    obtain ⟨u, us, hcons⟩ := List.exists_cons_of_ne_nil b.authority_ne
    have hu := (b.authority_inside u (hcons ▸ List.mem_cons_self)).1
    rw [endsAuthority, Bool.or_eq_false_iff, Bool.or_eq_false_iff] at hu
    rw [hcons, List.dropWhile_cons_of_pos rfl, List.dropWhile_cons_of_pos rfl, List.cons_append,
      List.dropWhile_cons_of_neg (by rw [hu.1.1]; exact Bool.false_ne_true)]
  have htext : b.text ++ cleanedTail tail
      = b.scheme ++ (0x3A :: 0x2F :: 0x2F :: (b.authority ++ (pathText b.path ++ cleanedTail tail))) := by
    simp [Base.text]
  have hpart : ∀ u ∈ (pathPart (cleanedTail tail)).head?, isSlash u = true := by
    intro u hu
    cases hcleaned : cleanedTail tail with
    | nil =>
      rw [hcleaned] at hu
      cases hu
    | cons v vs =>
      rw [hcleaned] at hu htail
      have hv := htail v rfl
      by_cases hhash : v = 0x23
      · rw [hhash] at hu
        cases hu
      · by_cases hmark : v = 0x3F
        · rw [hmark] at hu
          cases hu
        · have h1 : decide (v ≠ 0x23) = true := decide_eq_true hhash
          have h2 : decide (v ≠ 0x3F) = true := decide_eq_true hmark
          simp only [pathPart, beforeHash, List.takeWhile_cons, h1, h2, if_true, List.head?_cons] at hu
          rw [← Option.some.inj hu]
          simpa [endsAuthority, hhash, hmark] using hv
  have hcolon : (0x3A :: 0x2F :: 0x2F :: (b.authority ++ (pathText b.path ++ cleanedTail tail))).takeWhile
      (fun u : UInt16 => decide (u ≠ 0x3A)) = [] := rfl
  have hrest : (0x3A :: 0x2F :: 0x2F :: (b.authority ++ (pathText b.path ++ cleanedTail tail))).dropWhile
      (fun u : UInt16 => decide (u ≠ 0x3A))
        = 0x3A :: 0x2F :: 0x2F :: (b.authority ++ (pathText b.path ++ cleanedTail tail)) := rfl
  rw [parse, cleaned_base, htext]
  simp only [List.takeWhile_append_of_pos hscheme.2, List.dropWhile_append_of_pos hscheme.2, hcolon, hrest,
    List.append_nil, List.tail_cons, hslashes, hscheme.1.1, List.takeWhile_append_of_pos hinside,
    List.dropWhile_append_of_pos hinside, hstop.1, hstop.2, hscheme.1.2, b.authority_ne, ne_eq,
    not_false_eq_true, and_self, if_true, pathPart_append _ hpath, queryPart_append _ hpath,
    pathSegments_base b.path_ne hsegments hpart, walked_base _ _ b.path_ne b.path_kept]

end

/-! ## what stays as it is -/

section
variable {sets : EncodeSets}

def Base.below (b : Base sets) (segments : List (List UInt16)) (h : ∀ segment ∈ segments, Kept sets.path segment) :
    Base sets where
  scheme := b.scheme
  authority := b.authority
  path := b.path ++ segments
  scheme_eq := b.scheme_eq
  authority_ne := b.authority_ne
  authority_inside := b.authority_inside
  path_ne := List.append_ne_nil_of_left_ne_nil b.path_ne _
  path_kept segment hsegment := (List.mem_append.mp hsegment).elim (b.path_kept segment) (h segment)

theorem Base.below_text (b : Base sets) {segments : List (List UInt16)}
    (h : ∀ segment ∈ segments, Kept sets.path segment) :
    (b.below segments h).text = b.text ++ pathText segments := by
  simp [Base.text, Base.below, pathText]

theorem pathText_append (path more : List (List UInt16)) :
    pathText (path ++ more) = pathText path ++ pathText more := List.flatMap_append

/-- the units of a path are slashes and plain -/
theorem plain_pathText {path : List (List UInt16)} (h : ∀ segment ∈ path, ∀ u ∈ segment, PlainUnit sets.path u) :
    ∀ u ∈ pathText path, u = 0x2F ∨ PlainUnit sets.path u := by
  intro u hu
  obtain ⟨segment, hsegment, hu⟩ := List.mem_flatMap.mp hu
  rcases List.mem_cons.mp hu with hslash | hu
  · exact .inl hslash
  · exact .inr (h segment hsegment u hu)

theorem plain_climbed (segments : List (List UInt16)) :
    ∀ segment ∈ (climbed sets segments).2, ∀ u ∈ segment, PlainUnit sets.path u := by
  have hfold (state : Nat × List (List UInt16)) (h : ∀ segment ∈ state.2, ∀ u ∈ segment, PlainUnit sets.path u) :
      ∀ segment ∈ (segments.foldl (climb sets) state).2, ∀ u ∈ segment, PlainUnit sets.path u := by
    induction segments generalizing state with
    | nil => exact h
    | cons next segments ih =>
      refine ih _ ?_
      rw [climb]
      split
      · split
        · exact fun segment hsegment => (nomatch hsegment)
        · exact fun segment hsegment => h segment (List.dropLast_subset _ hsegment)
      · split
        · exact h
        · intro segment hsegment
          rcases List.mem_append.mp hsegment with hsegment | hsegment
          · exact h segment hsegment
          · rw [List.mem_singleton.mp hsegment]
            exact plain_encodeWith next
  have hnames := hfold (0, []) fun segment hsegment => (nomatch hsegment)
  intro segment hsegment
  rw [climbed] at hsegment
  split at hsegment
  · rcases List.mem_append.mp hsegment with hsegment | hsegment
    · exact hnames segment hsegment
    · rw [List.mem_singleton.mp hsegment]
      exact fun u hu => (nomatch hu)
  · exact hnames segment hsegment

/-- without dots no segment is taken back -/
theorem climbed_kept {segments : List (List UInt16)}
    (h : ∀ segment ∈ segments, isDots segment = false ∧ ∀ u ∈ segment, PlainUnit sets.path u) :
    climbed sets segments = (0, segments) := by
  have hfold (ups : Nat) (names : List (List UInt16)) :
      segments.foldl (climb sets) (ups, names) = (ups, names ++ segments) := by
    induction segments generalizing names with
    | nil => rw [List.append_nil, List.foldl_nil]
    | cons segment segments ih =>
      obtain ⟨hdots, hplain⟩ := h segment List.mem_cons_self
      obtain ⟨hsingle, hdouble⟩ := Bool.or_eq_false_iff.mp hdots
      rw [List.foldl_cons, climb, hsingle, hdouble]
      simp only [Bool.false_eq_true, if_false, encodeWith_plain hplain]
      rw [ih fun s hs => h s (List.mem_cons_of_mem _ hs), List.append_assoc, List.singleton_append]
  have hlast : segments.getLast?.any isDots = false := by
    cases hsegment : segments.getLast? with
    | none => rfl
    | some segment => exact (h segment (List.mem_of_getLast? hsegment)).1
  simp only [climbed, hfold, hlast, List.nil_append]
  rfl

/-! ## the segments of a text -/

theorem mem_splitOnP (text : List UInt16) :
    ∀ segment ∈ text.splitOnP isSlash, ∀ u ∈ segment, u ∈ text ∧ isSlash u = false := by
  induction text with
  | nil =>
    intro segment hsegment u hu
    rw [List.mem_singleton.mp hsegment] at hu
    cases hu
  | cons v text ih =>
    obtain ⟨head, rest, hsplit⟩ := List.exists_cons_of_ne_nil (List.splitOnP_ne_nil isSlash text)
    rw [List.splitOnP_cons_eq_if_modifyHead, hsplit, List.modifyHead_cons]
    rw [hsplit] at ih
    have hlater (segment) (hsegment : segment ∈ head :: rest) (u) (hu : u ∈ segment) :
        u ∈ v :: text ∧ isSlash u = false :=
      ⟨List.mem_cons_of_mem _ (ih segment hsegment u hu).1, (ih segment hsegment u hu).2⟩
    split
    · intro segment hsegment u hu
      rcases List.mem_cons.mp hsegment with rfl | hsegment
      · cases hu
      · exact hlater segment hsegment u hu
    · next hv =>
      intro segment hsegment u hu
      rcases List.mem_cons.mp hsegment with rfl | hsegment
      · rcases List.mem_cons.mp hu with rfl | hu
        · exact ⟨List.mem_cons_self, Bool.eq_false_iff.mpr hv⟩
        · exact hlater head List.mem_cons_self u hu
      · exact hlater segment (List.mem_cons_of_mem _ hsegment) u hu

/-- a text without a backslash is that of its segments -/
theorem pathText_splitOnP {text : List UInt16} (h : 0x5C ∉ text) :
    pathText (text.splitOnP isSlash) = 0x2F :: text := by
  induction text with
  | nil => rfl
  | cons v text ih =>
    rw [List.mem_cons, not_or] at h
    have ih := ih h.2
    obtain ⟨head, rest, hsplit⟩ := List.exists_cons_of_ne_nil (List.splitOnP_ne_nil isSlash text)
    rw [List.splitOnP_cons_eq_if_modifyHead]
    split
    · next hv =>
      have hslash : v = 0x2F := by
        rw [isSlash, Bool.or_eq_true, beq_iff_eq, beq_iff_eq] at hv
        exact hv.resolve_right fun heq => h.1 heq.symm
      rw [hslash, ← ih]
      rfl
    · rw [hsplit] at ih ⊢
      have htext : pathText (head :: rest) = 0x2F :: (head ++ pathText rest) := rfl
      rw [htext] at ih
      show 0x2F :: (v :: head ++ pathText rest) = _
      rw [List.cons_append, (List.cons.inj ih).2]

theorem splitOnP_append_front {name text head : List UInt16} {rest : List (List UInt16)}
    (h : ∀ u ∈ name, isSlash u = false) (hsplit : text.splitOnP isSlash = head :: rest) :
    (name ++ text).splitOnP isSlash = (name ++ head) :: rest := by
  induction name with
  | nil => exact hsplit
  | cons u name ih =>
    rw [List.cons_append, List.splitOnP_cons_eq_if_modifyHead, h u List.mem_cons_self,
      ih fun v hv => h v (List.mem_cons_of_mem _ hv)]
    rfl

/-- dots begin with a dot -/
theorem isDots_cons {u : UInt16} (h : u ≠ 0x2E ∧ u ≠ 0x25) (segment : List UInt16) :
    isDots (u :: segment) = false := by
  have hlower (v : UInt16) (hv : v = 0x2E ∨ v = 0x25) (huv : u ≠ v) : lowerUnit u ≠ v := by
    rw [lowerUnit]
    split
    · next hcapital =>
      intro heq
      have hnat := congrArg UInt16.toNat heq
      rw [UInt16.toNat_add] at hnat
      rcases hv with rfl | rfl
      · simp at hnat
        omega
      · simp at hnat
        omega
    · exact huv
  have hdot := hlower 0x2E (.inl rfl) h.1
  have hpercent := hlower 0x25 (.inr rfl) h.2
  have hne (v : UInt16) (vs : List UInt16) (huv : u ≠ v) : (u :: segment == v :: vs) = false :=
    beq_false_of_ne fun heq => huv (List.cons.inj heq).1
  have hmap (v : UInt16) (vs : List UInt16) (huv : lowerUnit u ≠ v) :
      ((u :: segment).map lowerUnit == v :: vs) = false :=
    beq_false_of_ne fun heq => huv (List.cons.inj heq).1
  show (_ || _) = false
  rw [isSingleDot, isDoubleDot]
  exact Bool.or_eq_false_iff.mpr ⟨Bool.or_eq_false_iff.mpr ⟨hne _ _ h.1, hmap _ _ hpercent⟩,
    Bool.or_eq_false_iff.mpr ⟨Bool.or_eq_false_iff.mpr ⟨Bool.or_eq_false_iff.mpr ⟨hne _ _ h.1, hmap _ _ hdot⟩,
      hmap _ _ hpercent⟩, hmap _ _ hpercent⟩⟩

/-! ## words -/

/-- an ASCII letter, a digit or a hyphen -/
def isWordUnit (u : UInt16) : Bool :=
  decide (0x30 ≤ u.toNat ∧ u.toNat ≤ 0x39 ∨ 0x41 ≤ u.toNat ∧ u.toNat ≤ 0x5A ∨
    0x61 ≤ u.toNat ∧ u.toNat ≤ 0x7A ∨ u.toNat = 0x2D)

theorem loneChar_word {u : UInt16} (h : isWordUnit u = true) :
    isSurrogate u = false ∧ ((loneChar u).isAlphanum = true ∨ loneChar u = '-') := by
  have hrange := of_decide_eq_true h
  have hsurrogate : isSurrogate u = false := by
    rw [Bool.eq_false_iff, ne_eq, isSurrogate_iff]
    omega
  have hall : ∀ n < 0x7B, (0x30 ≤ n ∧ n ≤ 0x39 ∨ 0x41 ≤ n ∧ n ≤ 0x5A ∨ 0x61 ≤ n ∧ n ≤ 0x7A ∨ n = 0x2D) →
      (Char.ofNat n).isAlphanum = true ∨ Char.ofNat n = '-' := by decide
  refine ⟨hsurrogate, ?_⟩
  rw [loneChar, hsurrogate]
  exact hall u.toNat (by omega) hrange

theorem plain_word {set : EncodeSet} {u : UInt16} (h : isWordUnit u = true) : PlainUnit set u := by
  obtain ⟨hsurrogate, halphanum | hhyphen⟩ := loneChar_word h
  · exact ⟨hsurrogate, set.kept _ (.inl halphanum)⟩
  · exact ⟨hsurrogate, set.kept _ (.inr (.inl hhyphen))⟩

theorem kept_word (set : EncodeSet) {us : List UInt16} (hne : us ≠ []) (h : ∀ u ∈ us, isWordUnit u = true) :
    Kept set us ∧ ∃ v vs, us = v :: vs ∧ v ≠ 0x2E ∧ v ≠ 0x25 := by
  obtain ⟨v, vs, rfl⟩ := List.exists_cons_of_ne_nil hne
  have hnot (w : UInt16) (hw : isWordUnit w = false) (u) (hu : u ∈ v :: vs) : u ≠ w := by
    rintro rfl
    rw [h u hu] at hw
    cases hw
  have hfirst : v ≠ 0x2E ∧ v ≠ 0x25 :=
    ⟨hnot _ (by decide) v List.mem_cons_self, hnot _ (by decide) v List.mem_cons_self⟩
  refine ⟨⟨isDots_cons hfirst vs, fun u hu => plain_word (h u hu), fun u hu => ?_⟩, v, vs, rfl, hfirst⟩
  have hslash : (u == 0x2F) = false := beq_false_of_ne (hnot _ (by decide) u hu)
  have hback : (u == 0x5C) = false := beq_false_of_ne (hnot _ (by decide) u hu)
  have hmark : (u == 0x3F) = false := beq_false_of_ne (hnot _ (by decide) u hu)
  have hhash : (u == 0x23) = false := beq_false_of_ne (hnot _ (by decide) u hu)
  rw [endsAuthority, isSlash, hslash, hback, hmark, hhash]
  rfl

/-! ## a text that stays as it is -/

/-- the units of its path and of its query stand for themselves -/
structure Unchanged (sets : EncodeSets) (text : List UInt16) : Prop where
  path : ∀ u ∈ pathPart text, u = 0x2F ∨ PlainUnit sets.path u
  query : ∀ q ∈ queryPart text, ∀ u ∈ q, PlainUnit sets.query u

/-- no dot segments in the path and no backslash -/
structure NoDots (text : List UInt16) : Prop where
  segments : ∀ segment ∈ (pathPart text).splitOnP isSlash, isDots segment = false
  backslash : 0x5C ∉ text

theorem Unchanged.range {text : List UInt16} (h : Unchanged sets text) :
    ∀ u ∈ beforeHash text, 0x20 < u.toNat := by
  intro u hu
  by_cases hpath : u ∈ pathPart text
  · rcases h.path u hpath with rfl | hplain
    · decide
    · exact hplain.range.1
  · have hsplit : pathPart text ++ (beforeHash text).dropWhile (· ≠ 0x3F) = beforeHash text :=
      List.takeWhile_append_dropWhile
    rw [← hsplit, List.mem_append] at hu
    have hrest := hu.resolve_left hpath
    have hmark : 0x3F ∈ beforeHash text := by
      by_contra hmark
      have hnil : (beforeHash text).dropWhile (· ≠ 0x3F) = [] :=
        List.dropWhile_eq_nil_iff.mpr fun v hv => decide_eq_true fun heq => hmark (heq ▸ hv)
      rw [hnil] at hrest
      cases hrest
    have hquery : queryPart text = some ((beforeHash text).dropWhile (· ≠ 0x3F)).tail := if_pos hmark
    cases hdrop : (beforeHash text).dropWhile (· ≠ 0x3F) with
    | nil =>
      rw [hdrop] at hrest
      cases hrest
    | cons v query =>
      rw [hdrop] at hrest hquery
      rcases List.mem_cons.mp hrest with rfl | hmem
      · have hhead := List.head?_dropWhile_not (fun w : UInt16 => decide (w ≠ 0x3F)) (beforeHash text)
        rw [hdrop] at hhead
        have hv : u = 0x3F := by simpa using hhead
        rw [hv]
        decide
      · exact (h.query _ hquery u hmem).range.1

/-- what is before the hash is not cleaned -/
theorem beforeHash_cleanedTail {text : List UInt16} (h : ∀ u ∈ beforeHash text, 0x20 < u.toNat) :
    beforeHash (cleanedTail text) = beforeHash text := by
  have hbefore : ∀ u ∈ beforeHash text, decide (u ≠ 0x23) = true := fun u hu =>
    List.mem_takeWhile_imp (p := fun v : UInt16 => decide (v ≠ 0x23)) hu
  have hsplit : beforeHash text ++ text.dropWhile (· ≠ 0x23) = text := List.takeWhile_append_dropWhile
  cases hdrop : text.dropWhile (· ≠ 0x23) with
  | nil =>
    rw [hdrop, List.append_nil] at hsplit
    by_cases hnil : beforeHash text = []
    · rw [← hsplit, hnil]
      rfl
    · have hclean := cleanedTail_append h hnil []
      rw [List.append_nil, hsplit] at hclean
      rw [hclean]
      show beforeHash (text ++ []) = _
      rw [List.append_nil]
  | cons v fragment =>
    have hhead := List.head?_dropWhile_not (fun w : UInt16 => decide (w ≠ 0x23)) text
    rw [hdrop] at hhead
    have hv : v = 0x23 := by simpa using hhead
    rw [hdrop, hv, ← List.singleton_append, ← List.append_assoc] at hsplit
    have hrange : ∀ u ∈ beforeHash text ++ [0x23], 0x20 < u.toNat := by
      intro u hu
      rcases List.mem_append.mp hu with hu | hu
      · exact h u hu
      · rw [List.mem_singleton.mp hu]
        decide
    have hclean := cleanedTail_append hrange (List.append_ne_nil_of_right_ne_nil _ (List.cons_ne_nil _ _)) fragment
    rw [hsplit] at hclean
    rw [hclean, List.append_assoc, beforeHash, List.takeWhile_append_of_pos hbefore]
    exact List.append_nil _

/-- **what stays as it is below a base**; `name` is not read as dots, whatever follows it -/
theorem parse_unchanged (b : Base sets) {name text : List UInt16} (hkept : Kept sets.path name)
    (hname : ∃ u us, name = u :: us ∧ u ≠ 0x2E ∧ u ≠ 0x25) (hdots : NoDots text) (hplain : Unchanged sets text) :
    parse sets (b.text ++ (0x2F :: (name ++ text)))
      = some ⟨b.scheme, b.authority, b.path ++ (name ++ pathPart text).splitOnP isSlash, queryPart text⟩ ∧
    pathText (b.path ++ (name ++ pathPart text).splitOnP isSlash)
      = pathText b.path ++ (0x2F :: (name ++ pathPart text)) := by
  have hinside (u) (hu : u ∈ name) : isSlash u = false ∧ u ≠ 0x23 ∧ u ≠ 0x3F := by
    have hends := hkept.inside u hu
    rw [endsAuthority, Bool.or_eq_false_iff, Bool.or_eq_false_iff, beq_eq_false_iff_ne, beq_eq_false_iff_ne] at hends
    exact ⟨hends.1.1, hends.2, hends.1.2⟩
  have hnoback : 0x5C ∉ name ++ pathPart text := by
    intro hmem
    rcases List.mem_append.mp hmem with hmem | hmem
    · exact absurd (hinside _ hmem).1 (by decide)
    · have hbefore : 0x5C ∈ text :=
        List.takeWhile_subset _ (List.takeWhile_subset _ hmem)
      exact hdots.backslash hbefore
  refine ⟨?_, by rw [pathText_append, pathText_splitOnP hnoback]⟩
  -- the name and the slash before it are not cleaned
  have hfront : ∀ u ∈ 0x2F :: name, 0x20 < u.toNat := by
    intro u hu
    rcases List.mem_cons.mp hu with rfl | hu
    · decide
    · exact (hkept.plain u hu).range.1
  have hdelimiter : ∀ u ∈ 0x2F :: name, u ≠ 0x23 ∧ u ≠ 0x3F := by
    intro u hu
    rcases List.mem_cons.mp hu with rfl | hu
    · decide
    · exact (hinside u hu).2
  have hclean : cleanedTail (0x2F :: (name ++ text)) = 0x2F :: name ++ cleanedTail text :=
    cleanedTail_append hfront (List.cons_ne_nil _ _) text
  have hbefore := beforeHash_cleanedTail hplain.range
  have hpath : pathPart (cleanedTail text) = pathPart text := by rw [pathPart, hbefore, pathPart]
  have hquery : queryPart (cleanedTail text) = queryPart text := by rw [queryPart, hbefore, queryPart]
  have htail : ∀ u ∈ (cleanedTail (0x2F :: (name ++ text))).head?, endsAuthority u = true := by
    rw [hclean]
    intro u hu
    rw [← Option.some.inj hu]
    rfl
  rw [parse_below b htail, hclean, pathPart_append _ hdelimiter, queryPart_append _ hdelimiter, hpath, hquery]
  have hsegments : tailSegments (0x2F :: name ++ pathPart text) = (name ++ pathPart text).splitOnP isSlash := by
    rw [tailSegments, if_neg (by simp)]
    have hslash : (0x2F :: (name ++ pathPart text)).splitOnP isSlash
        = [] :: (name ++ pathPart text).splitOnP isSlash :=
      List.splitOnP_append_cons [] (name ++ pathPart text) rfl
    rw [List.cons_append, hslash]
    rfl
  have hnames : ∀ segment ∈ (name ++ pathPart text).splitOnP isSlash,
      isDots segment = false ∧ ∀ u ∈ segment, PlainUnit sets.path u := by
    intro segment hsegment
    constructor
    · obtain ⟨head, rest, hsplit⟩ := List.exists_cons_of_ne_nil (List.splitOnP_ne_nil isSlash (pathPart text))
      rw [splitOnP_append_front (fun u hu => (hinside u hu).1) hsplit] at hsegment
      rcases List.mem_cons.mp hsegment with rfl | hsegment
      · obtain ⟨u, us, rfl, hu⟩ := hname
        exact isDots_cons hu (us ++ head)
      · exact hdots.segments segment (hsplit ▸ List.mem_cons_of_mem _ hsegment)
    · intro u hu
      obtain ⟨hmem, hnot⟩ := mem_splitOnP _ segment hsegment u hu
      rcases List.mem_append.mp hmem with hmem | hmem
      · exact hkept.plain u hmem
      · refine (hplain.path u hmem).resolve_left fun heq => ?_
        rw [heq] at hnot
        cases hnot
  rw [hsegments, climbed_kept hnames, Nat.sub_zero, List.take_length]
  have hencoded : (queryPart text).map (encodeWith sets.query) = queryPart text := by
    cases hq : queryPart text with
    | none => rfl
    | some q => exact congrArg some (encodeWith_plain (hplain.query q hq))
  rw [hencoded]

/-- what is parsed below a base is plain -/
theorem parse_plain (b : Base sets) {tail : List UInt16} (htail : ∀ u ∈ (cleanedTail tail).head?, endsAuthority u = true)
    {url : Url} (h : parse sets (b.text ++ tail) = some url) :
    (∀ u ∈ pathText url.path, u = 0x2F ∨ PlainUnit sets.path u) ∧
      ∀ q ∈ url.query, ∀ u ∈ q, PlainUnit sets.query u := by
  rw [parse_below b htail] at h
  rw [← Option.some.inj h]
  constructor
  · refine plain_pathText fun segment hsegment => ?_
    rcases List.mem_append.mp hsegment with hsegment | hsegment
    · exact (b.path_kept segment (List.mem_of_mem_take hsegment)).plain
    · exact plain_climbed _ segment hsegment
  · intro q hq
    obtain ⟨raw, -, rfl⟩ := Option.map_eq_some_iff.mp hq
    exact plain_encodeWith raw

end

/-! ## the sets of the standard -/

def standardSet (more : List Char) : Char → Bool := fun c =>
  decide (c.toNat ≤ 0x20 ∨ 0x7E < c.toNat) || more.contains c

theorem standardSet_control (more : List Char) (c : Char) (h : c.toNat ≤ 0x20 ∨ 0x7E < c.toNat) :
    standardSet more c = true := by
  rw [standardSet, decide_eq_true h, Bool.true_or]

theorem standardSet_kept {more : List Char}
    (h : ∀ n < 0x7F, (Char.ofNat n).isAlphanum = true ∨ n = 0x2D ∨ n = 0x25 → standardSet more (Char.ofNat n) = false)
    (c : Char) (hc : c.isAlphanum = true ∨ c = '-' ∨ c = '%') : standardSet more c = false := by
  have hlt : c.toNat < 0x7F := by
    rcases hc with halphanum | rfl | rfl
    · change (((decide (c.val ≥ 'A'.val ∧ c.val ≤ 'Z'.val)) || (decide (c.val ≥ 'a'.val) && decide (c.val ≤ 'z'.val))) ||
        (decide (c.val ≥ '0'.val) && decide (c.val ≤ '9'.val))) = true at halphanum
      simp only [Bool.or_eq_true, Bool.and_eq_true, decide_eq_true_eq, UInt32.le_iff_toNat_le, ge_iff_le] at halphanum
      have hval : c.toNat = c.val.toNat := rfl
      have hliteral : ('Z'.val.toNat = 90 ∧ 'z'.val.toNat = 122) ∧ '9'.val.toNat = 57 := by decide
      simp at halphanum
      omega
    · decide
    · decide
  have hchar := h c.toNat hlt
  rw [Char.ofNat_toNat] at hchar
  refine hchar (hc.imp_right fun heq => ?_)
  rcases heq with rfl | rfl
  · exact .inl rfl
  · exact .inr rfl

/-- the path and the query of a special scheme -/
def standard : EncodeSets where
  path := ⟨standardSet "\"#<>?^`\x7b\x7d".toList, standardSet_control _, standardSet_kept (by decide)⟩
  query := ⟨standardSet "\"#<>'".toList, standardSet_control _, standardSet_kept (by decide)⟩

end WhatwgUrl
