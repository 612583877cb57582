import Mathlib.Data.List.Basic
import Mathlib.Tactic.Ring

/-!
# JavaScript strings

A JavaScript string is a list of UTF-16 code units; nothing forces its surrogates to come in
pairs.  Everything outside the engine (a UTF-8 hash input, a text column) sees the Unicode
scalar values `chars`, in which a lone surrogate has become U+FFFD.

* `JsString.chars`, `ofChars`   to scalar values and back; `chars_ofChars`;
* `JsString.isWellFormed`       no lone surrogate; `ofChars_chars_eq_iff`: exactly these strings
                                survive the way out and back;
* `JsString.isSpace`, `isBlank`  the white space of `\s` and `trim`;
* `JsString.natText`            a number as text;
* `JsString.utf8`               the UTF-8 bytes; `utf8Chars_inj`.
-/

/-- a JavaScript string: UTF-16 code units -/
structure JsString where
  units : List UInt16
  deriving DecidableEq, Repr

namespace JsString

def append (s t : JsString) : JsString := ⟨s.units ++ t.units⟩

instance : Append JsString := ⟨append⟩

@[simp] theorem units_append (s t : JsString) : (s ++ t).units = s.units ++ t.units := rfl

theorem ext_units {s t : JsString} (h : s.units = t.units) : s = t := by
  cases s; cases t; cases h; rfl

/-- the units of a text are checked one by one, not all those that there are -/
instance (priority := high) decidableAllUnits (p : UInt16 → Prop) [DecidablePred p]
    (us : List UInt16) : Decidable (∀ u ∈ us, p u) := List.decidableBAll p us

instance (priority := high) decidableAnyUnits (p : UInt16 → Prop) [DecidablePred p]
    (us : List UInt16) : Decidable (∃ u ∈ us, p u) := List.decidableBEx p us

/-! ## surrogates -/

def isLead (u : UInt16) : Bool := decide (0xD800 ≤ u.toNat ∧ u.toNat < 0xDC00)
def isTrail (u : UInt16) : Bool := decide (0xDC00 ≤ u.toNat ∧ u.toNat < 0xE000)
def isSurrogate (u : UInt16) : Bool := isLead u || isTrail u

theorem isLead_iff (u : UInt16) : isLead u = true ↔ 0xD800 ≤ u.toNat ∧ u.toNat < 0xDC00 := by
  simp [isLead]
theorem isTrail_iff (u : UInt16) : isTrail u = true ↔ 0xDC00 ≤ u.toNat ∧ u.toNat < 0xE000 := by
  simp [isTrail]
theorem isSurrogate_iff (u : UInt16) :
    isSurrogate u = true ↔ 0xD800 ≤ u.toNat ∧ u.toNat < 0xE000 := by
  rw [isSurrogate, Bool.or_eq_true, isLead_iff, isTrail_iff]
  omega

/-- the scalar value of a code unit that stands alone -/
def loneChar (u : UInt16) : Char := if isSurrogate u then '\uFFFD' else Char.ofNat u.toNat

/-- the scalar value of a surrogate pair -/
def pairChar (u v : UInt16) : Char :=
  Char.ofNat (0x10000 + (u.toNat - 0xD800) * 0x400 + (v.toNat - 0xDC00))

def decode : List UInt16 → List Char
  | [] => []
  | [u] => [loneChar u]
  | u :: v :: us =>
    if isLead u && isTrail v then pairChar u v :: decode us else loneChar u :: decode (v :: us)

/-- the code units of a scalar value -/
def encode (c : Char) : List UInt16 :=
  if c.toNat < 0x10000 then [UInt16.ofNat c.toNat]
  else [UInt16.ofNat (0xD800 + (c.toNat - 0x10000) / 0x400),
    UInt16.ofNat (0xDC00 + (c.toNat - 0x10000) % 0x400)]

def chars (s : JsString) : List Char := decode s.units
def ofChars (cs : List Char) : JsString := ⟨cs.flatMap encode⟩

/-- a literal of the source -/
def lit (s : String) : JsString := ofChars s.toList

theorem decode_cons_of_not_lead {u : UInt16} (hu : isLead u = false) (us : List UInt16) :
    decode (u :: us) = loneChar u :: decode us := by
  cases us with
  | nil => rfl
  | cons v us =>
    show (if isLead u && isTrail v then _ else _) = _
    rw [hu, Bool.false_and]
    rfl

theorem decode_pair {u v : UInt16} (hu : isLead u = true) (hv : isTrail v = true)
    (us : List UInt16) : decode (u :: v :: us) = pairChar u v :: decode us := by
  show (if isLead u && isTrail v then _ else _) = _
  rw [hu, hv]
  rfl

theorem char_range (c : Char) : c.toNat < 0xD800 ∨ (0xE000 ≤ c.toNat ∧ c.toNat < 0x110000) := by
  have h : c.toNat < 0xD800 ∨ (0xDFFF < c.toNat ∧ c.toNat < 0x110000) := c.valid
  omega

theorem toNat_ofNat16 {n : Nat} (h : n < 0x10000) : (UInt16.ofNat n).toNat = n := by
  rw [UInt16.toNat_ofNat']
  exact Nat.mod_eq_of_lt h

theorem decode_encode (c : Char) (us : List UInt16) : decode (encode c ++ us) = c :: decode us := by
  have hc := char_range c
  unfold encode
  split
  next h =>
    have hn := toNat_ofNat16 h
    have hs : isSurrogate (UInt16.ofNat c.toNat) = false := by
      rw [Bool.eq_false_iff, ne_eq, isSurrogate_iff, hn]
      omega
    have hl : isLead (UInt16.ofNat c.toNat) = false := by
      rw [isSurrogate, Bool.or_eq_false_iff] at hs
      exact hs.1
    rw [List.singleton_append, decode_cons_of_not_lead hl, loneChar, if_neg (by rw [hs]; simp), hn,
      Char.ofNat_toNat]
  next h =>
    have hq : (c.toNat - 0x10000) / 0x400 < 0x400 := by omega
    have hn1 := toNat_ofNat16 (n := 0xD800 + (c.toNat - 0x10000) / 0x400) (by omega)
    have hn2 := toNat_ofNat16 (n := 0xDC00 + (c.toNat - 0x10000) % 0x400) (by omega)
    have hl := (isLead_iff (UInt16.ofNat (0xD800 + (c.toNat - 0x10000) / 0x400))).mpr (by omega)
    have ht := (isTrail_iff (UInt16.ofNat (0xDC00 + (c.toNat - 0x10000) % 0x400))).mpr (by omega)
    rw [List.cons_append, List.singleton_append, decode_pair hl ht, pairChar, hn1, hn2]
    have e : 0x10000 + (0xD800 + (c.toNat - 0x10000) / 0x400 - 0xD800) * 0x400
        + (0xDC00 + (c.toNat - 0x10000) % 0x400 - 0xDC00) = c.toNat := by omega
    rw [e, Char.ofNat_toNat]

theorem decode_flatMap_encode (cs : List Char) (us : List UInt16) :
    decode (cs.flatMap encode ++ us) = cs ++ decode us := by
  induction cs with
  | nil => rfl
  | cons c cs ih =>
    rw [List.flatMap_cons, List.append_assoc, decode_encode, ih, List.cons_append]

theorem chars_ofChars (cs : List Char) : (ofChars cs).chars = cs := by
  have h := decode_flatMap_encode cs []
  rw [List.append_nil] at h
  show decode (cs.flatMap encode) = cs
  rw [h]
  exact List.append_nil cs

theorem length_encode_pos (c : Char) : 1 ≤ (encode c).length := by
  rw [encode]
  split
  · exact Nat.le_refl 1
  · exact Nat.le_succ 1

/-- a string has at least a unit for each of its characters -/
theorem length_le_units (cs : List Char) : cs.length ≤ (ofChars cs).units.length := by
  show cs.length ≤ (cs.flatMap encode).length
  induction cs with
  | nil => exact Nat.le_refl 0
  | cons c cs ih =>
    have hc := length_encode_pos c
    rw [List.flatMap_cons, List.length_append, List.length_cons]
    omega

/-! ## one character among the units -/

/-- a unit that is no surrogate stands for one character only -/
theorem eq_loneChar_of_mem_encode {u : UInt16} {c : Char} (hu : isSurrogate u = false)
    (h : u ∈ encode c) : c = loneChar u := by
  have hc := char_range c
  rw [Bool.eq_false_iff, ne_eq, isSurrogate_iff] at hu
  unfold encode at h
  split at h
  next hlt =>
    have hn := toNat_ofNat16 hlt
    rw [List.mem_singleton] at h
    subst h
    rw [hn] at hu
    rw [loneChar, if_neg (by rw [isSurrogate_iff, hn]; exact hu), hn, Char.ofNat_toNat]
  next hge =>
    have hn1 := toNat_ofNat16 (n := 0xD800 + (c.toNat - 0x10000) / 0x400) (by omega)
    have hn2 := toNat_ofNat16 (n := 0xDC00 + (c.toNat - 0x10000) % 0x400) (by omega)
    rcases List.mem_cons.mp h with rfl | h
    · exact absurd (by omega) hu
    · rw [List.mem_singleton] at h
      subst h
      exact absurd (by omega) hu

theorem loneChar_mem_of_mem_ofChars {u : UInt16} (hu : isSurrogate u = false) {cs : List Char}
    (h : u ∈ (ofChars cs).units) : loneChar u ∈ cs := by
  obtain ⟨c, hc, hmem⟩ := List.mem_flatMap.mp h
  exact eq_loneChar_of_mem_encode hu hmem ▸ hc

theorem loneChar_mem_decode {u : UInt16} (hu : isSurrogate u = false) {us : List UInt16}
    (h : u ∈ us) : loneChar u ∈ decode us := by
  obtain ⟨hlead, htrail⟩ := Bool.or_eq_false_iff.mp hu
  induction us using decode.induct with
  | case1 => cases h
  | case2 v =>
    rw [List.mem_singleton.mp h]
    exact List.mem_singleton_self _
  | case3 v w vs hpair ih =>
    obtain ⟨hv, hw⟩ := (Bool.and_eq_true _ _).mp hpair
    rw [decode_pair hv hw]
    refine List.mem_cons_of_mem _ (ih ?_)
    rcases List.mem_cons.mp h with rfl | h
    · rw [hlead] at hv
      cases hv
    · rcases List.mem_cons.mp h with rfl | h
      · rw [htrail] at hw
        cases hw
      · exact h
  | case4 v w vs hpair ih =>
    rw [decode, if_neg hpair]
    rcases List.mem_cons.mp h with rfl | h
    · exact List.mem_cons_self
    · exact List.mem_cons_of_mem _ (ih h)

/-! ## well-formed strings -/

/-- `String.prototype.isWellFormed`: no lone surrogate -/
def wellFormedUnits : List UInt16 → Bool
  | [] => true
  | [u] => !isSurrogate u
  | u :: v :: us =>
    if isLead u && isTrail v then wellFormedUnits us
    else !isSurrogate u && wellFormedUnits (v :: us)

def isWellFormed (s : JsString) : Bool := wellFormedUnits s.units

theorem toNat_ofNat_of_valid {n : Nat} (h : n < 0xD800 ∨ (0xE000 ≤ n ∧ n < 0x110000)) :
    (Char.ofNat n).toNat = n := by
  have hv : n.isValidChar := h.imp id (fun h => ⟨by omega, h.2⟩)
  rw [Char.ofNat, dif_pos hv]
  rfl

theorem encode_loneChar {u : UInt16} (hu : isSurrogate u = false) : encode (loneChar u) = [u] := by
  have hr : ¬ (0xD800 ≤ u.toNat ∧ u.toNat < 0xE000) := by
    rw [← isSurrogate_iff, hu]
    simp
  have hlt : u.toNat < 0x10000 := u.toNat_lt
  have hn : (loneChar u).toNat = u.toNat := by
    rw [loneChar, if_neg (by rw [hu]; simp)]
    exact toNat_ofNat_of_valid (by omega)
  rw [encode, hn, if_pos hlt, UInt16.ofNat_toNat]

theorem encode_pairChar {u v : UInt16} (hu : isLead u = true) (hv : isTrail v = true) :
    encode (pairChar u v) = [u, v] := by
  rw [isLead_iff] at hu
  rw [isTrail_iff] at hv
  have hn : (pairChar u v).toNat = 0x10000 + (u.toNat - 0xD800) * 0x400 + (v.toNat - 0xDC00) :=
    toNat_ofNat_of_valid (by omega)
  have e1 : 0xD800 + ((pairChar u v).toNat - 0x10000) / 0x400 = u.toNat := by omega
  have e2 : 0xDC00 + ((pairChar u v).toNat - 0x10000) % 0x400 = v.toNat := by omega
  rw [encode, if_neg (by omega), e1, e2, UInt16.ofNat_toNat, UInt16.ofNat_toNat]

/-- a lone surrogate comes back as U+FFFD, which is another unit -/
theorem encode_loneChar_ne {u : UInt16} (hu : isSurrogate u = true) : encode (loneChar u) ≠ [u] := by
  rw [loneChar, if_pos hu]
  intro h
  have e : u = 0xFFFD := by
    have h' : ([0xFFFD] : List UInt16) = [u] := h
    simpa using h'.symm
  rw [e] at hu
  exact absurd hu (by decide)

theorem length_encode_loneChar (u : UInt16) : (encode (loneChar u)).length = 1 := by
  cases hu : isSurrogate u with
  | false => rw [encode_loneChar hu]; rfl
  | true =>
    rw [loneChar, if_pos hu]
    rfl

theorem flatMap_encode_decode (us : List UInt16) :
    (decode us).flatMap encode = us ↔ wellFormedUnits us = true := by
  induction us using decode.induct with
  | case1 => simp [decode, wellFormedUnits]
  | case2 u =>
    cases hu : isSurrogate u with
    | false => simp [decode, wellFormedUnits, encode_loneChar hu, hu]
    | true => simp [decode, wellFormedUnits, encode_loneChar_ne hu, hu]
  | case3 u v us h ih =>
    obtain ⟨hu, hv⟩ := (Bool.and_eq_true _ _).mp h
    rw [decode_pair hu hv, List.flatMap_cons, encode_pairChar hu hv, wellFormedUnits, if_pos h, ← ih]
    simp
  | case4 u v us h ih =>
    rw [decode, if_neg h, List.flatMap_cons, wellFormedUnits, if_neg h, Bool.and_eq_true, ← ih]
    cases hu : isSurrogate u with
    | false => simp [encode_loneChar hu]
    | true =>
      simp only [Bool.not_true, Bool.false_eq_true, false_and, iff_false]
      intro he
      have hl := length_encode_loneChar u
      obtain ⟨x, hx⟩ := List.length_eq_one_iff.mp hl
      rw [hx, List.singleton_append, List.cons.injEq] at he
      exact encode_loneChar_ne hu (by rw [hx, he.1])

/-- exactly the well-formed strings survive the way out of the engine and back -/
theorem ofChars_chars_eq_iff (s : JsString) : ofChars s.chars = s ↔ s.isWellFormed = true := by
  rw [isWellFormed, ← flatMap_encode_decode]
  exact ⟨fun h => congrArg units h, fun h => ext_units h⟩

theorem isWellFormed_ofChars (cs : List Char) : (ofChars cs).isWellFormed = true := by
  rw [← ofChars_chars_eq_iff, chars_ofChars]

/-- well-formed strings with the same scalar values are equal -/
theorem chars_inj {s t : JsString} (hs : s.isWellFormed = true) (ht : t.isWellFormed = true)
    (h : s.chars = t.chars) : s = t := by
  rw [← (ofChars_chars_eq_iff s).mpr hs, ← (ofChars_chars_eq_iff t).mpr ht, h]

/-! ## white space -/

/-- what `\s` matches and `trim` takes off -/
def isSpace (u : UInt16) : Bool :=
  decide (0x09 ≤ u ∧ u ≤ 0x0D ∨ u = 0x20 ∨ u = 0xA0 ∨ u = 0x1680 ∨ 0x2000 ≤ u ∧ u ≤ 0x200A ∨
    u = 0x2028 ∨ u = 0x2029 ∨ u = 0x202F ∨ u = 0x205F ∨ u = 0x3000 ∨ u = 0xFEFF)

/-- nothing is left of a blank string after `trim` -/
def isBlank (s : JsString) : Bool := s.units.all isSpace

/-- a text that is not there and an empty one are both falsy -/
def truthy (text : Option JsString) : Option JsString := text.filter fun s => s.units ≠ []

/-! ## numbers -/

/-- a natural number in a template string -/
def natText (n : Nat) : JsString := lit (toString n)

/-! ## UTF-8 -/

def utf8Chars (cs : List Char) : List UInt8 := cs.flatMap String.utf8EncodeChar

/-- what a hash or a socket gets of a string -/
def utf8 (s : JsString) : List UInt8 := utf8Chars s.chars

theorem utf8Chars_append (cs ds : List Char) :
    utf8Chars (cs ++ ds) = utf8Chars cs ++ utf8Chars ds := List.flatMap_append ..

theorem utf8Chars_inj {cs ds : List Char} (h : utf8Chars cs = utf8Chars ds) : cs = ds := by
  have hb : cs.utf8Encode = ds.utf8Encode := by
    unfold List.utf8Encode
    exact congrArg List.toByteArray h
  have hs : String.ofList cs = String.ofList ds := by
    rw [← String.toByteArray_inj, String.toByteArray_ofList, String.toByteArray_ofList, hb]
  rw [← String.toList_ofList (l := cs), ← String.toList_ofList (l := ds), hs]

end JsString
