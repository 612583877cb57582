import JinCore.Js.Json
import JinCore.Js.NumberText
import JinCore.Js.Uri

/-!
# JSON texts of any values

* `Value`, `Value.text`   the values, and `JSON.stringify`;
* `setMember`             the order of the properties of an object;
* `parse`                 `JSON.parse`, none where a `SyntaxError` is thrown;
* `readString_escapeUnits`   a quoted string is read back;
* `parse_sound`           what is parsed has doubles for its numbers and its properties in order.
-/

namespace Json
open JsString

inductive Value where
  | null
  | bool (b : Bool)
  | number (n : JsNumber)
  | string (s : JsString)
  | array (items : List Value)
  | object (members : List (JsString × Value))

/-! ## properties -/

/-- the array index that is written as this key -/
def arrayIndex (key : JsString) : Option Nat :=
  (decimalValue key.chars).bind fun n => if natText n = key ∧ n < 2 ^ 32 - 1 then some n else none

/-- array indices come first, in their order -/
def keyRank (key : JsString) : Nat := (arrayIndex key).getD (2 ^ 32)

def setMember : List (JsString × Value) → JsString → Value → List (JsString × Value)
  | [], key, v => [(key, v)]
  | (k, w) :: members, key, v =>
    if k = key then (k, v) :: members
    else if keyRank key < keyRank k then (key, v) :: (k, w) :: members
    else (k, w) :: setMember members key v

/-- `k` and `key` in the order of the properties -/
def KeyBefore (k key : JsString) : Prop := k ≠ key ∧ keyRank k ≤ keyRank key

/-- properties that an object can have, in this order -/
def InOrder (members : List (JsString × Value)) : Prop :=
  members.Pairwise fun m m' => KeyBefore m.1 m'.1

/-! ## texts -/

mutual

def Value.text : Value → List UInt16
  | .null => (lit "null").units
  | .bool true => (lit "true").units
  | .bool false => (lit "false").units
  | .number (.finite q) => (ofChars (numberText q)).units
  | .number _ => (lit "null").units
  | .string s => (quote s).units
  | .array [] => [0x5B, 0x5D]
  | .array (v :: vs) => 0x5B :: (v.text ++ itemsText vs)
  | .object [] => [0x7B, 0x7D]
  | .object ((key, v) :: members) => 0x7B :: ((quote key).units ++ 0x3A :: (v.text ++ membersText members))
termination_by structural v => v

/-- the items after the first one, and the closing bracket -/
def itemsText : List Value → List UInt16
  | [] => [0x5D]
  | v :: vs => 0x2C :: (v.text ++ itemsText vs)
termination_by structural vs => vs

/-- the members after the first one, and the closing brace -/
def membersText : List (JsString × Value) → List UInt16
  | [] => [0x7D]
  | (key, v) :: members => 0x2C :: ((quote key).units ++ 0x3A :: (v.text ++ membersText members))
termination_by structural members => members

end

/-! ## parsing -/

def isJsonSpace (u : UInt16) : Bool := u == 0x20 || u == 0x0A || u == 0x0D || u == 0x09

/-- white space and a mark -/
def skip (mark : UInt16) (us : List UInt16) : Option (List UInt16) :=
  match us.dropWhile isJsonSpace with
  | [] => none
  | u :: us => if u = mark then some us else none

/-- what a letter after a backslash stands for -/
def escaped (u : UInt16) : Option UInt16 :=
  if u = 0x22 ∨ u = 0x5C ∨ u = 0x2F then some u
  else if u = 0x62 then some 0x08
  else if u = 0x66 then some 0x0C
  else if u = 0x6E then some 0x0A
  else if u = 0x72 then some 0x0D
  else if u = 0x74 then some 0x09
  else none

def hexUnit (a b c d : UInt16) : Option UInt16 :=
  match hexValue a, hexValue b, hexValue c, hexValue d with
  | some a, some b, some c, some d => some (UInt16.ofNat (a * 4096 + b * 256 + c * 16 + d))
  | _, _, _, _ => none

/-- the string up to the closing quote, and what follows it -/
def readString : List UInt16 → Option (List UInt16 × List UInt16)
  | [] => none
  | u :: us =>
    if u = 0x22 then some ([], us)
    else if u = 0x5C then
      match us with
      | [] => none
      | e :: us =>
        if e = 0x75 then
          match us with
          | a :: b :: c :: d :: us =>
            (hexUnit a b c d).bind fun v => (readString us).map (Prod.map (v :: ·) id)
          | _ => none
        else (escaped e).bind fun v => (readString us).map (Prod.map (v :: ·) id)
    else if u < 0x20 then none
    else (readString us).map (Prod.map (u :: ·) id)
termination_by structural us => us

def isWordUnit (u : UInt16) : Bool :=
  decide (0x30 ≤ u.toNat ∧ u.toNat ≤ 0x39 ∨ 0x41 ≤ u.toNat ∧ u.toNat ≤ 0x5A ∨
    0x61 ≤ u.toNat ∧ u.toNat ≤ 0x7A) || u == 0x2B || u == 0x2D || u == 0x2E

/-- a literal or a number -/
def parseAtom (us : List UInt16) : Option (Value × List UInt16) :=
  let word : JsString := ⟨us.takeWhile isWordUnit⟩
  let rest := us.dropWhile isWordUnit
  if word = lit "null" then some (.null, rest)
  else if word = lit "true" then some (.bool true, rest)
  else if word = lit "false" then some (.bool false, rest)
  else (jsonNumber word.chars).map fun n => (.number n, rest)

-- each call has read a unit since the one that made it
mutual

def parseValue : Nat → List UInt16 → Option (Value × List UInt16)
  | 0, _ => none
  | fuel + 1, us =>
    match us.dropWhile isJsonSpace with
    | [] => none
    | u :: us =>
      if u = 0x22 then (readString us).map fun read => (.string ⟨read.1⟩, read.2)
      else if u = 0x5B then
        match skip 0x5D us with
        | some rest => some (.array [], rest)
        | none => (parseItems fuel us).map fun read => (.array read.1, read.2)
      else if u = 0x7B then
        match skip 0x7D us with
        | some rest => some (.object [], rest)
        | none => (parseMembers fuel [] us).map fun read => (.object read.1, read.2)
      else parseAtom (u :: us)
termination_by structural fuel => fuel

def parseItems : Nat → List UInt16 → Option (List Value × List UInt16)
  | 0, _ => none
  | fuel + 1, us =>
    (parseValue fuel us).bind fun read =>
      match skip 0x2C read.2 with
      | some rest => (parseItems fuel rest).map fun more => (read.1 :: more.1, more.2)
      | none => (skip 0x5D read.2).map fun rest => ([read.1], rest)
termination_by structural fuel => fuel

def parseMembers : Nat → List (JsString × Value) → List UInt16 →
    Option (List (JsString × Value) × List UInt16)
  | 0, _, _ => none
  | fuel + 1, members, us =>
    (skip 0x22 us).bind fun us => (readString us).bind fun key => (skip 0x3A key.2).bind fun us =>
      (parseValue fuel us).bind fun read =>
        let members := setMember members ⟨key.1⟩ read.1
        match skip 0x2C read.2 with
        | some rest => parseMembers fuel members rest
        | none => (skip 0x7D read.2).map fun rest => (members, rest)
termination_by structural fuel => fuel

end

def parse (s : JsString) : Option Value :=
  (parseValue (s.units.length + 1) s.units).bind fun read =>
    if read.2.all isJsonSpace = true then some read.1 else none

/-! ## strings are read back -/

theorem readString_plain {u : UInt16} (h1 : u ≠ 0x22) (h2 : u ≠ 0x5C) (h3 : ¬u < 0x20) (us : List UInt16) :
    readString (u :: us) = (readString us).map (Prod.map (u :: ·) id) := by
  rw [readString.eq_def]
  simp only [if_neg h1, if_neg h2, if_neg h3]

theorem readString_short {e v : UInt16} (he : e ≠ 0x75) (hv : escaped e = some v) (us : List UInt16) :
    readString (0x5C :: e :: us) = (readString us).map (Prod.map (v :: ·) id) := by
  rw [readString.eq_def]
  simp only [if_neg he, hv]
  rfl

theorem readString_long {a b c d v : UInt16} (hv : hexUnit a b c d = some v) (us : List UInt16) :
    readString (0x5C :: 0x75 :: a :: b :: c :: d :: us)
      = (readString us).map (Prod.map (v :: ·) id) := by
  rw [readString.eq_def]
  simp only [hv]
  rfl

theorem hexValue_hexDigit {n : Nat} (h : n < 16) : hexValue (hexDigit n) = some n := by
  interval_cases n <;> rfl

theorem readString_unicodeEscape (u : UInt16) (us : List UInt16) :
    readString (unicodeEscape u ++ us) = (readString us).map (Prod.map (u :: ·) id) := by
  have hu : u.toNat < 0x10000 := u.toNat_lt
  have hunit : hexUnit (hexDigit (u.toNat / 4096)) (hexDigit (u.toNat / 256 % 16))
      (hexDigit (u.toNat / 16 % 16)) (hexDigit (u.toNat % 16)) = some u := by
    have hvalue : u.toNat / 4096 * 4096 + u.toNat / 256 % 16 * 256 + u.toNat / 16 % 16 * 16
        + u.toNat % 16 = u.toNat := by omega
    rw [hexUnit, hexValue_hexDigit (by omega), hexValue_hexDigit (by omega),
      hexValue_hexDigit (by omega), hexValue_hexDigit (by omega)]
    simp only [hvalue, UInt16.ofNat_toNat]
  exact readString_long hunit us

theorem readString_escapeUnit (u : UInt16) (us : List UInt16) :
    readString (escapeUnit u ++ us) = (readString us).map (Prod.map (u :: ·) id) := by
  have hshort {e v : UInt16} (hu : u = v) (he : e ≠ 0x75) (hv : escaped e = some v) :
      readString ([0x5C, e] ++ us) = (readString us).map (Prod.map (u :: ·) id) := by
    rw [hu]
    exact readString_short he hv us
  unfold escapeUnit
  split
  next h => exact hshort h (by decide) rfl
  split
  next h => exact hshort h (by decide) rfl
  split
  next h => exact hshort h (by decide) rfl
  split
  next h => exact hshort h (by decide) rfl
  split
  next h => exact hshort h (by decide) rfl
  split
  next h => exact hshort h (by decide) rfl
  split
  next h => exact hshort h (by decide) rfl
  split
  · exact readString_unicodeEscape u us
  next h1 h2 h3 =>
    rw [Bool.or_eq_true, not_or, decide_eq_true_eq] at h3
    exact readString_plain h1 h2 h3.1 us

/-- **a quoted string is read back** -/
theorem readString_escapeUnits (us rest : List UInt16) :
    readString (escapeUnits us ++ 0x22 :: rest) = some (us, rest) := by
  have hquote : readString (0x22 :: rest) = some ([], rest) := by
    rw [readString.eq_def]
    rfl
  have hsurrogate {u : UInt16} (hu : 0xD800 ≤ u.toNat) : u ≠ 0x22 ∧ u ≠ 0x5C ∧ ¬u < 0x20 := by
    have hlt (v : UInt16) (hv : v.toNat < 0xD800) : u ≠ v := by
      intro heq
      rw [heq] at hu
      omega
    refine ⟨hlt _ (by decide), hlt _ (by decide), fun h => ?_⟩
    rw [UInt16.lt_iff_toNat_lt] at h
    have hspace : (0x20 : UInt16).toNat = 0x20 := rfl
    omega
  induction us using escapeUnits.induct with
  | case1 => exact hquote
  | case2 u =>
    rw [escapeUnits, readString_escapeUnit, hquote]
    rfl
  | case3 u v us h ih =>
    obtain ⟨hu, hv⟩ := (Bool.and_eq_true _ _).mp h
    rw [isLead_iff] at hu
    rw [isTrail_iff] at hv
    obtain ⟨hu1, hu2, hu3⟩ := hsurrogate (u := u) hu.1
    obtain ⟨hv1, hv2, hv3⟩ := hsurrogate (u := v) (by omega)
    rw [escapeUnits, if_pos h, List.cons_append, List.cons_append, readString_plain hu1 hu2 hu3,
      readString_plain hv1 hv2 hv3, ih]
    rfl
  | case4 u v us h ih =>
    rw [escapeUnits, if_neg h, List.append_assoc, readString_escapeUnit, ih]
    rfl

/-! ## what is parsed -/

mutual

/-- doubles, and properties in their order -/
def Value.Sound : Value → Prop
  | .number (.finite q) => IsDouble q
  | .array items => SoundItems items
  | .object members => InOrder members ∧ SoundMembers members
  | _ => True
termination_by structural v => v

def SoundItems : List Value → Prop
  | [] => True
  | v :: vs => v.Sound ∧ SoundItems vs
termination_by structural vs => vs

def SoundMembers : List (JsString × Value) → Prop
  | [] => True
  | (_, v) :: members => v.Sound ∧ SoundMembers members
termination_by structural members => members

end

section
variable {members : List (JsString × Value)} {key : JsString} {v : Value}

theorem mem_setMember {m : JsString × Value} (h : m ∈ setMember members key v) :
    m = (key, v) ∨ m ∈ members := by
  induction members with
  | nil => exact .inl (List.mem_singleton.mp h)
  | cons first members ih =>
    obtain ⟨k, w⟩ := first
    rw [setMember] at h
    split at h
    · next hk =>
      rcases List.mem_cons.mp h with heq | h
      · exact .inl (by rw [heq, hk])
      · exact .inr (List.mem_cons_of_mem _ h)
    · split at h
      · exact List.mem_cons.mp h
      · rcases List.mem_cons.mp h with heq | h
        · exact .inr (heq ▸ List.mem_cons_self)
        · exact (ih h).imp id (List.mem_cons_of_mem _)

theorem inOrder_setMember (h : InOrder members) (key : JsString) (v : Value) : InOrder (setMember members key v) := by
  induction members with
  | nil => exact List.pairwise_singleton _ _
  | cons first members ih =>
    obtain ⟨k, w⟩ := first
    obtain ⟨hfirst, hrest⟩ := List.pairwise_cons.mp h
    rw [setMember]
    split
    · exact List.pairwise_cons.mpr ⟨hfirst, hrest⟩
    · next hne =>
      split
      · next hrank =>
        refine List.pairwise_cons.mpr ⟨fun m hm => ?_, h⟩
        -- all that follows has a higher rank
        have hle : keyRank k ≤ keyRank m.1 := by
          rcases List.mem_cons.mp hm with rfl | hm
          · exact Nat.le_refl _
          · exact (hfirst m hm).2
        show key ≠ m.1 ∧ keyRank key ≤ keyRank m.1
        refine ⟨fun heq => ?_, by omega⟩
        rw [← heq] at hle
        omega
      · next hrank =>
        refine List.pairwise_cons.mpr ⟨fun m hm => ?_, ih hrest⟩
        rcases mem_setMember hm with rfl | hm
        · exact ⟨hne, Nat.not_lt.mp hrank⟩
        · exact hfirst m hm

theorem soundMembers_setMember (hv : v.Sound) (h : SoundMembers members) (key : JsString) :
    SoundMembers (setMember members key v) := by
  induction members with
  | nil => exact ⟨hv, trivial⟩
  | cons first members ih =>
    obtain ⟨k, w⟩ := first
    obtain ⟨hw, hrest⟩ := h
    rw [setMember]
    split
    · exact ⟨hv, hrest⟩
    · split
      · exact ⟨hv, hw, hrest⟩
      · exact ⟨hw, ih hrest⟩

/-- a property that comes after the others -/
theorem setMember_last (h : ∀ m ∈ members, KeyBefore m.1 key) :
    setMember members key v = members ++ [(key, v)] := by
  induction members with
  | nil => rfl
  | cons first members ih =>
    obtain ⟨k, w⟩ := first
    obtain ⟨hne, hrank⟩ := h (k, w) List.mem_cons_self
    rw [setMember, if_neg hne, if_neg (Nat.not_lt.mpr hrank),
      ih fun m hm => h m (List.mem_cons_of_mem _ hm)]
    rfl

end

theorem parseAtom_sound {us rest : List UInt16} {v : Value} (h : parseAtom us = some (v, rest)) : v.Sound := by
  simp only [parseAtom] at h
  split at h
  · rw [← (Prod.mk.inj (Option.some.inj h)).1]
    trivial
  · split at h
    · rw [← (Prod.mk.inj (Option.some.inj h)).1]
      trivial
    · split at h
      · rw [← (Prod.mk.inj (Option.some.inj h)).1]
        trivial
      · obtain ⟨n, hn, heq⟩ := Option.map_eq_some_iff.mp h
        rw [← (Prod.mk.inj heq).1]
        cases n with
        | nan => trivial
        | infinity negative => trivial
        | finite q => exact jsonNumber_isDouble hn

theorem parse_sound_aux (fuel : Nat) :
    (∀ us v rest, parseValue fuel us = some (v, rest) → v.Sound) ∧
    (∀ us vs rest, parseItems fuel us = some (vs, rest) → SoundItems vs) ∧
    (∀ members us ms rest, InOrder members → SoundMembers members →
      parseMembers fuel members us = some (ms, rest) → InOrder ms ∧ SoundMembers ms) := by
  induction fuel with
  | zero =>
    refine ⟨fun us v rest h => ?_, fun us vs rest h => ?_, fun members us ms rest _ _ h => ?_⟩
    · cases h
    · cases h
    · cases h
  | succ fuel ih =>
    obtain ⟨hvalue, hitems, hmembers⟩ := ih
    refine ⟨fun us v rest h => ?_, fun us vs rest h => ?_, fun members us ms rest horder hsound h => ?_⟩
    · rw [parseValue] at h
      split at h
      · cases h
      · split at h
        · obtain ⟨read, -, heq⟩ := Option.map_eq_some_iff.mp h
          rw [← (Prod.mk.inj heq).1]
          trivial
        · split at h
          · split at h
            · rw [← (Prod.mk.inj (Option.some.inj h)).1]
              trivial
            · obtain ⟨read, hread, heq⟩ := Option.map_eq_some_iff.mp h
              rw [← (Prod.mk.inj heq).1]
              exact hitems _ _ _ hread
          · split at h
            · split at h
              · rw [← (Prod.mk.inj (Option.some.inj h)).1]
                exact ⟨List.Pairwise.nil, trivial⟩
              · obtain ⟨read, hread, heq⟩ := Option.map_eq_some_iff.mp h
                rw [← (Prod.mk.inj heq).1]
                exact hmembers _ _ _ _ List.Pairwise.nil trivial hread
            · exact parseAtom_sound h
    · rw [parseItems] at h
      obtain ⟨read, hread, h⟩ := Option.bind_eq_some_iff.mp h
      split at h
      · obtain ⟨more, hmore, heq⟩ := Option.map_eq_some_iff.mp h
        rw [← (Prod.mk.inj heq).1]
        exact ⟨hvalue _ _ _ hread, hitems _ _ _ hmore⟩
      · obtain ⟨rest', -, heq⟩ := Option.map_eq_some_iff.mp h
        rw [← (Prod.mk.inj heq).1]
        exact ⟨hvalue _ _ _ hread, trivial⟩
    · rw [parseMembers] at h
      obtain ⟨us', -, h⟩ := Option.bind_eq_some_iff.mp h
      obtain ⟨key, -, h⟩ := Option.bind_eq_some_iff.mp h
      obtain ⟨us'', -, h⟩ := Option.bind_eq_some_iff.mp h
      obtain ⟨read, hread, h⟩ := Option.bind_eq_some_iff.mp h
      have horder' := inOrder_setMember horder (⟨key.1⟩ : JsString) read.1
      have hsound' := soundMembers_setMember (hvalue _ _ _ hread) hsound (⟨key.1⟩ : JsString)
      split at h
      · exact hmembers _ _ _ _ horder' hsound' h
      · obtain ⟨rest', -, heq⟩ := Option.map_eq_some_iff.mp h
        rw [← (Prod.mk.inj heq).1]
        exact ⟨horder', hsound'⟩

/-- **what is parsed has doubles for its numbers, and its properties in their order** -/
theorem parse_sound {s : JsString} {v : Value} (h : parse s = some v) : v.Sound := by
  rw [parse] at h
  obtain ⟨read, hread, h⟩ := Option.bind_eq_some_iff.mp h
  rw [Option.ite_none_right_eq_some] at h
  rw [← Option.some.inj h.2]
  exact (parse_sound_aux _).1 _ _ _ hread

end Json
