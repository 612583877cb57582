import JinCore.Js.Text

/-!
# `decodeURIComponent` and `encodeURIComponent`

* `items`              a text as units and percent-encoded bytes;
* `decodeItems`        each run of bytes as the scalar value that it encodes in UTF-8;
* `decodeURIComponent` none where the engine throws a `URIError`; `decodeURIComponent_plain`;
* `encodeURIComponent` the same; `encodeURIComponent_unreserved`.
-/

namespace JsString

/-- a unit as it stands, or a byte -/
inductive UriItem where
  | unit (u : UInt16)
  | byte (b : Nat)
  deriving DecidableEq, Repr

def percentSign : UInt16 := 0x25

def hexValue (u : UInt16) : Option Nat :=
  if 0x30 ≤ u.toNat ∧ u.toNat ≤ 0x39 then some (u.toNat - 0x30)
  else if 0x41 ≤ u.toNat ∧ u.toNat ≤ 0x46 then some (u.toNat - 0x41 + 10)
  else if 0x61 ≤ u.toNat ∧ u.toNat ≤ 0x66 then some (u.toNat - 0x61 + 10)
  else none

def uriByte (high low : UInt16) : Option Nat :=
  (hexValue high).bind fun h => (hexValue low).map fun l => 16 * h + l

def items : List UInt16 → Option (List UriItem)
  | [] => some []
  | [u] => if u = percentSign then none else some [.unit u]
  | [u, v] => if u = percentSign then none else (items [v]).map (.unit u :: ·)
  | u :: v :: w :: us =>
    if u = percentSign then
      (uriByte v w).bind fun b => (items us).map (.byte b :: ·)
    else (items (v :: w :: us)).map (.unit u :: ·)

/-- a byte that continues a sequence -/
def isContinuation (b : Nat) : Bool := decide (0x80 ≤ b ∧ b < 0xC0)

/-- the units of a scalar value from `least` on that its bytes give -/
def scalarUnits (least value : Nat) : Option (List UInt16) :=
  if least ≤ value ∧ value.isValidChar then some (encode (Char.ofNat value)) else none

def decodeItems : List UriItem → Option (List UInt16)
  | [] => some []
  | .unit u :: rest => (decodeItems rest).map (u :: ·)
  | .byte b :: rest =>
    if b < 0x80 then (decodeItems rest).map (UInt16.ofNat b :: ·)
    else if b < 0xC0 then none
    else if b < 0xE0 then
      match rest with
      | .byte c :: rest =>
        if isContinuation c then
          (scalarUnits 0x80 ((b - 0xC0) * 0x40 + (c - 0x80))).bind fun us =>
            (decodeItems rest).map (us ++ ·)
        else none
      | _ => none
    else if b < 0xF0 then
      match rest with
      | .byte c :: .byte d :: rest =>
        if isContinuation c ∧ isContinuation d then
          (scalarUnits 0x800 ((b - 0xE0) * 0x1000 + (c - 0x80) * 0x40 + (d - 0x80))).bind fun us =>
            (decodeItems rest).map (us ++ ·)
        else none
      | _ => none
    else if b < 0xF8 then
      match rest with
      | .byte c :: .byte d :: .byte e :: rest =>
        if isContinuation c ∧ isContinuation d ∧ isContinuation e then
          (scalarUnits 0x10000 ((b - 0xF0) * 0x40000 + (c - 0x80) * 0x1000 + (d - 0x80) * 0x40
            + (e - 0x80))).bind fun us => (decodeItems rest).map (us ++ ·)
        else none
      | _ => none
    else none

def decodeURIComponent (s : JsString) : Option JsString :=
  (items s.units).bind fun is => (decodeItems is).map JsString.mk

/-! ## a text without percent signs -/

theorem items_plain {us : List UInt16} (h : percentSign ∉ us) : items us = some (us.map .unit) := by
  induction us with
  | nil => rfl
  | cons u us ih =>
    rw [List.mem_cons, not_or] at h
    have hu : ¬ u = percentSign := fun he => h.1 he.symm
    have ih := ih h.2
    cases us with
    | nil => rw [items, if_neg hu, List.map_singleton]
    | cons v us =>
      cases us with
      | nil =>
        rw [items, if_neg hu, ih]
        rfl
      | cons w us =>
        rw [items, if_neg hu, ih]
        rfl

theorem decodeItems_units (us : List UInt16) : decodeItems (us.map .unit) = some us := by
  induction us with
  | nil => rfl
  | cons u us ih =>
    rw [List.map_cons, decodeItems, ih]
    rfl

theorem decodeURIComponent_plain {s : JsString} (h : percentSign ∉ s.units) :
    decodeURIComponent s = some s := by
  rw [decodeURIComponent, items_plain h]
  show (decodeItems (s.units.map .unit)).map JsString.mk = some s
  rw [decodeItems_units]
  rfl

theorem items_cons {u : UInt16} (h : u ≠ percentSign) (us : List UInt16) :
    items (u :: us) = (items us).map (.unit u :: ·) := by
  cases us with
  | nil => exact if_neg h
  | cons v us =>
    cases us with
    | nil => exact if_neg h
    | cons w us => exact if_neg h

theorem items_ne_nil (u : UInt16) (us : List UInt16) : items (u :: us) ≠ some [] := by
  intro h
  by_cases hu : u = percentSign
  · cases us with
    | nil =>
      have hnone : items [u] = none := if_pos hu
      rw [hnone] at h
      cases h
    | cons v us =>
      cases us with
      | nil =>
        have hnone : items [u, v] = none := if_pos hu
        rw [hnone] at h
        cases h
      | cons w us =>
        rw [items, if_pos hu] at h
        obtain ⟨b, -, hmap⟩ := Option.bind_eq_some_iff.mp h
        obtain ⟨_, -, hcons⟩ := Option.map_eq_some_iff.mp hmap
        cases hcons
  · rw [items_cons hu] at h
    obtain ⟨_, -, hcons⟩ := Option.map_eq_some_iff.mp h
    cases hcons

/-- each item is one unit at least -/
theorem decodeItems_ne_nil (item : UriItem) (rest : List UriItem) : decodeItems (item :: rest) ≠ some [] := by
  have hcons (u : UInt16) (text : Option (List UInt16)) : text.map (u :: ·) ≠ some [] := by
    cases text with
    | none => simp
    | some us => simp
  have hscalar (least value : Nat) (text : Option (List UInt16)) :
      ((scalarUnits least value).bind fun us => text.map (us ++ ·)) ≠ some [] := by
    rw [scalarUnits]
    split
    · have hpos := length_encode_pos (Char.ofNat value)
      cases text with
      | none => simp
      | some us =>
        rw [Option.bind_some, Option.map_some]
        intro h
        rw [(List.append_eq_nil_iff.mp (Option.some.inj h)).1] at hpos
        cases hpos
    · simp
  cases item with
  | unit u => exact hcons u _
  | byte b =>
    rw [decodeItems.eq_def]
    dsimp only
    split
    · exact hcons _ _
    · split
      · simp
      · split
        · split
          · split
            · exact hscalar _ _ _
            · simp
          · simp
        · split
          · split
            · split
              · exact hscalar _ _ _
              · simp
            · simp
          · split
            · split
              · split
                · exact hscalar _ _ _
                · simp
              · simp
            · simp

/-- a text that is read as its beginning is that beginning -/
theorem eq_nil_of_decoded {front more : List UInt16} (h : percentSign ∉ front)
    (hdecoded : decodeURIComponent ⟨front ++ more⟩ = some ⟨front⟩) : more = [] := by
  have hread : ((items more).bind decodeItems).map (front ++ ·) = some front := by
    have happend : (items (front ++ more)).bind decodeItems
        = ((items more).bind decodeItems).map (front ++ ·) := by
      clear hdecoded
      induction front with
      | nil =>
        show _ = ((items more).bind decodeItems).map id
        rw [Option.map_id]
        rfl
      | cons u front ih =>
        rw [List.mem_cons, not_or] at h
        rw [List.cons_append, items_cons (fun he => h.1 he.symm), Option.bind_map]
        have ih := ih h.2
        cases hitems : items (front ++ more) with
        | none =>
          rw [hitems] at ih
          cases hmore : (items more).bind decodeItems with
          | none => rfl
          | some us =>
            rw [hmore] at ih
            cases ih
        | some is =>
          rw [hitems, Option.bind_some] at ih
          show (decodeItems is).map (u :: ·) = _
          rw [ih, Option.map_map]
          rfl
    rw [← happend]
    rw [decodeURIComponent] at hdecoded
    cases hitems : items (front ++ more) with
    | none =>
      rw [hitems] at hdecoded
      cases hdecoded
    | some is =>
      rw [hitems, Option.bind_some, Option.map_eq_some_iff] at hdecoded
      obtain ⟨us, hus, heq⟩ := hdecoded
      rw [Option.bind_some, hus]
      exact congrArg (fun s : JsString => some s.units) heq
  obtain ⟨us, hus, heq⟩ := Option.map_eq_some_iff.mp hread
  rw [List.append_right_eq_self.mp heq] at hus
  obtain ⟨is, his, hnil⟩ := Option.bind_eq_some_iff.mp hus
  cases is with
  | nil =>
    cases more with
    | nil => rfl
    | cons u us => exact absurd his (items_ne_nil u us)
  | cons item rest => exact absurd hnil (decodeItems_ne_nil item rest)

/-! ## encoding -/

def hexUpper (n : Nat) : UInt16 := UInt16.ofNat (if n < 10 then 48 + n else 55 + n)

def percentEncode (c : Char) : List UInt16 :=
  (String.utf8EncodeChar c).flatMap fun b => [percentSign, hexUpper (b.toNat / 16), hexUpper (b.toNat % 16)]

/-- the characters that stay -/
def isUnreserved (c : Char) : Bool := c.isAlphanum || "-_.!~*'()".toList.contains c

def encodeURIComponent (s : JsString) : Option JsString :=
  if s.isWellFormed = true then
    some ⟨s.chars.flatMap fun c => if isUnreserved c = true then encode c else percentEncode c⟩
  else none

theorem encodeURIComponent_unreserved {s : JsString} (hwell : s.isWellFormed = true)
    (h : ∀ c ∈ s.chars, isUnreserved c = true) : encodeURIComponent s = some s := by
  have hkept : (s.chars.flatMap fun c => if isUnreserved c = true then encode c else percentEncode c)
      = s.chars.flatMap encode := by
    refine List.flatMap_congr fun c hc => ?_
    rw [if_pos (h c hc)]
  rw [encodeURIComponent, if_pos hwell, hkept]
  exact congrArg some ((ofChars_chars_eq_iff s).mpr hwell)

example : decodeURIComponent (lit "a%20%C3%A9%F0%9F%91%80") = some (lit "a é👀") := by decide +kernel
example : decodeURIComponent (lit "%C3%28") = none := by decide +kernel
example : encodeURIComponent (lit "a é/👀") = some (lit "a%20%C3%A9%2F%F0%9F%91%80") := by decide +kernel

end JsString
