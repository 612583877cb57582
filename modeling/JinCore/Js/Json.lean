import JinCore.Js.Text
import Mathlib.Tactic.IntervalCases

/-!
# `JSON.stringify` on flat objects of strings and nulls

* `quote`          a string as JSON text: the two-character escapes, `\uXXXX` for the other control
                   characters and for every lone surrogate, everything else as it is;
* `scan`           reads a quoted string back up to its closing quote; `scan_escapeUnits`;
* `stringify`      a flat object, its members in the order they were written;
* `stringify_inj`  the text determines the members;
* `isWellFormed_stringify`  the text has no lone surrogate, whatever the members hold.
-/

namespace Json
open JsString

/-! ## strings -/

/-- a lower-case hexadecimal digit -/
def hexDigit (n : Nat) : UInt16 := UInt16.ofNat (if n < 10 then 48 + n else 87 + n)

def unicodeEscape (u : UInt16) : List UInt16 :=
  [0x5C, 0x75, hexDigit (u.toNat / 4096), hexDigit (u.toNat / 256 % 16),
    hexDigit (u.toNat / 16 % 16), hexDigit (u.toNat % 16)]

def escapeUnit (u : UInt16) : List UInt16 :=
  if u = 0x08 then [0x5C, 0x62]
  else if u = 0x09 then [0x5C, 0x74]
  else if u = 0x0A then [0x5C, 0x6E]
  else if u = 0x0C then [0x5C, 0x66]
  else if u = 0x0D then [0x5C, 0x72]
  else if u = 0x22 then [0x5C, 0x22]
  else if u = 0x5C then [0x5C, 0x5C]
  else if u < 0x20 || isSurrogate u then unicodeEscape u
  else [u]

def escapeUnits : List UInt16 → List UInt16
  | [] => []
  | [u] => escapeUnit u
  | u :: v :: us =>
    if isLead u && isTrail v then u :: v :: escapeUnits us
    else escapeUnit u ++ escapeUnits (v :: us)

def quote (s : JsString) : JsString := ⟨0x22 :: (escapeUnits s.units ++ [0x22])⟩

/-! ## reading a string back -/

def unhex (u : UInt16) : Nat := if u.toNat < 58 then u.toNat - 48 else u.toNat - 87

def unescape (u : UInt16) : UInt16 :=
  if u = 0x62 then 0x08
  else if u = 0x74 then 0x09
  else if u = 0x6E then 0x0A
  else if u = 0x66 then 0x0C
  else if u = 0x72 then 0x0D
  else u

/-- the string up to the closing quote, and what follows it -/
def scan : List UInt16 → Option (List UInt16 × List UInt16)
  | [] => none
  | u :: us =>
    if u = 0x22 then some ([], us)
    else if u = 0x5C then
      match us with
      | [] => none
      | e :: us =>
        if e = 0x75 then
          match us with
          | a :: b :: c :: d :: us =>
            (scan us).map (Prod.map
              (UInt16.ofNat (unhex a * 4096 + unhex b * 256 + unhex c * 16 + unhex d) :: ·) id)
          | _ => none
        else (scan us).map (Prod.map (unescape e :: ·) id)
    else (scan us).map (Prod.map (u :: ·) id)
termination_by structural us => us

theorem scan_quote (us : List UInt16) : scan (0x22 :: us) = some ([], us) := by
  rw [scan.eq_def]
  rfl

theorem scan_plain {u : UInt16} (h1 : u ≠ 0x22) (h2 : u ≠ 0x5C) (us : List UInt16) :
    scan (u :: us) = (scan us).map (Prod.map (u :: ·) id) := by
  rw [scan.eq_def]
  simp only [if_neg h1, if_neg h2]

theorem scan_short {e : UInt16} (he : e ≠ 0x75) (us : List UInt16) :
    scan (0x5C :: e :: us) = (scan us).map (Prod.map (unescape e :: ·) id) := by
  rw [scan.eq_def]
  simp only [if_neg he]
  rfl

theorem scan_long (a b c d : UInt16) (us : List UInt16) :
    scan (0x5C :: 0x75 :: a :: b :: c :: d :: us) = (scan us).map (Prod.map
      (UInt16.ofNat (unhex a * 4096 + unhex b * 256 + unhex c * 16 + unhex d) :: ·) id) := by
  rw [scan.eq_def]
  rfl

theorem unhex_hexDigit {n : Nat} (h : n < 16) : unhex (hexDigit n) = n := by
  interval_cases n <;> rfl

theorem scan_unicodeEscape (u : UInt16) (us : List UInt16) :
    scan (unicodeEscape u ++ us) = (scan us).map (Prod.map (u :: ·) id) := by
  have hu : u.toNat < 0x10000 := u.toNat_lt
  have e : unhex (hexDigit (u.toNat / 4096)) * 4096 + unhex (hexDigit (u.toNat / 256 % 16)) * 256
      + unhex (hexDigit (u.toNat / 16 % 16)) * 16 + unhex (hexDigit (u.toNat % 16)) = u.toNat := by
    rw [unhex_hexDigit (by omega), unhex_hexDigit (by omega), unhex_hexDigit (by omega),
      unhex_hexDigit (by omega)]
    omega
  rw [unicodeEscape, List.cons_append, List.cons_append, List.cons_append, List.cons_append,
    List.cons_append, List.singleton_append, scan_long, e, UInt16.ofNat_toNat]

theorem scan_escapeUnit (u : UInt16) (us : List UInt16) :
    scan (escapeUnit u ++ us) = (scan us).map (Prod.map (u :: ·) id) := by
  unfold escapeUnit
  split
  next h => subst h; exact scan_short (by decide) us
  split
  next h => subst h; exact scan_short (by decide) us
  split
  next h => subst h; exact scan_short (by decide) us
  split
  next h => subst h; exact scan_short (by decide) us
  split
  next h => subst h; exact scan_short (by decide) us
  split
  next h => subst h; exact scan_short (by decide) us
  split
  next h => subst h; exact scan_short (by decide) us
  split
  · exact scan_unicodeEscape u us
  next h1 h2 _ => exact scan_plain h1 h2 us

theorem surrogate_ne {u : UInt16} (hu : isSurrogate u = true) : u ≠ 0x22 ∧ u ≠ 0x5C := by
  constructor <;> rintro rfl <;> exact absurd hu (by decide)

/-- **a quoted string is read back, whatever follows its closing quote** -/
theorem scan_escapeUnits (us rest : List UInt16) :
    scan (escapeUnits us ++ 0x22 :: rest) = some (us, rest) := by
  induction us using escapeUnits.induct with
  | case1 => exact scan_quote rest
  | case2 u => rw [escapeUnits, scan_escapeUnit, scan_quote]; rfl
  | case3 u v us h ih =>
    obtain ⟨hu, hv⟩ := (Bool.and_eq_true _ _).mp h
    obtain ⟨hu1, hu2⟩ := surrogate_ne (u := u) (by rw [isSurrogate, hu]; rfl)
    obtain ⟨hv1, hv2⟩ := surrogate_ne (u := v) (by rw [isSurrogate, hv, Bool.or_true])
    rw [escapeUnits, if_pos h, List.cons_append, List.cons_append, scan_plain hu1 hu2,
      scan_plain hv1 hv2, ih]
    rfl
  | case4 u v us h ih =>
    rw [escapeUnits, if_neg h, List.append_assoc, scan_escapeUnit, ih]
    rfl

theorem quote_append_inj {s t x y : JsString} (h : quote s ++ x = quote t ++ y) :
    s = t ∧ x = y := by
  have hu := congrArg units h
  simp only [quote, units_append, List.cons_append, List.append_assoc, List.nil_append,
    List.cons.injEq, true_and] at hu
  have hs := scan_escapeUnits s.units x.units
  rw [hu, scan_escapeUnits t.units y.units, Option.some.injEq, Prod.mk.injEq] at hs
  exact ⟨ext_units hs.1.symm, ext_units hs.2.symm⟩

/-! ## objects -/

def value : Option JsString → JsString
  | none => ⟨[0x6E, 0x75, 0x6C, 0x6C]⟩
  | some s => quote s

/-- `"key":value` -/
def member (kv : JsString × Option JsString) : JsString :=
  quote kv.1 ++ (⟨[0x3A]⟩ ++ value kv.2)

/-- the members after the first one, and the closing brace -/
def memberTail : List (JsString × Option JsString) → JsString
  | [] => ⟨[0x7D]⟩
  | kv :: kvs => ⟨[0x2C]⟩ ++ (member kv ++ memberTail kvs)

def stringify : List (JsString × Option JsString) → JsString
  | [] => ⟨[0x7B, 0x7D]⟩
  | kv :: kvs => ⟨[0x7B]⟩ ++ (member kv ++ memberTail kvs)

theorem cons_units_inj {u : UInt16} {x y : JsString}
    (h : (⟨[u]⟩ : JsString) ++ x = ⟨[u]⟩ ++ y) : x = y := by
  have hu := congrArg units h
  simp only [units_append, List.singleton_append, List.cons.injEq, true_and] at hu
  exact ext_units hu

theorem value_append_inj {v w : Option JsString} {x y : JsString} (h : value v ++ x = value w ++ y) :
    v = w ∧ x = y := by
  cases v with
  | none =>
    cases w with
    | none =>
      have hu := congrArg units h
      simp only [units_append, value, List.append_cancel_left_eq] at hu
      exact ⟨rfl, ext_units hu⟩
    | some t =>
      have hu := congrArg (fun z => z.units.head?) h
      exact absurd hu (by simp [value, quote])
  | some s =>
    cases w with
    | none =>
      have hu := congrArg (fun z => z.units.head?) h
      exact absurd hu (by simp [value, quote])
    | some t =>
      obtain ⟨rfl, hxy⟩ := quote_append_inj h
      exact ⟨rfl, hxy⟩

theorem append_assoc (s t u : JsString) : s ++ t ++ u = s ++ (t ++ u) :=
  ext_units (List.append_assoc ..)

theorem member_append_inj {p q : JsString × Option JsString} {x y : JsString}
    (h : member p ++ x = member q ++ y) : p = q ∧ x = y := by
  simp only [member, append_assoc] at h
  obtain ⟨hk, h⟩ := quote_append_inj h
  obtain ⟨hv, hxy⟩ := value_append_inj (cons_units_inj h)
  exact ⟨Prod.ext hk hv, hxy⟩

theorem memberTail_inj : ∀ {kvs kvs' : List (JsString × Option JsString)},
    memberTail kvs = memberTail kvs' → kvs = kvs' := by
  intro kvs
  induction kvs with
  | nil =>
    intro kvs' h
    cases kvs' with
    | nil => rfl
    | cons kv' kvs' =>
      have hu := congrArg (fun z => z.units.head?) h
      exact absurd hu (by simp [memberTail])
  | cons kv kvs ih =>
    intro kvs' h
    cases kvs' with
    | nil =>
      have hu := congrArg (fun z => z.units.head?) h
      exact absurd hu (by simp [memberTail])
    | cons kv' kvs' =>
      obtain ⟨hkv, ht⟩ := member_append_inj (cons_units_inj h)
      rw [hkv, ih ht]

/-- **the text of a flat object determines its members** -/
theorem stringify_inj {kvs kvs' : List (JsString × Option JsString)}
    (h : stringify kvs = stringify kvs') : kvs = kvs' := by
  have hsecond : ∀ kv (l : List (JsString × Option JsString)),
      (stringify (kv :: l)).units[1]? = some 0x22 := fun kv l => rfl
  cases kvs with
  | nil =>
    cases kvs' with
    | nil => rfl
    | cons kv' kvs' =>
      have hu := hsecond kv' kvs'
      rw [← h] at hu
      exact absurd hu (by simp [stringify])
  | cons kv kvs =>
    cases kvs' with
    | nil =>
      have hu := hsecond kv kvs
      rw [h] at hu
      exact absurd hu (by simp [stringify])
    | cons kv' kvs' =>
      obtain ⟨hkv, ht⟩ := member_append_inj (cons_units_inj h)
      rw [hkv, memberTail_inj ht]

/-! ## the text is well formed -/

theorem wellFormedUnits_cons {u : UInt16} (hu : isSurrogate u = false) (us : List UInt16) :
    wellFormedUnits (u :: us) = wellFormedUnits us := by
  have hl : isLead u = false := (Bool.or_eq_false_iff.mp hu).1
  cases us with
  | nil => simp [wellFormedUnits, hu]
  | cons v us => simp [wellFormedUnits, hu, hl]

theorem wellFormedUnits_append {l : List UInt16} (hl : ∀ u ∈ l, isSurrogate u = false)
    (us : List UInt16) : wellFormedUnits (l ++ us) = wellFormedUnits us := by
  induction l with
  | nil => rfl
  | cons u l ih =>
    rw [List.cons_append, wellFormedUnits_cons (hl u List.mem_cons_self),
      ih (fun v hv => hl v (List.mem_cons_of_mem _ hv))]

theorem hexDigit_plain {n : Nat} (h : n < 16) : isSurrogate (hexDigit n) = false := by
  interval_cases n <;> decide

theorem unicodeEscape_plain (u : UInt16) : ∀ v ∈ unicodeEscape u, isSurrogate v = false := by
  have hu : u.toNat < 0x10000 := u.toNat_lt
  intro v hv
  simp only [unicodeEscape, List.mem_cons, List.not_mem_nil, or_false] at hv
  rcases hv with rfl | rfl | rfl | rfl | rfl | rfl
  · decide
  · decide
  all_goals exact hexDigit_plain (by omega)

theorem plain_of_all {us : List UInt16} (h : us.all (fun v => !isSurrogate v) = true) :
    ∀ v ∈ us, isSurrogate v = false := by
  simpa using h

theorem escapeUnit_plain (u : UInt16) : ∀ v ∈ escapeUnit u, isSurrogate v = false := by
  unfold escapeUnit
  split
  · exact plain_of_all rfl
  split
  · exact plain_of_all rfl
  split
  · exact plain_of_all rfl
  split
  · exact plain_of_all rfl
  split
  · exact plain_of_all rfl
  split
  · exact plain_of_all rfl
  split
  · exact plain_of_all rfl
  split
  · exact unicodeEscape_plain u
  next h =>
    intro v hv
    rw [List.mem_singleton.mp hv]
    exact (Bool.or_eq_false_iff.mp (Bool.eq_false_iff.mpr h)).2

theorem wellFormedUnits_escapeUnits (us rest : List UInt16) :
    wellFormedUnits (escapeUnits us ++ 0x22 :: rest) = wellFormedUnits rest := by
  induction us using escapeUnits.induct with
  | case1 => exact wellFormedUnits_cons (by decide) rest
  | case2 u =>
    rw [escapeUnits, wellFormedUnits_append (escapeUnit_plain u), wellFormedUnits_cons (by decide)]
  | case3 u v us h ih =>
    rw [escapeUnits, if_pos h, List.cons_append, List.cons_append, wellFormedUnits, if_pos h, ih]
  | case4 u v us h ih =>
    rw [escapeUnits, if_neg h, List.append_assoc, wellFormedUnits_append (escapeUnit_plain u), ih]

theorem wellFormedUnits_quote (s x : JsString) :
    wellFormedUnits (quote s ++ x).units = wellFormedUnits x.units := by
  show wellFormedUnits (0x22 :: (escapeUnits s.units ++ [0x22]) ++ x.units) = _
  rw [List.cons_append, wellFormedUnits_cons (by decide), List.append_assoc]
  exact wellFormedUnits_escapeUnits s.units x.units

theorem wellFormedUnits_value (v : Option JsString) (x : JsString) :
    wellFormedUnits (value v ++ x).units = wellFormedUnits x.units := by
  cases v with
  | none => exact wellFormedUnits_append (plain_of_all rfl) x.units
  | some s => exact wellFormedUnits_quote s x

theorem wellFormedUnits_member (kv : JsString × Option JsString) (x : JsString) :
    wellFormedUnits (member kv ++ x).units = wellFormedUnits x.units := by
  rw [member, append_assoc, wellFormedUnits_quote, append_assoc, units_append,
    wellFormedUnits_append (plain_of_all rfl), wellFormedUnits_value]

theorem wellFormedUnits_memberTail (kvs : List (JsString × Option JsString)) :
    wellFormedUnits (memberTail kvs).units = true := by
  induction kvs with
  | nil => decide
  | cons kv kvs ih =>
    rw [memberTail, units_append, wellFormedUnits_append (plain_of_all rfl), wellFormedUnits_member, ih]

theorem isWellFormed_stringify (kvs : List (JsString × Option JsString)) :
    (stringify kvs).isWellFormed = true := by
  cases kvs with
  | nil => decide
  | cons kv kvs =>
    rw [isWellFormed, stringify, units_append, wellFormedUnits_append (plain_of_all rfl),
      wellFormedUnits_member, wellFormedUnits_memberTail]

end Json
