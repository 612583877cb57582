import JinCore.Js.BigInt
import Mathlib.Data.Rat.Floor

/-!
# `Number` of a text

* `roundDouble`       the double nearest to a rational number, ties to even;
* `number`            decimal digits with an optional point, exponent and sign, or hexadecimal, octal
                      or binary ones after `0x`, `0o`, `0b`; an empty text is zero;
* `roundDouble_nat`, `number_natText`   a natural number below `2^53` is read back from its text.
-/

namespace JsString

/-- the sign of a zero is left out -/
inductive JsNumber where
  | nan
  | infinity (negative : Bool)
  | finite (value : ℚ)
  deriving DecidableEq, Repr

/-! ## the nearest double -/

def roundHalfEven (q : ℚ) : Int :=
  if q - ⌊q⌋ < 1 / 2 then ⌊q⌋
  else if 1 / 2 < q - ⌊q⌋ then ⌊q⌋ + 1
  else ⌊q⌋ + ⌊q⌋ % 2

/-- the largest `e` with `2 ^ e ≤ q`, for a positive `q` -/
def floorLog2 (q : ℚ) : Int :=
  let e : Int := (q.num.natAbs.log2 : Int) - (q.den.log2 : Int)
  if (2 : ℚ) ^ e ≤ q then e else e - 1

/-- the exponent of the last of the 53 bits of the significand -/
def lastBit (q : ℚ) : Int := max (floorLog2 q - 52) (-1074)

def roundPositive (q : ℚ) : ℚ := roundHalfEven (q / 2 ^ lastBit q) * 2 ^ lastBit q

def roundDouble (q : ℚ) : JsNumber :=
  if q = 0 then .finite 0
  else
    let rounded := roundPositive |q|
    if 2 ^ 1024 ≤ rounded then .infinity (q < 0) else .finite (if q < 0 then -rounded else rounded)

/-! ## the literals -/

/-- the digits after an `e` -/
def exponentValue : List Char → Option Int
  | [] => some 0
  | e :: cs =>
    if e = 'e' ∨ e = 'E' then
      match cs with
      | '+' :: ds => (decimalValue ds).map Int.ofNat
      | '-' :: ds => (decimalValue ds).map fun n => -(n : Int)
      | ds => (decimalValue ds).map Int.ofNat
    else none

/-- digits with an optional point and an optional exponent -/
def decimalLiteral (cs : List Char) : Option ℚ :=
  let whole := cs.takeWhile Char.isDigit
  let rest := cs.dropWhile Char.isDigit
  let fraction := if rest.head? = some '.' then rest.tail.takeWhile Char.isDigit else []
  let rest := if rest.head? = some '.' then rest.tail.dropWhile Char.isDigit else rest
  match decimalValue (whole ++ fraction), exponentValue rest with
  | some n, some e => some (n * 10 ^ (e - fraction.length))
  | _, _ => none

/-- `Infinity` as well -/
def unsignedLiteral (cs : List Char) : Option JsNumber :=
  if cs = "Infinity".toList then some (.infinity false) else (decimalLiteral cs).map roundDouble

def JsNumber.neg : JsNumber → JsNumber
  | .nan => .nan
  | .infinity negative => .infinity (!negative)
  | .finite value => .finite (-value)

def numberLiteral : List Char → JsNumber
  | [] => .finite 0
  | '+' :: cs => (unsignedLiteral cs).getD .nan
  | '-' :: cs => ((unsignedLiteral cs).map JsNumber.neg).getD .nan
  | '0' :: x :: cs =>
    if x = 'x' ∨ x = 'X' then ((digitsValue 16 cs).map fun n => roundDouble n).getD .nan
    else if x = 'o' ∨ x = 'O' then ((digitsValue 8 cs).map fun n => roundDouble n).getD .nan
    else if x = 'b' ∨ x = 'B' then ((digitsValue 2 cs).map fun n => roundDouble n).getD .nan
    else (unsignedLiteral ('0' :: x :: cs)).getD .nan
  | cs => (unsignedLiteral cs).getD .nan

def number (s : JsString) : JsNumber := numberLiteral (chars ⟨Blanks.trim isSpace s.units⟩)

/-- `Number.isInteger(n)`, and which one -/
def JsNumber.integer? : JsNumber → Option Int
  | .finite value => if value.den = 1 then some value.num else none
  | _ => none

/-! ## natural numbers -/

theorem roundHalfEven_intCast (z : Int) : roundHalfEven (z : ℚ) = z := by
  rw [roundHalfEven, Int.floor_intCast, sub_self, if_pos (by norm_num)]

theorem floorLog2_le {n : Nat} (h : n < 2 ^ 53) (hpos : 0 < n) : floorLog2 (n : ℚ) ≤ 52 := by
  have hlog : n.log2 < 53 := (Nat.log2_lt (by omega)).mpr h
  have hle : ((n : ℚ).num.natAbs.log2 : Int) - ((n : ℚ).den.log2 : Int) ≤ 52 := by
    rw [Rat.num_natCast, Int.natAbs_natCast]
    omega
  rw [floorLog2]
  by_cases hlow : (2 : ℚ) ^ (((n : ℚ).num.natAbs.log2 : Int) - ((n : ℚ).den.log2 : Int)) ≤ n
  · exact (if_pos hlow).trans_le hle
  · exact (if_neg hlow).trans_le (by omega)

theorem roundPositive_nat {n : Nat} (h : n < 2 ^ 53) (hpos : 0 < n) :
    roundPositive (n : ℚ) = n := by
  have hlast : lastBit (n : ℚ) ≤ 0 := by
    rw [lastBit]
    have hlog := floorLog2_le h hpos
    omega
  -- all bits of the number are kept
  obtain ⟨k, hk⟩ := Int.eq_ofNat_of_zero_le (show 0 ≤ -lastBit (n : ℚ) by omega)
  have hdiv : (n : ℚ) / 2 ^ lastBit (n : ℚ) = ((n * 2 ^ k : Int) : ℚ) := by
    rw [div_eq_mul_inv, ← zpow_neg, hk]
    push_cast
    rw [zpow_natCast]
  rw [roundPositive, hdiv, roundHalfEven_intCast, ← hdiv]
  exact div_mul_cancel₀ _ (zpow_ne_zero _ two_ne_zero)

theorem roundDouble_nat {n : Nat} (h : n < 2 ^ 53) : roundDouble (n : ℚ) = .finite n := by
  rcases Nat.eq_zero_or_pos n with rfl | hpos
  · rw [roundDouble, if_pos (by norm_num)]
    norm_num
  · have hq : (0 : ℚ) < n := by exact_mod_cast hpos
    have hsmall : ¬ (2 ^ 1024 : ℚ) ≤ n := by
      rw [not_le]
      have hlt : (n : ℚ) < 2 ^ 53 := by exact_mod_cast h
      exact hlt.trans (pow_lt_pow_right₀ (by norm_num) (by norm_num))
    rw [roundDouble, if_neg hq.ne']
    simp only [abs_of_pos hq, roundPositive_nat h hpos, if_neg hsmall, if_neg hq.asymm]

theorem decimalLiteral_digits {cs : List Char} {n : Nat} (h : ∀ c ∈ cs, c.isDigit = true)
    (hn : decimalValue cs = some n) : decimalLiteral cs = some (n : ℚ) := by
  have htake : cs.takeWhile Char.isDigit = cs := List.takeWhile_eq_self_iff.mpr h
  have hdrop : cs.dropWhile Char.isDigit = [] := List.dropWhile_eq_nil_iff.mpr h
  have hvalue : decimalValue (cs ++ []) = some n := by rw [List.append_nil, hn]
  rw [decimalLiteral]
  simp only [htake, hdrop]
  show (match decimalValue (cs ++ []), some (0 : Int) with
    | some n, some e => some ((n : ℚ) * 10 ^ (e - (0 : Nat)))
    | _, _ => none) = _
  rw [hvalue]
  norm_num

theorem numberLiteral_digits {cs : List Char} {v : JsNumber} (h : ∀ c ∈ cs, c.isDigit = true)
    (hne : cs ≠ []) (hv : unsignedLiteral cs = some v) : numberLiteral cs = v := by
  have hnot {c : Char} (hc : c ∈ cs) {d : Char} (hd : d.isDigit = false) : c ≠ d := by
    intro heq
    rw [← heq, h c hc] at hd
    cases hd
  rw [numberLiteral.eq_def]
  split
  · exact absurd rfl hne
  · exact absurd rfl (hnot List.mem_cons_self (by decide))
  · exact absurd rfl (hnot List.mem_cons_self (by decide))
  · next x cs =>
    have hx : x ∈ '0' :: x :: cs := List.mem_cons_of_mem _ List.mem_cons_self
    have hletter {d : Char} (hd : d.isDigit = false) : ¬ x = d := hnot hx hd
    rw [if_neg (not_or.mpr ⟨hletter (by decide), hletter (by decide)⟩),
      if_neg (not_or.mpr ⟨hletter (by decide), hletter (by decide)⟩),
      if_neg (not_or.mpr ⟨hletter (by decide), hletter (by decide)⟩), hv]
    rfl
  · rw [hv]
    rfl

/-- **a natural number is read back from its text** -/
theorem number_natText {n : Nat} (h : n < 2 ^ 53) : number (natText n) = .finite n := by
  have hne : Nat.toDigits 10 n ≠ [] := Nat.toDigits_ne_nil
  have hliteral : unsignedLiteral (Nat.toDigits 10 n) = some (.finite n) := by
    rw [unsignedLiteral, if_neg,
      decimalLiteral_digits isDigit_toDigits (decimalValue_toDigits n), Option.map_some,
      roundDouble_nat h]
    intro heq
    have hdigit := isDigit_toDigits (n := n) 'I' (by rw [heq]; decide)
    exact absurd hdigit (by decide)
  rw [number, trim_natText]
  show numberLiteral (chars (natText n)) = _
  rw [chars_natText]
  exact numberLiteral_digits isDigit_toDigits hne hliteral

example : (number (lit "0x1F")).integer? = some 31 ∧ (number (lit "1e3")).integer? = some 1000 ∧
    (number (lit "1.5")).integer? = none ∧ number (lit "1e") = .nan := by decide +kernel

end JsString
