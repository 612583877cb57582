import JinCore.Js.Text
import JinCore.Lib.Blanks
import Mathlib.Tactic.IntervalCases

/-!
# `BigInt` of a text

* `bigInt`           decimal digits with an optional sign, or hexadecimal, octal or binary ones after
                     `0x`, `0o`, `0b`; white space around them is taken off and an empty text is
                     zero; `none` where a `SyntaxError` is thrown;
* `bigInt_natText`   a natural number is read back from its text.
-/

namespace JsString

def digitValue (base : Nat) (c : Char) : Option Nat :=
  let value :=
    if c.isDigit then c.toNat - 48
    else if 'a' ≤ c ∧ c ≤ 'f' then c.toNat - 87
    else if 'A' ≤ c ∧ c ≤ 'F' then c.toNat - 55
    else base
  if value < base then some value else none

/-- the digits of a base, at least one -/
def digitsValue (base : Nat) (cs : List Char) : Option Nat :=
  if cs = [] then none
  else cs.foldlM (fun acc c => (digitValue base c).map (base * acc + ·)) 0

def decimalValue (cs : List Char) : Option Nat :=
  if cs ≠ [] ∧ cs.all Char.isDigit = true then some (Nat.ofDigitChars 10 cs 0) else none

/-- digits after a sign or a letter for their base -/
def markedValue : List Char → Option Int
  | '+' :: ds => (decimalValue ds).map Int.ofNat
  | '-' :: ds => (decimalValue ds).map fun n => -(n : Int)
  | '0' :: x :: ds =>
    if x = 'x' ∨ x = 'X' then (digitsValue 16 ds).map Int.ofNat
    else if x = 'o' ∨ x = 'O' then (digitsValue 8 ds).map Int.ofNat
    else if x = 'b' ∨ x = 'B' then (digitsValue 2 ds).map Int.ofNat
    else none
  | _ => none

def bigIntLiteral (cs : List Char) : Option Int :=
  if cs = [] then some 0 else ((decimalValue cs).map Int.ofNat).or (markedValue cs)

def bigInt (s : JsString) : Option Int :=
  bigIntLiteral (chars ⟨Blanks.trim isSpace s.units⟩)

theorem isSpace_digit {n : Nat} (h1 : 48 ≤ n) (h2 : n ≤ 57) : isSpace (UInt16.ofNat n) = false := by
  interval_cases n <;> rfl

theorem encode_digit {c : Char} (hc : c.isDigit = true) : ∀ u ∈ encode c, isSpace u = false := by
  have h : 48 ≤ c.toNat ∧ c.toNat ≤ 57 := Char.isDigit_iff_toNat.mp hc
  intro u hu
  rw [encode, if_pos (by omega), List.mem_singleton] at hu
  rw [hu]
  exact isSpace_digit h.1 h.2

theorem trim_of_no_space {us : List UInt16} (h : ∀ u ∈ us, isSpace u = false) :
    Blanks.trim isSpace us = us := by
  have hd : us.dropWhile isSpace = us := by
    rw [List.dropWhile_eq_self_iff]
    intro hl
    rw [h _ (List.getElem_mem hl)]
    exact Bool.false_ne_true
  rw [Blanks.trim, hd, List.rdropWhile_eq_self_iff]
  intro hl
  rw [h _ (List.getLast_mem hl)]
  exact Bool.false_ne_true

/-! ## natural numbers -/

theorem chars_natText (n : Nat) : chars (natText n) = Nat.toDigits 10 n := by
  rw [natText, lit, chars_ofChars]
  exact Nat.toList_repr

theorem isDigit_toDigits {n : Nat} : ∀ c ∈ Nat.toDigits 10 n, c.isDigit = true :=
  fun _ hc => Nat.isDigit_of_mem_toDigits (by decide) (by decide) hc

theorem trim_natText (n : Nat) : Blanks.trim isSpace (natText n).units = (natText n).units := by
  have hcs : (toString n).toList = Nat.toDigits 10 n := Nat.toList_repr
  refine trim_of_no_space fun u hu => ?_
  obtain ⟨c, hc, hu⟩ := List.mem_flatMap.mp hu
  rw [hcs] at hc
  exact encode_digit (isDigit_toDigits c hc) u hu

theorem decimalValue_toDigits (n : Nat) : decimalValue (Nat.toDigits 10 n) = some n := by
  rw [decimalValue, if_pos ⟨Nat.toDigits_ne_nil, List.all_eq_true.mpr isDigit_toDigits⟩,
    Nat.ofDigitChars_ten_toDigits]

/-- **a natural number is read back from its text** -/
theorem bigInt_natText (n : Nat) : bigInt (natText n) = some (n : Int) := by
  rw [bigInt, trim_natText]
  show bigIntLiteral (chars (natText n)) = _
  rw [chars_natText, bigIntLiteral, if_neg Nat.toDigits_ne_nil, decimalValue_toDigits]
  rfl

example : bigInt (lit " -12 ") = some (-12) ∧ bigInt (lit "0xfF") = some 255 ∧
    bigInt (lit "1 2") = none := by decide

end JsString
