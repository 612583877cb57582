import JinCore.Js.Number
import Mathlib.Algebra.Order.Field.Power
import Mathlib.Tactic.Positivity

/-!
# The text of a number

* `IsDouble`          the doubles; `roundDouble_isDouble`;
* `shortestDecimal`   the shortest decimal that is rounded to a double;
* `numberText`        the text of a double;
* `jsonNumber`        a number of a JSON text;
* `jsonNumber_numberText`   a double is read back from its text.
-/

namespace JsString

/-! ## doubles -/

/-- a number that is its own nearest double -/
def IsDouble (q : ℚ) : Prop := roundDouble q = .finite q

theorem floorLog2_spec {q : ℚ} (h : 0 < q) : 2 ^ floorLog2 q ≤ q ∧ q < 2 ^ (floorLog2 q + 1) := by
  have hnum : 0 < q.num := Rat.num_pos.mpr h
  have hn : q.num.natAbs ≠ 0 := by omega
  have hq : q = (q.num.natAbs : ℚ) / q.den := by
    have hcast : ((q.num.natAbs : Int) : ℚ) = q.num := by rw [Int.natAbs_of_nonneg hnum.le]
    rw [← Int.cast_natCast, hcast, Rat.num_div_den]
  have hden : (0 : ℚ) < q.den := by exact_mod_cast q.den_pos
  have hn1 : (2 : ℚ) ^ (q.num.natAbs.log2 : Int) ≤ q.num.natAbs := by
    rw [zpow_natCast]
    exact_mod_cast Nat.log2_self_le hn
  have hn2 : (q.num.natAbs : ℚ) < 2 ^ ((q.num.natAbs.log2 : Int) + 1) := by
    rw [← Nat.cast_succ, zpow_natCast]
    exact_mod_cast Nat.lt_log2_self
  have hd1 : (2 : ℚ) ^ (q.den.log2 : Int) ≤ q.den := by
    rw [zpow_natCast]
    exact_mod_cast Nat.log2_self_le q.den_pos.ne'
  have hd2 : (q.den : ℚ) < 2 ^ ((q.den.log2 : Int) + 1) := by
    rw [← Nat.cast_succ, zpow_natCast]
    exact_mod_cast Nat.lt_log2_self
  -- the quotient of two numbers that are known up to a factor of two
  have hlow : (2 : ℚ) ^ ((q.num.natAbs.log2 : Int) - q.den.log2 - 1) ≤ q := by
    have hexp : (2 : ℚ) ^ ((q.num.natAbs.log2 : Int) - q.den.log2 - 1)
        = 2 ^ (q.num.natAbs.log2 : Int) / 2 ^ ((q.den.log2 : Int) + 1) := by
      rw [← zpow_sub₀ two_ne_zero]
      congr 1
      omega
    rw [hexp, hq, ← hq]
    exact (div_le_div₀ (by positivity) hn1 hden hd2.le).trans_eq hq.symm
  have hhigh : q < 2 ^ ((q.num.natAbs.log2 : Int) - q.den.log2 + 1) := by
    have hexp : (2 : ℚ) ^ ((q.num.natAbs.log2 : Int) - q.den.log2 + 1)
        = 2 ^ ((q.num.natAbs.log2 : Int) + 1) / 2 ^ (q.den.log2 : Int) := by
      rw [← zpow_sub₀ two_ne_zero]
      congr 1
      omega
    rw [hexp]
    exact hq.trans_lt (div_lt_div₀ hn2 hd1 (by positivity) (by positivity))
  rw [floorLog2]
  by_cases hle : (2 : ℚ) ^ ((q.num.natAbs.log2 : Int) - (q.den.log2 : Int)) ≤ q
  · simp only [if_pos hle]
    exact ⟨hle, hhigh⟩
  · simp only [if_neg hle]
    rw [Int.sub_add_cancel]
    exact ⟨hlow, not_le.mp hle⟩

/-- what has all its bits on the grid is not rounded -/
theorem roundPositive_grid {m : Nat} {e : Int} (hpos : 0 < m) (hm : m < 2 ^ 53) (he : -1074 ≤ e) :
    roundPositive (m * 2 ^ e) = m * 2 ^ e := by
  have hq : (0 : ℚ) < m * 2 ^ e := by positivity
  have hlt : (2 : ℚ) ^ floorLog2 (m * 2 ^ e) < 2 ^ (53 + e) := by
    refine (floorLog2_spec hq).1.trans_lt ?_
    rw [zpow_add₀ two_ne_zero]
    exact mul_lt_mul_of_pos_right (by exact_mod_cast hm) (by positivity)
  have hexp : floorLog2 (m * 2 ^ e) < 53 + e := (zpow_lt_zpow_iff_right₀ one_lt_two).mp hlt
  have hlast : lastBit (m * 2 ^ e) ≤ e := by
    rw [lastBit]
    omega
  obtain ⟨k, hk⟩ := Int.eq_ofNat_of_zero_le (show 0 ≤ e - lastBit (m * 2 ^ e) by omega)
  have hdiv : (m * 2 ^ e : ℚ) / 2 ^ lastBit (m * 2 ^ e) = ((m * 2 ^ k : Int) : ℚ) := by
    rw [mul_div_assoc, ← zpow_sub₀ two_ne_zero, hk]
    push_cast
    rw [zpow_natCast]
  rw [roundPositive, hdiv, roundHalfEven_intCast, ← hdiv]
  exact div_mul_cancel₀ _ (zpow_ne_zero _ two_ne_zero)

theorem roundHalfEven_bounds {q : ℚ} {n : Nat} (h0 : 0 ≤ q) (h : q < n) :
    0 ≤ roundHalfEven q ∧ roundHalfEven q ≤ n := by
  have hfloor : 0 ≤ ⌊q⌋ := Int.floor_nonneg.mpr h0
  have hlt : ⌊q⌋ < n := Int.floor_lt.mpr (by exact_mod_cast h)
  rw [roundHalfEven]
  split
  · omega
  · split <;> omega

/-- a rounded number has its bits on the grid -/
theorem roundPositive_eq {q : ℚ} (h : 0 < q) :
    ∃ m : Nat, m < 2 ^ 53 ∧ ∃ e : Int, -1074 ≤ e ∧ roundPositive q = m * 2 ^ e := by
  have hlast : -1074 ≤ lastBit q := by
    rw [lastBit]
    omega
  have hlt : q / 2 ^ lastBit q < ((2 ^ 53 : Nat) : ℚ) := by
    rw [div_lt_iff₀ (by positivity)]
    refine (floorLog2_spec h).2.trans_le ?_
    have hexp : floorLog2 q + 1 ≤ 53 + lastBit q := by
      rw [lastBit]
      omega
    calc (2 : ℚ) ^ (floorLog2 q + 1) ≤ 2 ^ (53 + lastBit q) := zpow_le_zpow_right₀ one_le_two hexp
      _ = ((2 ^ 53 : Nat) : ℚ) * 2 ^ lastBit q := by
        rw [zpow_add₀ two_ne_zero]
        norm_num
  obtain ⟨hnonneg, hle⟩ := roundHalfEven_bounds (by positivity) hlt
  obtain ⟨m, hm⟩ := Int.eq_ofNat_of_zero_le hnonneg
  have hround : roundPositive q = m * 2 ^ lastBit q := by
    rw [roundPositive, hm]
    norm_cast
  by_cases htop : m < 2 ^ 53
  · exact ⟨m, htop, lastBit q, hlast, hround⟩
  · -- the next power of two
    have heq : m = 2 ^ 53 := by omega
    refine ⟨2 ^ 52, by norm_num, lastBit q + 1, by omega, ?_⟩
    rw [hround, heq, zpow_add₀ two_ne_zero]
    push_cast
    ring

/-- a positive double and the grid -/
theorem isDouble_grid {m : Nat} {e : Int} (hpos : 0 < m) (hm : m < 2 ^ 53) (he : -1074 ≤ e)
    (hrange : (m * 2 ^ e : ℚ) < 2 ^ 1024) : IsDouble (m * 2 ^ e) := by
  have hq : (0 : ℚ) < m * 2 ^ e := by positivity
  rw [IsDouble, roundDouble, if_neg hq.ne']
  simp only [abs_of_pos hq, roundPositive_grid hpos hm he, if_neg (not_le.mpr hrange), if_neg hq.asymm]

theorem isDouble_zero : IsDouble 0 := by
  rw [IsDouble, roundDouble, if_pos rfl]

theorem IsDouble.neg {q : ℚ} (h : IsDouble q) : IsDouble (-q) := by
  rw [IsDouble, roundDouble] at h ⊢
  by_cases hq : q = 0
  · rw [hq, if_pos (by norm_num)]
    norm_num
  · rw [if_neg hq] at h
    rw [if_neg (neg_ne_zero.mpr hq), abs_neg]
    by_cases hbig : 2 ^ 1024 ≤ roundPositive |q|
    · simp only [if_pos hbig, reduceCtorEq] at h
    · simp only [if_neg hbig, JsNumber.finite.injEq] at h ⊢
      rcases lt_or_gt_of_ne hq with hneg | hpos
      · rw [if_pos hneg] at h
        rw [if_neg (by linarith)]
        linarith
      · rw [if_neg hpos.asymm] at h
        rw [if_pos (by linarith), h]

theorem isDouble_int {n : Int} (h : n.natAbs < 2 ^ 53) : IsDouble n := by
  have hnat {m : Nat} (hm : m < 2 ^ 53) : IsDouble (m : ℚ) := by
    rcases Nat.eq_zero_or_pos m with rfl | hpos
    · exact isDouble_zero
    · have hgrid : IsDouble ((m : ℚ) * 2 ^ (0 : Int)) := by
        apply isDouble_grid hpos hm (by norm_num)
        rw [zpow_zero, mul_one]
        calc (m : ℚ) < 2 ^ 53 := by exact_mod_cast hm
          _ < 2 ^ 1024 := pow_lt_pow_right₀ one_lt_two (by norm_num)
      rwa [zpow_zero, mul_one] at hgrid
  rcases Int.natAbs_eq n with hn | hn
  · rw [hn]
    exact hnat h
  · have hneg : (n : ℚ) = -((n.natAbs : ℕ) : ℚ) := by
      rw [← Int.cast_natCast, ← Int.cast_neg, ← hn]
    rw [hneg]
    exact (hnat h).neg

/-- rounding gives a double -/
theorem roundDouble_isDouble {q r : ℚ} (h : roundDouble q = .finite r) : IsDouble r := by
  rw [roundDouble] at h
  by_cases hq : q = 0
  · rw [if_pos hq, JsNumber.finite.injEq] at h
    rw [← h]
    exact isDouble_zero
  · rw [if_neg hq] at h
    obtain ⟨m, hm, e, he, heq⟩ := roundPositive_eq (abs_pos.mpr hq)
    by_cases hbig : 2 ^ 1024 ≤ roundPositive |q|
    · simp only [if_pos hbig, reduceCtorEq] at h
    · simp only [if_neg hbig, JsNumber.finite.injEq] at h
      have hdouble : IsDouble (roundPositive |q|) := by
        rcases Nat.eq_zero_or_pos m with hzero | hpos
        · rw [heq, hzero, Nat.cast_zero, zero_mul]
          exact isDouble_zero
        · rw [heq] at hbig ⊢
          exact isDouble_grid hpos hm he (not_le.mp hbig)
      rw [← h]
      split
      · exact hdouble.neg
      · exact hdouble

/-! ## the shortest decimal -/

/-- the multiple of `10 ^ e` next to a positive double that is rounded to it, if there is one -/
def decimalAt (q : ℚ) (e : Int) : Option Nat :=
  let low := ⌊q / 10 ^ e⌋.toNat
  let above := q / 10 ^ e - low
  let fits (s : Nat) : Bool := decide (roundDouble (s * 10 ^ e) = .finite q)
  if above < 1 / 2 ∨ above = 1 / 2 ∧ low % 2 = 0 then [low, low + 1].find? fits
  else [low + 1, low].find? fits

/-- with as few digits as possible -/
def shortestDecimal (q : ℚ) : Nat × Int :=
  ((List.range 1383).findSome? fun i : Nat =>
    (decimalAt q (308 - (i : Int))).map fun s => (s, 308 - (i : Int))).getD (0, 0)

theorem decimalAt_spec {q : ℚ} {e : Int} {s : Nat} (h : decimalAt q e = some s) :
    roundDouble (s * 10 ^ e) = .finite q := by
  have hfits {l : List Nat}
      (hl : l.find? (fun s : Nat => decide (roundDouble (s * 10 ^ e) = .finite q)) = some s) :
      roundDouble (s * 10 ^ e) = .finite q := by
    have hsome := List.find?_some hl
    exact of_decide_eq_true hsome
  simp only [decimalAt] at h
  split at h
  · exact hfits h
  · exact hfits h

/-- every double is a decimal -/
theorem decimalAt_last {q : ℚ} (hpos : 0 < q) (h : IsDouble q) : ∃ s, decimalAt q (-1074) = some s := by
  obtain ⟨m, -, e, he, heq⟩ := roundPositive_eq hpos
  have hq : q = m * 2 ^ e := by
    rw [IsDouble, roundDouble, if_neg hpos.ne', abs_of_pos hpos] at h
    by_cases hbig : 2 ^ 1024 ≤ roundPositive q
    · simp only [if_pos hbig, reduceCtorEq] at h
    · simp only [if_neg hbig, if_neg hpos.asymm, JsNumber.finite.injEq] at h
      rw [← heq, h]
  obtain ⟨k, hk⟩ := Int.eq_ofNat_of_zero_le (show 0 ≤ e + 1074 by omega)
  have hwhole : q / 10 ^ (-1074 : Int) = ((m * 2 ^ k * 5 ^ 1074 : Nat) : ℚ) := by
    have hten : (10 : ℚ) ^ (-1074 : Int) = 2 ^ (-1074 : Int) * 5 ^ (-1074 : Int) := by
      rw [← mul_zpow]
      norm_num
    have htwo : (2 : ℚ) ^ e = 2 ^ k * 2 ^ (-1074 : Int) := by
      rw [← zpow_natCast, ← zpow_add₀ two_ne_zero, show ((k : Int) + -1074) = e by omega]
    have hfive : (5 : ℚ) ^ (-1074 : Int) = (5 ^ 1074)⁻¹ := by
      rw [zpow_neg]
      norm_cast
    rw [div_eq_iff (by positivity), hq, htwo, hten, hfive]
    push_cast
    have h5 : (5 : ℚ) ^ 1074 ≠ 0 := pow_ne_zero _ (by norm_num)
    rw [show (m * 2 ^ k * 5 ^ 1074 * (2 ^ (-1074 : Int) * (5 ^ 1074)⁻¹) : ℚ)
      = m * 2 ^ k * 2 ^ (-1074 : Int) * (5 ^ 1074 * (5 ^ 1074)⁻¹) by ring, mul_inv_cancel₀ h5]
    ring
  generalize m * 2 ^ k * 5 ^ 1074 = n at hwhole
  have hfits : roundDouble (n * 10 ^ (-1074 : Int)) = .finite q := by
    rw [← hwhole, div_mul_cancel₀ _ (by positivity)]
    exact h
  refine ⟨n, ?_⟩
  simp only [decimalAt, hwhole, Int.floor_natCast, Int.toNat_natCast, sub_self]
  rw [if_pos (.inl (by norm_num))]
  exact List.find?_cons_of_pos (decide_eq_true hfits)

/-- **the shortest decimal of a double is rounded to it** -/
theorem shortestDecimal_spec {q : ℚ} (hpos : 0 < q) (h : IsDouble q) :
    roundDouble ((shortestDecimal q).1 * 10 ^ (shortestDecimal q).2) = .finite q := by
  obtain ⟨s, hs⟩ := decimalAt_last hpos h
  have hlast : (List.range 1383).findSome?
      (fun i : Nat => (decimalAt q (308 - (i : Int))).map fun s => (s, 308 - (i : Int))) ≠ none := by
    intro hnone
    have hmem := List.findSome?_eq_none_iff.mp hnone 1382 (List.mem_range.mpr (by norm_num))
    rw [show (308 - ((1382 : Nat) : Int)) = -1074 by norm_num, hs] at hmem
    cases hmem
  obtain ⟨⟨s, e⟩, hfound⟩ := Option.ne_none_iff_exists'.mp hlast
  obtain ⟨i, -, hi⟩ := List.exists_of_findSome?_eq_some hfound
  obtain ⟨s', hs', heq⟩ := Option.map_eq_some_iff.mp hi
  rw [shortestDecimal, hfound, Option.getD_some, ← heq]
  exact decimalAt_spec hs'

/-! ## numbers of a JSON text -/

/-- a zero, or digits of which the first is none -/
def isWhole (digits : List Char) : Bool :=
  decide (digits = ['0'] ∨ digits ≠ [] ∧ digits.head? ≠ some '0')

/-- without a sign; a point has digits before it and after it -/
def unsignedJson (cs : List Char) : Option JsNumber :=
  let rest := cs.dropWhile Char.isDigit
  if isWhole (cs.takeWhile Char.isDigit) = true ∧
      (rest.head? = some '.' → rest.tail.takeWhile Char.isDigit ≠ []) then
    (decimalLiteral cs).map roundDouble
  else none

def jsonNumber : List Char → Option JsNumber
  | '-' :: cs => (unsignedJson cs).map JsNumber.neg
  | cs => unsignedJson cs

/-! ## the text -/

/-- the exponent of a text in scientific notation -/
def exponentText (e : Int) : List Char :=
  'e' :: (if e < 0 then '-' else '+') :: Nat.toDigits 10 e.natAbs

/-- the text of `s * 10 ^ e`: `n` is the number of digits before the point -/
def decimalText (s : Nat) (e : Int) : List Char :=
  let ds := Nat.toDigits 10 s
  let n : Int := ds.length + e
  if 0 ≤ e ∧ n ≤ 21 then ds ++ List.replicate e.toNat '0'
  else if 0 < n ∧ n ≤ 21 then ds.take n.toNat ++ '.' :: ds.drop n.toNat
  else if -6 < n ∧ n ≤ 0 then '0' :: '.' :: (List.replicate (-n).toNat '0' ++ ds)
  else
    match ds with
    | [] => []
    | [d] => d :: exponentText (n - 1)
    | d :: ds => d :: '.' :: (ds ++ exponentText (n - 1))

def positiveText (q : ℚ) : List Char := decimalText (shortestDecimal q).1 (shortestDecimal q).2

def numberText (q : ℚ) : List Char :=
  if q = 0 then ['0'] else if q < 0 then '-' :: positiveText (-q) else positiveText q

theorem decimalText_ne_nil (s : Nat) (e : Int) : decimalText s e ≠ [] := by
  have hne : Nat.toDigits 10 s ≠ [] := Nat.toDigits_ne_nil
  simp only [decimalText]
  generalize Nat.toDigits 10 s = ds at *
  split
  · exact List.append_ne_nil_of_left_ne_nil hne _
  · split
    · exact List.append_ne_nil_of_right_ne_nil _ (List.cons_ne_nil _ _)
    · split
      · exact List.cons_ne_nil _ _
      · split
        · exact absurd rfl hne
        · exact List.cons_ne_nil _ _
        · exact List.cons_ne_nil _ _

theorem numberText_ne_nil (q : ℚ) : numberText q ≠ [] := by
  rw [numberText]
  split
  · exact List.cons_ne_nil _ _
  · split
    · exact List.cons_ne_nil _ _
    · exact decimalText_ne_nil _ _

/-! ## reading it back -/

section
variable {whole fraction : List Char} (tail : List Char) (hwhole : ∀ c ∈ whole, c.isDigit = true)
  (hfraction : ∀ c ∈ fraction, c.isDigit = true) (htail : ∀ c ∈ tail.head?, c.isDigit = false)
include hwhole htail

theorem span_digits : (whole ++ tail).takeWhile Char.isDigit = whole ∧
    (whole ++ tail).dropWhile Char.isDigit = tail := by
  have htake : tail.takeWhile Char.isDigit = [] ∧ tail.dropWhile Char.isDigit = tail := by
    cases tail with
    | nil => exact ⟨rfl, rfl⟩
    | cons c cs =>
      have hc : c.isDigit = false := htail c rfl
      simp [hc]
  rw [List.takeWhile_append_of_pos hwhole, List.dropWhile_append_of_pos hwhole, htake.1, htake.2,
    List.append_nil]
  exact ⟨rfl, rfl⟩

/-- digits without a point -/
theorem decimalLiteral_whole (hpoint : tail.head? ≠ some '.') {n : Nat} {e : Int}
    (hn : decimalValue whole = some n) (he : exponentValue tail = some e) :
    decimalLiteral (whole ++ tail) = some ((n : ℚ) * 10 ^ e) := by
  obtain ⟨htake, hdrop⟩ := span_digits tail hwhole htail
  simp only [decimalLiteral, htake, hdrop, if_neg hpoint, List.append_nil, hn, he]
  simp

include hfraction in
/-- digits with a point -/
theorem decimalLiteral_point {n : Nat} {e : Int} (hn : decimalValue (whole ++ fraction) = some n)
    (he : exponentValue tail = some e) :
    decimalLiteral (whole ++ '.' :: (fraction ++ tail)) = some ((n : ℚ) * 10 ^ (e - fraction.length)) := by
  obtain ⟨htake, hdrop⟩ := span_digits ('.' :: (fraction ++ tail)) hwhole
    fun c hc => by rw [← Option.some.inj hc]; rfl
  obtain ⟨htake', hdrop'⟩ := span_digits tail hfraction htail
  simp only [decimalLiteral, htake, hdrop, List.head?_cons, if_true, List.tail_cons, htake', hdrop', hn, he]

end

theorem exponentValue_exponentText (e : Int) : exponentValue (exponentText e) = some e := by
  have hdigits := decimalValue_toDigits e.natAbs
  by_cases he : e < 0
  · simp only [exponentText, if_pos he, exponentValue, hdigits, true_or, if_true]
    show some (-(e.natAbs : Int)) = some e
    rw [show -(e.natAbs : Int) = e by omega]
  · simp only [exponentText, if_neg he, exponentValue, hdigits, true_or, if_true]
    show some (e.natAbs : Int) = some e
    rw [show (e.natAbs : Int) = e by omega]

theorem not_isDigit_exponentText (e : Int) : ∀ c ∈ (exponentText e).head?, c.isDigit = false := by
  intro c hc
  rw [← Option.some.inj hc]
  rfl

/-- the first digit is no zero -/
theorem head_toDigits {n : Nat} (h : 0 < n) : (Nat.toDigits 10 n).head? ≠ some '0' := by
  induction n using Nat.strongRecOn with
  | _ n ih =>
    by_cases hlt : n < 10
    · rw [Nat.toDigits_of_lt_base hlt]
      interval_cases n <;> decide
    · rw [Nat.toDigits_of_base_le (by norm_num) (by omega), List.head?_append_of_ne_nil _ Nat.toDigits_ne_nil]
      exact ih (n / 10) (by omega) (by omega)

theorem isDigit_zeros (n : Nat) : ∀ c ∈ List.replicate n '0', c.isDigit = true := by
  intro c hc
  rw [List.eq_of_mem_replicate hc]
  rfl

section
variable {a b : List Char} (ha : ∀ c ∈ a, c.isDigit = true) (hb : ∀ c ∈ b, c.isDigit = true)
include ha hb

theorem isDigit_append : ∀ c ∈ a ++ b, c.isDigit = true := by
  intro c hc
  rcases List.mem_append.mp hc with hc | hc
  · exact ha c hc
  · exact hb c hc

end

theorem decimalValue_digits {cs : List Char} (hne : cs ≠ []) (h : ∀ c ∈ cs, c.isDigit = true) :
    decimalValue cs = some (Nat.ofDigitChars 10 cs 0) := by
  rw [decimalValue, if_pos ⟨hne, List.all_eq_true.mpr h⟩]

section
variable (whole tail : List Char) {q : ℚ} (hwhole : ∀ c ∈ whole, c.isDigit = true)
  (htail : ∀ c ∈ tail.head?, c.isDigit = false) (hzero : isWhole whole = true)
  (hpoint : tail.head? = some '.' → tail.tail.takeWhile Char.isDigit ≠ [])
  (hliteral : decimalLiteral (whole ++ tail) = some q)
include hwhole htail hzero hpoint hliteral

theorem unsignedJson_of : unsignedJson (whole ++ tail) = some (roundDouble q) := by
  obtain ⟨htake, hdrop⟩ := span_digits tail hwhole htail
  simp only [unsignedJson, htake, hdrop, hliteral, if_pos (And.intro hzero hpoint), Option.map_some]

end

section
variable {d : Char} {ds : List Char} (hd : d ≠ '0') (hdigits : ∀ c ∈ d :: ds, c.isDigit = true)
include hd

theorem isWhole_cons (ds : List Char) : isWhole (d :: ds) = true :=
  decide_eq_true (.inr ⟨List.cons_ne_nil _ _, fun h => hd (Option.some.inj h)⟩)

include hdigits

/-- digits and zeros -/
theorem unsignedJson_integer (k : Nat) : unsignedJson (d :: ds ++ List.replicate k '0')
    = some (roundDouble ((Nat.ofDigitChars 10 (d :: ds) 0 : Nat) * 10 ^ (k : Int))) := by
  have hall := isDigit_append hdigits (isDigit_zeros k)
  have hvalue : decimalValue (d :: ds ++ List.replicate k '0')
      = some (10 ^ k * Nat.ofDigitChars 10 (d :: ds) 0) := by
    have hne : d :: ds ++ List.replicate k '0' ≠ [] := List.cons_ne_nil _ _
    rw [decimalValue_digits hne hall, Nat.ofDigitChars_append, Nat.ofDigitChars_replicate_zero]
  have hliteral := decimalLiteral_digits hall hvalue
  have hread := unsignedJson_of _ [] hall (fun _ hc => nomatch hc)
    (isWhole_cons hd (ds ++ List.replicate k '0')) (fun hc => nomatch hc)
    (by rw [List.append_nil]; exact hliteral)
  rw [List.append_nil] at hread
  rw [hread]
  congr 2
  push_cast
  rw [zpow_natCast, mul_comm]

/-- a point among the digits -/
theorem unsignedJson_point {front back : List Char} (hsplit : d :: ds = front ++ back) (hfront : front ≠ [])
    (hback : back ≠ []) : unsignedJson (front ++ '.' :: back)
      = some (roundDouble ((Nat.ofDigitChars 10 (d :: ds) 0 : Nat) * 10 ^ (-(back.length : Int)))) := by
  obtain ⟨d', front, rfl⟩ := List.exists_cons_of_ne_nil hfront
  obtain ⟨rfl, hds⟩ := List.cons.inj hsplit
  have hf : ∀ c ∈ d :: front, c.isDigit = true := by
    intro c hc
    exact hdigits c (hsplit ▸ List.mem_append_left _ hc)
  have hb : ∀ c ∈ back, c.isDigit = true := by
    intro c hc
    exact hdigits c (hsplit ▸ List.mem_append_right _ hc)
  have hvalue : decimalValue (d :: front ++ back) = some (Nat.ofDigitChars 10 (d :: ds) 0) := by
    rw [← hsplit, decimalValue_digits (List.cons_ne_nil _ _) hdigits]
  have hliteral := decimalLiteral_point [] hf hb (fun _ hc => nomatch hc) hvalue rfl
  rw [List.append_nil, zero_sub] at hliteral
  refine unsignedJson_of _ _ hf (fun c hc => ?_) (isWhole_cons hd front) (fun _ => ?_) hliteral
  · rw [← Option.some.inj hc]
    rfl
  · rw [List.tail_cons, List.takeWhile_eq_self_iff.mpr hb]
    exact hback

omit hd in
/-- zeros before the digits -/
theorem unsignedJson_zeros (k : Nat) : unsignedJson ('0' :: '.' :: (List.replicate k '0' ++ d :: ds))
    = some (roundDouble ((Nat.ofDigitChars 10 (d :: ds) 0 : Nat) * 10 ^ (-((k + (d :: ds).length : Nat) : Int)))) := by
  have hb := isDigit_append (isDigit_zeros k) hdigits
  have hf : ∀ c ∈ ['0'], c.isDigit = true := by
    intro c hc
    rw [List.mem_singleton.mp hc]
    rfl
  have hvalue : decimalValue (['0'] ++ (List.replicate k '0' ++ d :: ds))
      = some (Nat.ofDigitChars 10 (d :: ds) 0) := by
    have hne : ['0'] ++ (List.replicate k '0' ++ d :: ds) ≠ [] := List.cons_ne_nil _ _
    rw [decimalValue_digits hne (isDigit_append hf hb), Nat.ofDigitChars_append,
      Nat.ofDigitChars_append, Nat.ofDigitChars_replicate_zero]
    rfl
  have hliteral := decimalLiteral_point [] hf hb (fun _ hc => nomatch hc) hvalue rfl
  rw [List.append_nil, zero_sub, List.length_append, List.length_replicate] at hliteral
  refine unsignedJson_of ['0'] _ hf (fun c hc => ?_) rfl (fun _ => ?_) hliteral
  · rw [← Option.some.inj hc]
    rfl
  · rw [List.tail_cons, List.takeWhile_eq_self_iff.mpr hb]
    exact List.append_ne_nil_of_right_ne_nil _ (List.cons_ne_nil _ _)

/-- with an exponent -/
theorem unsignedJson_exponent (e : Int) :
    unsignedJson (match d :: ds with
      | [] => []
      | [d] => d :: exponentText e
      | d :: ds => d :: '.' :: (ds ++ exponentText e))
      = some (roundDouble ((Nat.ofDigitChars 10 (d :: ds) 0 : Nat) * 10 ^ (e - ds.length))) := by
  have hf : ∀ c ∈ [d], c.isDigit = true := by
    intro c hc
    rw [List.mem_singleton.mp hc]
    exact hdigits d List.mem_cons_self
  cases ds with
  | nil =>
    have hvalue := decimalValue_digits (List.cons_ne_nil d []) hdigits
    have hliteral := decimalLiteral_whole _ hf (not_isDigit_exponentText e)
      (by intro h; cases h) hvalue (exponentValue_exponentText e)
    rw [List.length_nil, Nat.cast_zero, sub_zero]
    exact unsignedJson_of _ _ hf (not_isDigit_exponentText e) (isWhole_cons hd []) (by intro h; cases h) hliteral
  | cons d' ds =>
    have hb : ∀ c ∈ d' :: ds, c.isDigit = true := fun c hc => hdigits c (List.mem_cons_of_mem _ hc)
    have hvalue : decimalValue ([d] ++ d' :: ds) = some (Nat.ofDigitChars 10 (d :: d' :: ds) 0) :=
      decimalValue_digits (List.cons_ne_nil _ _) hdigits
    have hliteral := decimalLiteral_point _ hf hb (not_isDigit_exponentText e) hvalue
      (exponentValue_exponentText e)
    refine unsignedJson_of [d] _ hf (fun c hc => ?_) (isWhole_cons hd []) (fun _ => ?_) hliteral
    · rw [← Option.some.inj hc]
      rfl
    · rw [List.tail_cons, (span_digits _ hb (not_isDigit_exponentText e)).1]
      exact List.cons_ne_nil _ _

end

/-- **a decimal is read back from its text** -/
theorem unsignedJson_decimalText {s : Nat} (hs : 0 < s) (e : Int) :
    unsignedJson (decimalText s e) = some (roundDouble (s * 10 ^ e)) := by
  have hdigits : ∀ c ∈ Nat.toDigits 10 s, c.isDigit = true := isDigit_toDigits
  have hvalue : Nat.ofDigitChars 10 (Nat.toDigits 10 s) 0 = s := Nat.ofDigitChars_ten_toDigits
  have hhead := head_toDigits hs
  rw [decimalText]
  obtain ⟨d, ds, hds⟩ := List.exists_cons_of_ne_nil (Nat.toDigits_ne_nil (n := s) (b := 10))
  simp only [hds] at *
  have hd : d ≠ '0' := fun h => hhead (by rw [h]; rfl)
  split
  · next h =>
    rw [unsignedJson_integer hd hdigits, hvalue, Int.toNat_of_nonneg h.1]
  · next hinteger =>
    split
    · next h =>
      have hlength : (d :: ds).length = ds.length + 1 := rfl
      have hexp : -(((d :: ds).length - ((d :: ds).length + e).toNat : Nat) : Int) = e := by omega
      rw [unsignedJson_point hd hdigits (List.take_append_drop _ _).symm, hvalue, List.length_drop, hexp]
      · simp
        omega
      · rw [ne_eq, List.drop_eq_nil_iff]
        omega
    · split
      · next h =>
        have hexp : -(((-((d :: ds).length + e)).toNat + (d :: ds).length : Nat) : Int) = e := by omega
        rw [unsignedJson_zeros hdigits, hvalue, hexp]
      · have hexp : ((d :: ds).length + e - 1 : Int) - ds.length = e := by
          rw [List.length_cons]
          push_cast
          omega
        rw [unsignedJson_exponent hd hdigits, hvalue, hexp]

/-- a number without a sign does not begin with one -/
theorem jsonNumber_of_unsigned {cs : List Char} {n : JsNumber} (h : unsignedJson cs = some n) :
    jsonNumber cs = some n := by
  rw [jsonNumber.eq_def]
  split
  · next cs =>
    have hnone : unsignedJson ('-' :: cs) = none := by
      simp only [unsignedJson]
      rw [if_neg]
      intro hwhole
      have htake : ('-' :: cs).takeWhile Char.isDigit = [] := rfl
      rw [htake] at hwhole
      exact absurd hwhole.1 (by decide)
    rw [hnone] at h
    cases h
  · exact h

theorem unsignedJson_positiveText {q : ℚ} (hpos : 0 < q) (h : IsDouble q) :
    unsignedJson (positiveText q) = some (.finite q) := by
  have hround := shortestDecimal_spec hpos h
  have hs : 0 < (shortestDecimal q).1 := by
    rcases Nat.eq_zero_or_pos (shortestDecimal q).1 with hzero | hs
    · rw [hzero, Nat.cast_zero, zero_mul, isDouble_zero, JsNumber.finite.injEq] at hround
      exact absurd hround hpos.ne
    · exact hs
  rw [positiveText, unsignedJson_decimalText hs, hround]

/-- **a double is read back from its text** -/
theorem jsonNumber_numberText {q : ℚ} (h : IsDouble q) : jsonNumber (numberText q) = some (.finite q) := by
  rw [numberText]
  split
  · next hq =>
    have hzero : ∀ c ∈ ['0'], c.isDigit = true := by
      intro c hc
      rw [List.mem_singleton.mp hc]
      rfl
    have hliteral := decimalLiteral_digits hzero (decimalValue_digits (List.cons_ne_nil _ _) hzero)
    have hround : roundDouble ((Nat.ofDigitChars 10 ['0'] 0 : Nat) : ℚ) = .finite q := by
      rw [show Nat.ofDigitChars 10 ['0'] 0 = 0 from rfl, Nat.cast_zero, hq]
      exact isDouble_zero
    rw [← hround]
    exact jsonNumber_of_unsigned (unsignedJson_of ['0'] [] hzero (fun _ hc => nomatch hc) rfl
      (fun hc => nomatch hc) hliteral)
  · next hq =>
    split
    · next hneg =>
      show (unsignedJson (positiveText (-q))).map JsNumber.neg = _
      rw [unsignedJson_positiveText (by linarith) h.neg, Option.map_some, JsNumber.neg, neg_neg]
    · next hneg =>
      have hpos : 0 < q := lt_of_le_of_ne (not_lt.mp hneg) (Ne.symm hq)
      exact jsonNumber_of_unsigned (unsignedJson_positiveText hpos h)

/-- what is read is a double -/
theorem jsonNumber_isDouble {cs : List Char} {q : ℚ} (h : jsonNumber cs = some (.finite q)) :
    IsDouble q := by
  have hunsigned {cs : List Char} {q : ℚ} (h : unsignedJson cs = some (.finite q)) : IsDouble q := by
    rw [unsignedJson, Option.ite_none_right_eq_some] at h
    obtain ⟨r, -, hr⟩ := Option.map_eq_some_iff.mp h.2
    exact roundDouble_isDouble hr
  rw [jsonNumber.eq_def] at h
  split at h
  · obtain ⟨n, hn, hneg⟩ := Option.map_eq_some_iff.mp h
    cases n with
    | nan => cases hneg
    | infinity negative => cases hneg
    | finite r =>
      rw [JsNumber.neg, JsNumber.finite.injEq] at hneg
      rw [← hneg]
      exact (hunsigned hn).neg
  · exact hunsigned h

/-- the characters of a number -/
def isNumberChar (c : Char) : Bool := c.isDigit || c == '-' || c == '+' || c == '.' || c == 'e' || c == 'E'

theorem isNumberChar_digits {cs : List Char} (h : ∀ c ∈ cs, c.isDigit = true) :
    cs.all isNumberChar = true := by
  refine List.all_eq_true.mpr fun c hc => ?_
  rw [isNumberChar, h c hc]
  rfl

theorem isNumberChar_exponentText (e : Int) : (exponentText e).all isNumberChar = true := by
  have hdigits : (Nat.toDigits 10 e.natAbs).all isNumberChar = true := isNumberChar_digits isDigit_toDigits
  rw [exponentText, List.all_cons, List.all_cons, hdigits]
  split <;> rfl

theorem isNumberChar_decimalText (s : Nat) (e : Int) : (decimalText s e).all isNumberChar = true := by
  have hdigits : ∀ c ∈ Nat.toDigits 10 s, c.isDigit = true := isDigit_toDigits
  have hzeros (n : Nat) : (List.replicate n '0').all isNumberChar = true :=
    isNumberChar_digits (isDigit_zeros n)
  have hall := isNumberChar_digits hdigits
  have hexponent := isNumberChar_exponentText
  simp only [decimalText]
  generalize Nat.toDigits 10 s = ds at *
  split
  · rw [List.all_append, hall, hzeros, Bool.and_true]
  · split
    · rw [List.all_append, List.all_cons,
        isNumberChar_digits fun c hc => hdigits c (List.mem_of_mem_take hc),
        isNumberChar_digits fun c hc => hdigits c (List.mem_of_mem_drop hc)]
      rfl
    · split
      · rw [List.all_cons, List.all_cons, List.all_append, hall, hzeros]
        rfl
      · split
        · rfl
        · rw [List.all_cons, hexponent, Bool.and_true]
          exact List.all_eq_true.mp hall _ List.mem_cons_self
        · rename_i d ds _
          rw [List.all_cons, Bool.and_eq_true] at hall
          rw [List.all_cons, List.all_cons, List.all_append, hall.1, hall.2, hexponent]
          rfl

theorem isNumberChar_numberText (q : ℚ) : (numberText q).all isNumberChar = true := by
  rw [numberText]
  split
  · rfl
  · split
    · rw [List.all_cons, positiveText, isNumberChar_decimalText]
      rfl
    · exact isNumberChar_decimalText _ _

end JsString
