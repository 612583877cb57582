import JinCore.Js.Text
import Mathlib.Tactic.NormNum

/-!
# `Date.prototype.toISOString`

A `Date` is a number of milliseconds since 1970-01-01T00:00:00Z, within the range ECMAScript
allows, so that `toISOString` never throws.

* `yearFromDay`, `monthDay`   the proleptic Gregorian calendar; `yearFromDay_le`,
                              `lt_yearFromDay`, `monthDay_sum`;
* `toISOString`               `YYYY-MM-DDTHH:mm:ss.sssZ`, with a signed six-digit year outside
                              `0..9999`;
* `toISOString_inj`           the text determines the instant.
-/

/-- a valid `Date` -/
structure JsDate where
  time : Int
  valid : -8640000000000000 ≤ time ∧ time ≤ 8640000000000000
  deriving DecidableEq, Repr

namespace JsDate

/-! ## the calendar -/

/-- the number of the first day of a year, counted from 1970-01-01 -/
def dayFromYear (y : Int) : Int :=
  365 * (y - 1970) + (y - 1969) / 4 - (y - 1901) / 100 + (y - 1601) / 400

/-- the mean length of a year gives the year up to one -/
def yearFromDay (d : Int) : Int :=
  let y := 1970 + 400 * d / 146097
  if d < dayFromYear y then y - 1 else if dayFromYear (y + 1) ≤ d then y + 1 else y

theorem yearFromDay_le (d : Int) : dayFromYear (yearFromDay d) ≤ d := by
  unfold yearFromDay dayFromYear
  simp only
  split
  · omega
  · split <;> omega

theorem lt_yearFromDay (d : Int) : d < dayFromYear (yearFromDay d + 1) := by
  unfold yearFromDay
  simp only
  split
  next h =>
    rw [sub_add_cancel]
    exact h
  next h =>
    split
    · unfold dayFromYear
      omega
    next h2 => exact not_le.mp h2

def isLeap (y : Int) : Bool := decide (y % 4 = 0 ∧ (y % 100 ≠ 0 ∨ y % 400 = 0))

def monthLengths (y : Int) : List Nat :=
  [31, if isLeap y then 29 else 28, 31, 30, 31, 30, 31, 31, 30, 31, 30, 31]

/-- the number of whole months before a day of the year, and the days left over -/
def monthDay : List Nat → Nat → Nat × Nat
  | [], n => (0, n)
  | l :: ls, n => if n < l then (0, n) else ((monthDay ls (n - l)).1 + 1, (monthDay ls (n - l)).2)

theorem monthDay_sum (ls : List Nat) (n : Nat) :
    (ls.take (monthDay ls n).1).sum + (monthDay ls n).2 = n := by
  induction ls generalizing n with
  | nil => simp [monthDay]
  | cons l ls ih =>
    rw [monthDay]
    split
    · simp
    next h =>
      have := ih (n - l)
      simp only [List.take_succ_cons, List.sum_cons]
      omega

/-- inside the year the month exists and the day fits in it -/
theorem monthDay_lt (ls : List Nat) (b n : Nat) (hb : ∀ l ∈ ls, l ≤ b) (h : n < ls.sum) :
    (monthDay ls n).1 < ls.length ∧ (monthDay ls n).2 < b := by
  induction ls generalizing n with
  | nil => simp at h
  | cons l ls ih =>
    rw [monthDay]
    split
    next hl =>
      have := hb l List.mem_cons_self
      exact ⟨by simp, by show n < b; omega⟩
    next hl =>
      rw [List.sum_cons] at h
      obtain ⟨h1, h2⟩ := ih (n - l) (fun x hx => hb x (List.mem_cons_of_mem _ hx)) (by omega)
      exact ⟨by rw [List.length_cons]; omega, h2⟩

theorem monthLengths_le (y : Int) : ∀ l ∈ monthLengths y, l ≤ 31 := by
  unfold monthLengths
  split <;> decide

theorem sum_monthLengths (y : Int) :
    ((monthLengths y).sum : Int) = dayFromYear (y + 1) - dayFromYear y := by
  have hleap : ((if isLeap y = true then 29 else 28 : Nat) : Int)
      = dayFromYear (y + 1) - dayFromYear y - 337 := by
    unfold isLeap dayFromYear
    split
    next h => simp only [decide_eq_true_eq] at h; push_cast; omega
    next h => simp only [decide_eq_true_eq] at h; push_cast; omega
  simp only [monthLengths, List.sum_cons, List.sum_nil]
  push_cast at hleap ⊢
  omega

/-! ## decimal fields of fixed width -/

/-- the last `w` decimal digits -/
def digits : Nat → Nat → List Char
  | 0, _ => []
  | w + 1, n => digits w (n / 10) ++ [Nat.digitChar (n % 10)]

theorem length_digits (w n : Nat) : (digits w n).length = w := by
  induction w generalizing n with
  | zero => rfl
  | succ w ih => rw [digits, List.length_append, ih]; rfl

theorem digitChar_inj {a b : Nat} (ha : a < 10) (hb : b < 10)
    (h : Nat.digitChar a = Nat.digitChar b) : a = b := by
  have ea := Nat.toNat_digitChar_of_lt_ten ha
  have eb := Nat.toNat_digitChar_of_lt_ten hb
  rw [h] at ea
  omega

theorem digits_inj {w a b : Nat} (ha : a < 10 ^ w) (hb : b < 10 ^ w)
    (h : digits w a = digits w b) : a = b := by
  induction w generalizing a b with
  | zero => rw [pow_zero] at ha hb; omega
  | succ w ih =>
    rw [pow_succ] at ha hb
    obtain ⟨h1, h2⟩ := List.append_inj' (show digits w (a / 10) ++ [Nat.digitChar (a % 10)]
      = digits w (b / 10) ++ [Nat.digitChar (b % 10)] from h) rfl
    have hq := ih (by omega) (by omega) h1
    have hr := digitChar_inj (Nat.mod_lt a (by omega)) (Nat.mod_lt b (by omega)) (List.cons.inj h2).1
    omega

/-- a fixed-width field is read back in front of anything -/
theorem digits_append_inj {w a b : Nat} (ha : a < 10 ^ w) (hb : b < 10 ^ w) {x y : List Char}
    (h : digits w a ++ x = digits w b ++ y) : a = b ∧ x = y := by
  obtain ⟨h1, h2⟩ := List.append_inj h (by rw [length_digits, length_digits])
  exact ⟨digits_inj ha hb h1, h2⟩

/-! ## the text -/

def day (d : JsDate) : Int := d.time / 86400000
def timeOfDay (d : JsDate) : Nat := (d.time % 86400000).toNat
def year (d : JsDate) : Int := yearFromDay d.day
def dayOfYear (d : JsDate) : Nat := (d.day - dayFromYear d.year).toNat
def month (d : JsDate) : Nat := (monthDay (monthLengths d.year) d.dayOfYear).1
def dayOfMonth (d : JsDate) : Nat := (monthDay (monthLengths d.year) d.dayOfYear).2

def yearChars (y : Int) : List Char :=
  if 0 ≤ y ∧ y ≤ 9999 then digits 4 y.toNat
  else (if y < 0 then '-' else '+') :: digits 6 y.natAbs

def isoChars (d : JsDate) : List Char :=
  yearChars d.year ++ ('-' :: (digits 2 (d.month + 1) ++ ('-' :: (digits 2 (d.dayOfMonth + 1) ++
    ('T' :: (digits 2 (d.timeOfDay / 3600000) ++ (':' :: (digits 2 (d.timeOfDay / 60000 % 60) ++
    (':' :: (digits 2 (d.timeOfDay / 1000 % 60) ++ ('.' :: (digits 3 (d.timeOfDay % 1000) ++
    ['Z']))))))))))))

def toISOString (d : JsDate) : JsString := JsString.ofChars d.isoChars

/-! ## the text determines the instant -/

theorem timeOfDay_lt (d : JsDate) : d.timeOfDay < 86400000 := by
  unfold timeOfDay
  omega

theorem time_eq (d : JsDate) : d.time = 86400000 * d.day + d.timeOfDay := by
  unfold day timeOfDay
  omega

theorem dayOfYear_eq (d : JsDate) : (d.dayOfYear : Int) = d.day - dayFromYear d.year := by
  have h := yearFromDay_le d.day
  unfold dayOfYear year
  omega

theorem dayOfYear_lt (d : JsDate) : d.dayOfYear < (monthLengths d.year).sum := by
  have h1 := dayOfYear_eq d
  have h2 := sum_monthLengths d.year
  have h3 : d.day < dayFromYear (d.year + 1) := lt_yearFromDay d.day
  omega

theorem month_lt (d : JsDate) : d.month < 12 :=
  (monthDay_lt _ 31 _ (monthLengths_le d.year) d.dayOfYear_lt).1

theorem dayOfMonth_lt (d : JsDate) : d.dayOfMonth < 31 :=
  (monthDay_lt _ 31 _ (monthLengths_le d.year) d.dayOfYear_lt).2

theorem year_range (d : JsDate) : -271822 ≤ d.year ∧ d.year ≤ 275761 := by
  obtain ⟨h1, h2⟩ := d.valid
  have h3 : dayFromYear d.year ≤ d.day := yearFromDay_le d.day
  have h4 : d.day < dayFromYear (d.year + 1) := lt_yearFromDay d.day
  unfold dayFromYear at h3 h4
  have h5 : -100000000 ≤ d.day ∧ d.day ≤ 100000000 := by
    unfold day
    omega
  omega

theorem length_yearChars (y : Int) :
    (yearChars y).length = if 0 ≤ y ∧ y ≤ 9999 then 4 else 7 := by
  unfold yearChars
  split
  · exact length_digits 4 _
  · rw [List.length_cons, length_digits]

theorem yearChars_inj {y z : Int} (hy : -271822 ≤ y ∧ y ≤ 275761)
    (hz : -271822 ≤ z ∧ z ≤ 275761) (h : yearChars y = yearChars z) : y = z := by
  have hl := congrArg List.length h
  rw [length_yearChars, length_yearChars] at hl
  unfold yearChars at h
  by_cases cy : 0 ≤ y ∧ y ≤ 9999
  · by_cases cz : 0 ≤ z ∧ z ≤ 9999
    · rw [if_pos cy, if_pos cz] at h
      have := digits_inj (w := 4) (by omega) (by omega) h
      omega
    · rw [if_pos cy, if_neg cz] at hl
      omega
  · by_cases cz : 0 ≤ z ∧ z ≤ 9999
    · rw [if_neg cy, if_pos cz] at hl
      omega
    · rw [if_neg cy, if_neg cz, List.cons.injEq] at h
      have ha := digits_inj (w := 6) (by omega) (by omega) h.2
      have hs : y < 0 ↔ z < 0 := by
        by_cases sy : y < 0
        · by_cases sz : z < 0
          · exact ⟨fun _ => sz, fun _ => sy⟩
          · rw [if_pos sy, if_neg sz] at h
            exact absurd h.1 (by decide)
        · by_cases sz : z < 0
          · rw [if_neg sy, if_pos sz] at h
            exact absurd h.1 (by decide)
          · exact ⟨fun hy => absurd hy sy, fun hz => absurd hz sz⟩
      omega

theorem length_isoChars (d : JsDate) :
    d.isoChars.length = (yearChars d.year).length + 20 := by
  unfold isoChars
  simp only [List.length_append, List.length_cons, List.length_nil, length_digits]

/-- **the ISO text determines the instant** -/
theorem toISOString_inj {d e : JsDate} (h : d.toISOString = e.toISOString) : d = e := by
  have hc : d.isoChars = e.isoChars := by
    rw [← JsString.chars_ofChars d.isoChars, ← JsString.chars_ofChars e.isoChars]
    exact congrArg JsString.chars h
  have hl := congrArg List.length hc
  rw [length_isoChars, length_isoChars] at hl
  have md := d.month_lt
  have me := e.month_lt
  have dd := d.dayOfMonth_lt
  have de := e.dayOfMonth_lt
  have td := d.timeOfDay_lt
  have te := e.timeOfDay_lt
  obtain ⟨hy, hc⟩ := List.append_inj hc (by omega)
  have hy := yearChars_inj d.year_range e.year_range hy
  obtain ⟨hmo, hc⟩ := digits_append_inj (by omega) (by omega) (List.cons.inj hc).2
  obtain ⟨hda, hc⟩ := digits_append_inj (by omega) (by omega) (List.cons.inj hc).2
  obtain ⟨hh, hc⟩ := digits_append_inj (by omega) (by omega) (List.cons.inj hc).2
  obtain ⟨hmi, hc⟩ := digits_append_inj (by omega) (by omega) (List.cons.inj hc).2
  obtain ⟨hs, hc⟩ := digits_append_inj (by omega) (by omega) (List.cons.inj hc).2
  obtain ⟨hms, _⟩ := digits_append_inj (by omega) (by omega) (List.cons.inj hc).2
  have htod : d.timeOfDay = e.timeOfDay := by omega
  have hdoy : d.dayOfYear = e.dayOfYear := by
    have h1 := monthDay_sum (monthLengths d.year) d.dayOfYear
    have h2 := monthDay_sum (monthLengths e.year) e.dayOfYear
    have e1 : (monthDay (monthLengths d.year) d.dayOfYear).1
        = (monthDay (monthLengths e.year) e.dayOfYear).1 := Nat.succ.inj hmo
    have e2 : (monthDay (monthLengths d.year) d.dayOfYear).2
        = (monthDay (monthLengths e.year) e.dayOfYear).2 := Nat.succ.inj hda
    rw [e1, e2, hy] at h1
    omega
  have hd1 := dayOfYear_eq d
  have hd2 := dayOfYear_eq e
  rw [hy] at hd1
  have ht1 := time_eq d
  have ht2 := time_eq e
  have htime : d.time = e.time := by omega
  cases d
  cases e
  cases htime
  rfl

example : (⟨1700000000123, by decide⟩ : JsDate).isoChars = "2023-11-14T22:13:20.123Z".toList := by
  decide
example : (⟨-62198755200001, by decide⟩ : JsDate).isoChars
    = "-000002-12-31T23:59:59.999Z".toList := by decide

end JsDate
