import JinCore.Js.Date

/-!
# `new Date` of an ISO text

* `parseISO`              the instant of a text in the format of `toISOString`, `none` for an invalid
                          date; the other texts that `Date` reads are not modelled;
* `parseISO_toISOString`  the text of an instant gives the instant back.
-/

namespace JsDate

/-! ## fields -/

/-- a field of `w` decimal digits and what follows it -/
def readDigits (w : Nat) (cs : List Char) : Option (Nat × List Char) :=
  if w ≤ cs.length ∧ (cs.take w).all Char.isDigit = true then
    some (Nat.ofDigitChars 10 (cs.take w) 0, cs.drop w)
  else none

/-- the text after a separator -/
def readChar (c : Char) : List Char → Option (List Char)
  | [] => none
  | d :: cs => if d = c then some cs else none

theorem isDigit_digitChar : ∀ d : Fin 10, (Nat.digitChar d).isDigit = true := by decide

theorem isDigit_digits (w n : Nat) : ∀ c ∈ digits w n, c.isDigit = true := by
  induction w generalizing n with
  | zero => exact fun c hc => (nomatch hc)
  | succ w ih =>
    intro c hc
    rw [digits, List.mem_append, List.mem_singleton] at hc
    rcases hc with hc | rfl
    · exact ih (n / 10) c hc
    · exact isDigit_digitChar ⟨n % 10, Nat.mod_lt n (by omega)⟩

theorem ofDigitChars_digits (w n : Nat) (h : n < 10 ^ w) :
    Nat.ofDigitChars 10 (digits w n) 0 = n := by
  induction w generalizing n with
  | zero =>
    rw [pow_zero] at h
    show 0 = n
    omega
  | succ w ih =>
    rw [pow_succ] at h
    rw [digits, Nat.ofDigitChars_append, ih (n / 10) (by omega),
      Nat.ofDigitChars_cons_digitChar_of_lt_ten (Nat.mod_lt n (by omega)), Nat.ofDigitChars_nil]
    omega

/-- **a field is read back in front of anything** -/
theorem readDigits_digits {w n : Nat} (h : n < 10 ^ w) (cs : List Char) :
    readDigits w (digits w n ++ cs) = some (n, cs) := by
  have hl : (digits w n).length = w := length_digits w n
  have ht : (digits w n ++ cs).take w = digits w n := by
    rw [List.take_append_of_le_length (by omega), List.take_of_length_le (by omega)]
  have hd : (digits w n ++ cs).drop w = cs := by
    rw [List.drop_append_of_le_length (by omega), List.drop_of_length_le (by omega),
      List.nil_append]
  have hle : w ≤ (digits w n ++ cs).length := by
    rw [List.length_append]
    omega
  rw [readDigits, ht, hd, if_pos ⟨hle, List.all_eq_true.mpr (isDigit_digits w n)⟩,
    ofDigitChars_digits w n h]

@[simp] theorem readChar_cons (c : Char) (cs : List Char) : readChar c (c :: cs) = some cs :=
  if_pos rfl

/-! ## the instant -/

/-- four digits, or a sign and six; the year zero has no minus sign -/
def readYear (cs : List Char) : Option (Int × List Char) :=
  if cs.head? = some '+' then (readDigits 6 cs.tail).map fun r => ((r.1 : Int), r.2)
  else if cs.head? = some '-' then
    (readDigits 6 cs.tail).bind fun r => if r.1 = 0 then none else some (-(r.1 : Int), r.2)
  else (readDigits 4 cs).map fun r => ((r.1 : Int), r.2)

/-- the first day of a month and the days before it -/
def dayFromFields (year : Int) (month day : Nat) : Int :=
  dayFromYear year + (((monthLengths year).take (month - 1)).sum + (day - 1) : Nat)

/-- the instant with the fields of a text, if they are in range -/
def ofFields (year : Int) (month day hour minute second ms : Nat) : Option JsDate :=
  let time := 86400000 * dayFromFields year month day
    + (3600000 * hour + 60000 * minute + 1000 * second + ms : Nat)
  if h : (1 ≤ month ∧ month ≤ 12 ∧ 1 ≤ day ∧ day ≤ (monthLengths year).getD (month - 1) 0 ∧
      hour < 24 ∧ minute < 60 ∧ second < 60) ∧
      (-8640000000000000 ≤ time ∧ time ≤ 8640000000000000) then some ⟨time, h.2⟩
  else none

def parseISOChars (cs : List Char) : Option JsDate := do
  let (year, cs) ← readYear cs
  let (month, cs) ← readDigits 2 (← readChar '-' cs)
  let (day, cs) ← readDigits 2 (← readChar '-' cs)
  let (hour, cs) ← readDigits 2 (← readChar 'T' cs)
  let (minute, cs) ← readDigits 2 (← readChar ':' cs)
  let (second, cs) ← readDigits 2 (← readChar ':' cs)
  let (ms, cs) ← readDigits 3 (← readChar '.' cs)
  if cs = ['Z'] then ofFields year month day hour minute second ms else none

def parseISO (s : JsString) : Option JsDate := parseISOChars s.chars

theorem readYear_yearChars {y : Int} (h : -271822 ≤ y ∧ y ≤ 275761) (cs : List Char) :
    readYear (yearChars y ++ cs) = some (y, cs) := by
  unfold yearChars
  split
  next h4 =>
    have hne : ∀ c, c.isDigit = false → (digits 4 y.toNat ++ cs).head? ≠ some c := by
      intro c hc hh
      rw [List.head?_append_of_ne_nil _ (List.ne_nil_of_length_eq_add_one (length_digits 4 _))] at hh
      have hd := isDigit_digits 4 y.toNat c (List.mem_of_mem_head? hh)
      rw [hc] at hd
      cases hd
    rw [readYear, if_neg (hne '+' rfl), if_neg (hne '-' rfl), readDigits_digits (by omega),
      Option.map_some, Int.toNat_of_nonneg h4.1]
  next h4 =>
    by_cases hneg : y < 0
    · rw [if_pos hneg, List.cons_append, readYear, List.head?_cons, List.tail_cons,
        if_neg (by decide), if_pos rfl, readDigits_digits (by omega), Option.bind_some,
        if_neg (by omega), Option.some.injEq, Prod.mk.injEq]
      exact ⟨by omega, rfl⟩
    · rw [if_neg hneg, List.cons_append, readYear, List.head?_cons, List.tail_cons, if_pos rfl,
        readDigits_digits (by omega), Option.map_some, Option.some.injEq, Prod.mk.injEq]
      exact ⟨by omega, rfl⟩

theorem monthDay_le_getD (ls : List Nat) (n : Nat) (h : n < ls.sum) :
    (monthDay ls n).2 < ls.getD (monthDay ls n).1 0 := by
  induction ls generalizing n with
  | nil => simp at h
  | cons l ls ih =>
    rw [monthDay]
    split
    next hl => exact hl
    next hl =>
      rw [List.sum_cons] at h
      exact ih (n - l) (by omega)

/-- the fields of an instant are in range, and their instant is the same -/
theorem ofFields_self (d : JsDate) :
    ofFields d.year (d.month + 1) (d.dayOfMonth + 1) (d.timeOfDay / 3600000)
      (d.timeOfDay / 60000 % 60) (d.timeOfDay / 1000 % 60) (d.timeOfDay % 1000) = some d := by
  have hm := d.month_lt
  have htod := d.timeOfDay_lt
  have hsum : ((monthLengths d.year).take d.month).sum + d.dayOfMonth = d.dayOfYear :=
    monthDay_sum (monthLengths d.year) d.dayOfYear
  have hlen : d.dayOfMonth < (monthLengths d.year).getD d.month 0 :=
    monthDay_le_getD _ _ d.dayOfYear_lt
  have hdoy := dayOfYear_eq d
  have htime := time_eq d
  have hday : dayFromFields d.year (d.month + 1) (d.dayOfMonth + 1) = d.day := by
    rw [dayFromFields, Nat.add_sub_cancel, Nat.add_sub_cancel, hsum]
    omega
  have he : 86400000 * dayFromFields d.year (d.month + 1) (d.dayOfMonth + 1)
      + (3600000 * (d.timeOfDay / 3600000) + 60000 * (d.timeOfDay / 60000 % 60)
        + 1000 * (d.timeOfDay / 1000 % 60) + d.timeOfDay % 1000 : Nat) = d.time := by
    rw [hday]
    omega
  rw [ofFields]
  simp only [he, Nat.add_sub_cancel]
  rw [dif_pos ⟨⟨by omega, by omega, by omega, by omega, by omega, by omega, by omega⟩, d.valid⟩]

/-- **the text of an instant gives the instant back** -/
theorem parseISO_toISOString (d : JsDate) : parseISO d.toISOString = some d := by
  have hm := d.month_lt
  have hd := d.dayOfMonth_lt
  have ht := d.timeOfDay_lt
  have h1 : d.month + 1 < 10 ^ 2 := by omega
  have h2 : d.dayOfMonth + 1 < 10 ^ 2 := by omega
  have h3 : d.timeOfDay / 3600000 < 10 ^ 2 := by omega
  have h4 : d.timeOfDay / 60000 % 60 < 10 ^ 2 := by omega
  have h5 : d.timeOfDay / 1000 % 60 < 10 ^ 2 := by omega
  have h6 : d.timeOfDay % 1000 < 10 ^ 3 := by omega
  rw [parseISO, toISOString, JsString.chars_ofChars, isoChars, parseISOChars,
    readYear_yearChars d.year_range]
  simp only [Option.bind_eq_bind, Option.bind_some, readChar_cons, readDigits_digits h1,
    readDigits_digits h2, readDigits_digits h3, readDigits_digits h4, readDigits_digits h5,
    readDigits_digits h6, if_true]
  exact ofFields_self d

end JsDate
