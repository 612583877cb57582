import JinCore.Js.Text

/-!
# Base64

`Buffer.from(text, 'base64')` and `toString('base64')`.  A reader takes the two alphabets together, and
skips whatever stands in neither.

* `sextets`, `unsextets`       bytes as numbers below 64, and back;
* `encode`, `decode`           as text;
* `decode_encode`              what was encoded is read back;
* `encodeUrl`, `decode_encodeUrl`   the alphabet of links, without padding.
-/

namespace Base64
open JsString

/-- three bytes make four numbers; the last one or two make two or three -/
def sextets : List UInt8 → List Nat
  | [] => []
  | [a] => [a.toNat / 4, a.toNat % 4 * 16]
  | [a, b] => [a.toNat / 4, a.toNat % 4 * 16 + b.toNat / 16, b.toNat % 16 * 4]
  | a :: b :: c :: bytes => a.toNat / 4 :: (a.toNat % 4 * 16 + b.toNat / 16) ::
      (b.toNat % 16 * 4 + c.toNat / 64) :: c.toNat % 64 :: sextets bytes

def unsextets : List Nat → List UInt8
  | a :: b :: c :: d :: numbers => UInt8.ofNat (a * 4 + b / 16) :: UInt8.ofNat (b % 16 * 16 + c / 4) ::
      UInt8.ofNat (c % 4 * 64 + d) :: unsextets numbers
  | [a, b, c] => [UInt8.ofNat (a * 4 + b / 16), UInt8.ofNat (b % 16 * 16 + c / 4)]
  | [a, b] => [UInt8.ofNat (a * 4 + b / 16)]
  | [_] | [] => []

def alphabet : List UInt16 :=
  (lit "ABCDEFGHIJKLMNOPQRSTUVWXYZabcdefghijklmnopqrstuvwxyz0123456789+/").units

def digit (n : Nat) : UInt16 := alphabet.getD n 0

/-- the number of a digit, `-` and `_` for the last two as well -/
def value (u : UInt16) : Option Nat :=
  if u = 0x2D then some 62
  else if u = 0x5F then some 63
  else
    let n := alphabet.idxOf u
    if n < 64 then some n else none

/-- `=` up to a multiple of four -/
def padding (length : Nat) : List UInt16 := List.replicate ((4 - length % 4) % 4) 0x3D

def encode (bytes : List UInt8) : JsString :=
  ⟨(sextets bytes).map digit ++ padding (sextets bytes).length⟩

def decode (text : JsString) : List UInt8 := unsextets (text.units.filterMap value)

theorem value_digit {n : Nat} (h : n < 64) : value (digit n) = some n := by
  have hall : ∀ n < 64, value (digit n) = some n := by decide +kernel
  exact hall n h

theorem value_padding (n : Nat) : (padding n).filterMap value = [] := by
  refine List.filterMap_eq_nil_iff.mpr fun u hu => ?_
  rw [List.eq_of_mem_replicate hu]
  decide

theorem sextets_lt (bytes : List UInt8) : ∀ n ∈ sextets bytes, n < 64 := by
  induction bytes using sextets.induct with
  | case1 => exact fun n hn => absurd hn List.not_mem_nil
  | case2 a =>
    have ha := a.toNat_lt
    intro n hn
    simp only [sextets, List.mem_cons, List.not_mem_nil, or_false] at hn
    omega
  | case3 a b =>
    have ha := a.toNat_lt
    have hb := b.toNat_lt
    intro n hn
    simp only [sextets, List.mem_cons, List.not_mem_nil, or_false] at hn
    omega
  | case4 a b c bytes ih =>
    have ha := a.toNat_lt
    have hb := b.toNat_lt
    have hc := c.toNat_lt
    simp only [sextets, List.mem_cons]
    rintro n (rfl | rfl | rfl | rfl | hn)
    · omega
    · omega
    · omega
    · omega
    · exact ih n hn

theorem ofNat_of_eq {n : Nat} {b : UInt8} (h : n = b.toNat) : UInt8.ofNat n = b := by
  rw [h, UInt8.ofNat_toNat]

theorem unsextets_sextets (bytes : List UInt8) : unsextets (sextets bytes) = bytes := by
  induction bytes using sextets.induct with
  | case1 => rfl
  | case2 a =>
    rw [sextets, unsextets, ofNat_of_eq (b := a) (by omega)]
  | case3 a b =>
    have hb := b.toNat_lt
    rw [sextets, unsextets, ofNat_of_eq (b := a) (by omega), ofNat_of_eq (b := b) (by omega)]
  | case4 a b c bytes ih =>
    have hb := b.toNat_lt
    have hc := c.toNat_lt
    rw [sextets, unsextets, ih, ofNat_of_eq (b := a) (by omega), ofNat_of_eq (b := b) (by omega),
      ofNat_of_eq (b := c) (by omega)]

/-- what was encoded is read back -/
theorem decode_encode (bytes : List UInt8) : decode (encode bytes) = bytes := by
  have hdigits : ((sextets bytes).map digit).filterMap value = sextets bytes := by
    rw [List.filterMap_map]
    refine (List.filterMap_congr fun n hn => ?_).trans List.filterMap_some
    exact value_digit (sextets_lt bytes n hn)
  rw [decode, encode, List.filterMap_append, hdigits, value_padding, List.append_nil,
    unsextets_sextets]

/-! ## the alphabet of links -/

def urlDigit (n : Nat) : UInt16 := if n = 62 then 0x2D else if n = 63 then 0x5F else digit n

/-- `toString('base64url')`: no padding -/
def encodeUrl (bytes : List UInt8) : JsString := ⟨(sextets bytes).map urlDigit⟩

theorem value_urlDigit {n : Nat} (h : n < 64) : value (urlDigit n) = some n := by
  have hall : ∀ n < 64, value (urlDigit n) = some n := by decide +kernel
  exact hall n h

theorem decode_encodeUrl (bytes : List UInt8) : decode (encodeUrl bytes) = bytes := by
  have hdigits : ((sextets bytes).map urlDigit).filterMap value = sextets bytes := by
    rw [List.filterMap_map]
    refine (List.filterMap_congr fun n hn => ?_).trans List.filterMap_some
    exact value_urlDigit (sextets_lt bytes n hn)
  rw [decode, encodeUrl, hdigits, unsextets_sextets]

/-- a mark that is no digit stands in no encoded text -/
theorem notMem_encodeUrl {mark : UInt16} (h : value mark = none) (bytes : List UInt8) :
    mark ∉ (encodeUrl bytes).units := by
  intro hmem
  obtain ⟨n, hn, hdigit⟩ := List.mem_map.mp hmem
  rw [← hdigit, value_urlDigit (sextets_lt bytes n hn)] at h
  cases h

end Base64
