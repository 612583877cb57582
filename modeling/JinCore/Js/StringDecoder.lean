import JinCore.Js.Text

/-!
# Decoding UTF-8 byte by byte

`utf8Decode` is the decoder of the Encoding standard: each maximal part of an ill-formed sequence
comes out as U+FFFD.  A `StringDecoder` of `node:string_decoder` hands it the bytes of a character
once they are complete, or once the next byte shows that they will not be.

* `StringDecoder.write`, `flush`   one byte in; what is left at the end;
* `writeAll_encodeChar`            a character comes out whole, after its last byte.
-/

/-- a character whose first bytes have been read; `needed` more follow the next one -/
structure Utf8Partial where
  codePoint : Nat
  needed : Nat
  lower : Nat
  upper : Nat

inductive Utf8Start where
  | char (c : Char)
  | more (p : Utf8Partial)

def utf8Start (b : Nat) : Utf8Start :=
  if b < 0x80 then .char (Char.ofNat b)
  else if b < 0xC2 then .char '\uFFFD'
  else if b < 0xE0 then .more ⟨b - 0xC0, 0, 0x80, 0xBF⟩
  else if b < 0xF0 then
    .more ⟨b - 0xE0, 1, if b = 0xE0 then 0xA0 else 0x80, if b = 0xED then 0x9F else 0xBF⟩
  else if b < 0xF5 then
    .more ⟨b - 0xF0, 2, if b = 0xF0 then 0x90 else 0x80, if b = 0xF4 then 0x8F else 0xBF⟩
  else .char '\uFFFD'

def utf8Decode : Option Utf8Partial → List UInt8 → List Char
  | none, [] => []
  | some _, [] => ['\uFFFD']
  | none, b :: bs =>
    match utf8Start b.toNat with
    | .char c => c :: utf8Decode none bs
    | .more p => utf8Decode (some p) bs
  | some p, b :: bs =>
    if p.lower ≤ b.toNat ∧ b.toNat ≤ p.upper then
      match p.needed with
      | 0 => Char.ofNat (p.codePoint * 64 + (b.toNat - 0x80)) :: utf8Decode none bs
      | n + 1 => utf8Decode (some ⟨p.codePoint * 64 + (b.toNat - 0x80), n, 0x80, 0xBF⟩) bs
    else
      -- the byte that does not fit is read again, as the first of a character
      '\uFFFD' :: match utf8Start b.toNat with
        | .char c => c :: utf8Decode none bs
        | .more p => utf8Decode (some p) bs

structure StringDecoder where
  buffer : List UInt8
  missing : Nat
  deriving DecidableEq, Repr

namespace StringDecoder

def fresh : StringDecoder := ⟨[], 0⟩

/-- the first byte of a character -/
def start (b : UInt8) : StringDecoder × List Char :=
  if 0xC0 ≤ b.toNat ∧ b.toNat < 0xE0 then (⟨[b], 1⟩, [])
  else if 0xE0 ≤ b.toNat ∧ b.toNat < 0xF0 then (⟨[b], 2⟩, [])
  else if 0xF0 ≤ b.toNat ∧ b.toNat < 0xF8 then (⟨[b], 3⟩, [])
  else (fresh, utf8Decode none [b])

/-- `write` of a single byte -/
def write (d : StringDecoder) (b : UInt8) : StringDecoder × List Char :=
  match d.missing with
  | 0 => start b
  | missing + 1 =>
    if 0x80 ≤ b.toNat ∧ b.toNat < 0xC0 then
      match missing with
      | 0 => (fresh, utf8Decode none (d.buffer ++ [b]))
      | n + 1 => (⟨d.buffer ++ [b], n + 1⟩, [])
    else ((start b).1, utf8Decode none d.buffer ++ (start b).2)

/-- `end`: what is left of an incomplete character -/
def flush (d : StringDecoder) : List Char := utf8Decode none d.buffer

def writeAll (d : StringDecoder) : List UInt8 → StringDecoder × List Char
  | [] => (d, [])
  | b :: bs => ((writeAll (d.write b).1 bs).1, (d.write b).2 ++ (writeAll (d.write b).1 bs).2)

@[simp] theorem flush_fresh : fresh.flush = [] := rfl

theorem toNat_ofNat8 {n : Nat} (h : n < 0x100) : (UInt8.ofNat n).toNat = n := by
  rw [UInt8.toNat_ofNat']
  exact Nat.mod_eq_of_lt h

theorem write_ascii {b : UInt8} (h : b.toNat < 0x80) :
    fresh.write b = (fresh, [Char.ofNat b.toNat]) := by
  show start b = _
  rw [start, if_neg (by omega), if_neg (by omega), if_neg (by omega), utf8Decode, utf8Start, if_pos h]
  rfl

theorem write_last {buffer : List UInt8} {b : UInt8} (h : 0x80 ≤ b.toNat ∧ b.toNat < 0xC0) :
    write ⟨buffer, 1⟩ b = (fresh, utf8Decode none (buffer ++ [b])) := by
  show (if _ then _ else _) = _
  rw [if_pos h]

theorem write_middle {buffer : List UInt8} {b : UInt8} {n : Nat}
    (h : 0x80 ≤ b.toNat ∧ b.toNat < 0xC0) :
    write ⟨buffer, n + 2⟩ b = (⟨buffer ++ [b], n + 1⟩, []) := by
  show (if _ then _ else _) = _
  rw [if_pos h]

theorem decode_next {p : Utf8Partial} {b : UInt8} {bs : List UInt8} {n : Nat}
    (h : p.lower ≤ b.toNat ∧ b.toNat ≤ p.upper) (hn : p.needed = n + 1) :
    utf8Decode (some p) (b :: bs)
      = utf8Decode (some ⟨p.codePoint * 64 + (b.toNat - 0x80), n, 0x80, 0xBF⟩) bs := by
  rw [utf8Decode, if_pos h, hn]

theorem decode_end {p : Utf8Partial} {b : UInt8} (h : p.lower ≤ b.toNat ∧ b.toNat ≤ p.upper)
    (hn : p.needed = 0) :
    utf8Decode (some p) [b] = [Char.ofNat (p.codePoint * 64 + (b.toNat - 0x80))] := by
  rw [utf8Decode, if_pos h, hn]
  rfl

theorem decode_more {a : UInt8} {p : Utf8Partial} (h : utf8Start a.toNat = .more p)
    (bs : List UInt8) : utf8Decode none (a :: bs) = utf8Decode (some p) bs := by
  rw [utf8Decode, h]

/-! ## a whole character -/

def Continues (b : UInt8) : Prop := 0x80 ≤ b.toNat ∧ b.toNat < 0xC0

theorem writeAll_two {a b : UInt8} (ha : 0xC2 ≤ a.toNat ∧ a.toNat < 0xE0) (hb : Continues b) :
    writeAll fresh [a, b]
      = (fresh, [Char.ofNat ((a.toNat - 0xC0) * 64 + (b.toNat - 0x80))]) := by
  have hstart : fresh.write a = (⟨[a], 1⟩, []) := by
    show start a = _
    rw [start, if_pos ⟨by omega, ha.2⟩]
  have hmore : utf8Start a.toNat = .more ⟨a.toNat - 0xC0, 0, 0x80, 0xBF⟩ := by
    rw [utf8Start, if_neg (by omega), if_neg (by omega), if_pos ha.2]
  have htext : utf8Decode none [a, b] = [Char.ofNat ((a.toNat - 0xC0) * 64 + (b.toNat - 0x80))] := by
    rw [decode_more hmore, decode_end ⟨hb.1, Nat.le_of_lt_succ hb.2⟩ rfl]
  simp only [writeAll, hstart, write_last hb, List.nil_append, List.append_nil, List.cons_append, htext]

theorem writeAll_three {a b c : UInt8} (ha : 0xE0 ≤ a.toNat ∧ a.toNat < 0xF0) (hb : Continues b)
    (hlow : a.toNat = 0xE0 → 0xA0 ≤ b.toNat) (hhigh : a.toNat = 0xED → b.toNat < 0xA0)
    (hc : Continues c) :
    writeAll fresh [a, b, c] = (fresh, [Char.ofNat
      (((a.toNat - 0xE0) * 64 + (b.toNat - 0x80)) * 64 + (c.toNat - 0x80))]) := by
  have hstart : fresh.write a = (⟨[a], 2⟩, []) := by
    show start a = _
    rw [start, if_neg (by omega), if_pos ha]
  have hmore : utf8Start a.toNat = .more ⟨a.toNat - 0xE0, 1,
      if a.toNat = 0xE0 then 0xA0 else 0x80, if a.toNat = 0xED then 0x9F else 0xBF⟩ := by
    rw [utf8Start, if_neg (by omega), if_neg (by omega), if_neg (by omega), if_pos ha.2]
  have hrange : (if a.toNat = 0xE0 then 0xA0 else 0x80) ≤ b.toNat ∧
      b.toNat ≤ (if a.toNat = 0xED then 0x9F else 0xBF) := by
    obtain ⟨hb₁, hb₂⟩ := hb
    constructor <;> split <;> omega
  have htext : utf8Decode none [a, b, c] = [Char.ofNat
      (((a.toNat - 0xE0) * 64 + (b.toNat - 0x80)) * 64 + (c.toNat - 0x80))] := by
    rw [decode_more hmore, decode_next hrange rfl, decode_end ⟨hc.1, Nat.le_of_lt_succ hc.2⟩ rfl]
  simp only [writeAll, hstart, write_middle hb, write_last hc, List.nil_append, List.append_nil,
    List.cons_append, htext]

theorem writeAll_four {a b c d : UInt8} (ha : 0xF0 ≤ a.toNat ∧ a.toNat < 0xF5) (hb : Continues b)
    (hlow : a.toNat = 0xF0 → 0x90 ≤ b.toNat) (hhigh : a.toNat = 0xF4 → b.toNat < 0x90)
    (hc : Continues c) (hd : Continues d) :
    writeAll fresh [a, b, c, d] = (fresh, [Char.ofNat
      ((((a.toNat - 0xF0) * 64 + (b.toNat - 0x80)) * 64 + (c.toNat - 0x80)) * 64
        + (d.toNat - 0x80))]) := by
  have hstart : fresh.write a = (⟨[a], 3⟩, []) := by
    show start a = _
    rw [start, if_neg (by omega), if_neg (by omega), if_pos ⟨ha.1, by omega⟩]
  have hmore : utf8Start a.toNat = .more ⟨a.toNat - 0xF0, 2,
      if a.toNat = 0xF0 then 0x90 else 0x80, if a.toNat = 0xF4 then 0x8F else 0xBF⟩ := by
    rw [utf8Start, if_neg (by omega), if_neg (by omega), if_neg (by omega), if_neg (by omega),
      if_pos ha.2]
  have hrange : (if a.toNat = 0xF0 then 0x90 else 0x80) ≤ b.toNat ∧
      b.toNat ≤ (if a.toNat = 0xF4 then 0x8F else 0xBF) := by
    obtain ⟨hb₁, hb₂⟩ := hb
    constructor <;> split <;> omega
  have hmiddle : 0x80 ≤ c.toNat ∧ c.toNat ≤ 0xBF := ⟨hc.1, Nat.le_of_lt_succ hc.2⟩
  have htext : utf8Decode none [a, b, c, d] = [Char.ofNat
      ((((a.toNat - 0xF0) * 64 + (b.toNat - 0x80)) * 64 + (c.toNat - 0x80)) * 64
        + (d.toNat - 0x80))] := by
    rw [decode_more hmore, decode_next hrange rfl, decode_next (p := ⟨_, 1, 0x80, 0xBF⟩) hmiddle rfl,
      decode_end ⟨hd.1, Nat.le_of_lt_succ hd.2⟩ rfl]
  simp only [writeAll, hstart, write_middle hb, write_middle hc, write_last hd, List.nil_append,
    List.append_nil, List.cons_append, htext]

theorem continues_ofNat (n : Nat) : Continues (UInt8.ofNat (n % 64 + 0x80)) := by
  have hn := toNat_ofNat8 (n := n % 64 + 0x80) (by omega)
  exact ⟨by omega, by omega⟩

/-- a character comes out whole, after its last byte, and leaves nothing behind -/
theorem writeAll_encodeChar (c : Char) :
    writeAll fresh (String.utf8EncodeChar c) = (fresh, [c]) := by
  have hrange := JsString.char_range c
  have hlast := toNat_ofNat8 (n := c.toNat % 64 + 0x80) (by omega)
  have hthird := toNat_ofNat8 (n := c.toNat / 64 % 64 + 0x80) (by omega)
  have hsecond := toNat_ofNat8 (n := c.toNat / 4096 % 64 + 0x80) (by omega)
  by_cases h₁ : c.toNat ≤ 0x7F
  · have hchar : String.utf8EncodeChar c = [UInt8.ofNat c.toNat] := if_pos h₁
    have hn := toNat_ofNat8 (n := c.toNat) (by omega)
    rw [hchar, writeAll, writeAll, write_ascii (by omega), hn, Char.ofNat_toNat]
    rfl
  · by_cases h₂ : c.toNat ≤ 0x7FF
    · have hchar : String.utf8EncodeChar c = [UInt8.ofNat (c.toNat / 64 % 0x20 + 0xC0),
          UInt8.ofNat (c.toNat % 64 + 0x80)] := (if_neg h₁).trans (if_pos h₂)
      have hn := toNat_ofNat8 (n := c.toNat / 64 % 0x20 + 0xC0) (by omega)
      rw [hchar, writeAll_two (by omega) (continues_ofNat _), hn, hlast]
      have e : (c.toNat / 64 % 0x20 + 0xC0 - 0xC0) * 64 + (c.toNat % 64 + 0x80 - 0x80) = c.toNat := by
        omega
      rw [e, Char.ofNat_toNat]
    · by_cases h₃ : c.toNat ≤ 0xFFFF
      · have hchar : String.utf8EncodeChar c = [UInt8.ofNat (c.toNat / 4096 % 0x10 + 0xE0),
            UInt8.ofNat (c.toNat / 64 % 64 + 0x80), UInt8.ofNat (c.toNat % 64 + 0x80)] :=
          (if_neg h₁).trans ((if_neg h₂).trans (if_pos h₃))
        have hn := toNat_ofNat8 (n := c.toNat / 4096 % 0x10 + 0xE0) (by omega)
        rw [hchar, writeAll_three (by omega) (continues_ofNat _) (by omega) (by omega)
          (continues_ofNat _), hn, hthird, hlast]
        have e : ((c.toNat / 4096 % 0x10 + 0xE0 - 0xE0) * 64 + (c.toNat / 64 % 64 + 0x80 - 0x80)) * 64
            + (c.toNat % 64 + 0x80 - 0x80) = c.toNat := by omega
        rw [e, Char.ofNat_toNat]
      · have hchar : String.utf8EncodeChar c = [UInt8.ofNat (c.toNat / 262144 % 0x08 + 0xF0),
            UInt8.ofNat (c.toNat / 4096 % 64 + 0x80), UInt8.ofNat (c.toNat / 64 % 64 + 0x80),
            UInt8.ofNat (c.toNat % 64 + 0x80)] :=
          (if_neg h₁).trans ((if_neg h₂).trans (if_neg h₃))
        have hn := toNat_ofNat8 (n := c.toNat / 262144 % 0x08 + 0xF0) (by omega)
        rw [hchar, writeAll_four (by omega) (continues_ofNat _) (by omega) (by omega)
          (continues_ofNat _) (continues_ofNat _), hn, hsecond, hthird, hlast]
        have e : (((c.toNat / 262144 % 0x08 + 0xF0 - 0xF0) * 64
            + (c.toNat / 4096 % 64 + 0x80 - 0x80)) * 64 + (c.toNat / 64 % 64 + 0x80 - 0x80)) * 64
            + (c.toNat % 64 + 0x80 - 0x80) = c.toNat := by omega
        rw [e, Char.ofNat_toNat]

end StringDecoder
