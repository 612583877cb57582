import JinCore.Js.Text

/-!
# The UTF-8 bytes of a string

* `decode_append`, `utf8_append`   the second part does not begin in the middle of a character;
* `notMem_utf8`                    an ASCII character that is not in a string is not in its bytes.
-/

namespace JsString

/-! ## two parts -/

theorem decode_append {us vs : List UInt16} (h : ∀ v ∈ vs.head?, isTrail v = false) :
    decode (us ++ vs) = decode us ++ decode vs := by
  induction us using decode.induct with
  | case1 => rfl
  | case2 u =>
    cases vs with
    | nil => rfl
    | cons v vs =>
      have hv : isTrail v = false := h v rfl
      show (if isLead u && isTrail v then _ else _) = _
      rw [hv, Bool.and_false]
      rfl
  | case3 u v us hpair ih =>
    obtain ⟨hu, hv⟩ := (Bool.and_eq_true _ _).mp hpair
    rw [List.cons_append, List.cons_append, decode_pair hu hv, decode_pair hu hv, ih]
    rfl
  | case4 u v us hpair ih =>
    show (if isLead u && isTrail v then _ else loneChar u :: decode (v :: us ++ vs))
      = (if isLead u && isTrail v then _ else loneChar u :: decode (v :: us)) ++ _
    rw [if_neg hpair, if_neg hpair, ih]
    rfl

theorem utf8_append {s t : JsString} (h : ∀ v ∈ t.units.head?, isTrail v = false) :
    (s ++ t).utf8 = s.utf8 ++ t.utf8 := by
  show utf8Chars (decode (s.units ++ t.units)) = _
  rw [decode_append h, utf8Chars_append]
  rfl

theorem utf8_ne_nil {s : JsString} (h : s.units ≠ []) : s.utf8 ≠ [] := by
  have hchars : s.chars ≠ [] := by
    show decode s.units ≠ []
    cases hunits : s.units with
    | nil => exact absurd hunits h
    | cons u us =>
      cases us with
      | nil => exact List.cons_ne_nil _ _
      | cons v us =>
        rw [decode]
        split
        · exact List.cons_ne_nil _ _
        · exact List.cons_ne_nil _ _
  obtain ⟨c, cs, hcs⟩ := List.exists_cons_of_ne_nil hchars
  have hpos := c.utf8Size_pos
  intro hnil
  have hlength := congrArg List.length hnil
  rw [utf8, hcs, utf8Chars, List.flatMap_cons, List.length_append, String.length_utf8EncodeChar,
    List.length_nil] at hlength
  omega

/-! ## ASCII characters -/

theorem ascii_of_mem_decode {us : List UInt16} {c : Char} (hc : c.toNat < 0x80)
    (h : c ∈ decode us) : UInt16.ofNat c.toNat ∈ us := by
  have hlone {u : UInt16} (heq : c = loneChar u) : UInt16.ofNat c.toNat = u := by
    rw [loneChar] at heq
    split at heq
    · rw [heq] at hc
      exact absurd hc (by decide)
    · next hu =>
      have hlt : u.toNat < 0x10000 := u.toNat_lt
      rw [isSurrogate_iff] at hu
      rw [heq, toNat_ofNat_of_valid (by omega), UInt16.ofNat_toNat]
  induction us using decode.induct with
  | case1 => cases h
  | case2 u =>
    rw [hlone (List.mem_singleton.mp h)]
    exact List.mem_singleton_self u
  | case3 u v us hpair ih =>
    obtain ⟨hu, hv⟩ := (Bool.and_eq_true _ _).mp hpair
    rw [decode_pair hu hv] at h
    rcases List.mem_cons.mp h with heq | h
    · -- a pair stands for a character beyond ASCII
      rw [isLead_iff] at hu
      rw [isTrail_iff] at hv
      rw [heq, pairChar, toNat_ofNat_of_valid (by omega)] at hc
      omega
    · exact List.mem_cons_of_mem _ (List.mem_cons_of_mem _ (ih h))
  | case4 u v us hpair ih =>
    rw [decode, if_neg hpair] at h
    rcases List.mem_cons.mp h with heq | h
    · rw [hlone heq]
      exact List.mem_cons_self
    · exact List.mem_cons_of_mem _ (ih h)

theorem ascii_of_mem_encodeChar {c : Char} {b : UInt8} (hb : b.toNat < 0x80)
    (h : b ∈ String.utf8EncodeChar c) : c.toNat = b.toNat := by
  have hbyte {n : Nat} (hn : n < 0x100) : (UInt8.ofNat n).toNat = n := by
    rw [UInt8.toNat_ofNat']
    omega
  have hrange := char_range c
  rw [String.utf8EncodeChar] at h
  split at h
  · next hascii =>
    rw [List.mem_singleton.mp h, hbyte (Nat.lt_of_le_of_lt hascii (by decide))]
    rfl
  · -- every byte of a longer encoding has its high bit
    exfalso
    split at h
    · simp only [List.mem_cons, List.not_mem_nil, or_false] at h
      rcases h with rfl | rfl <;> rw [hbyte (by omega)] at hb <;> omega
    · split at h
      · simp only [List.mem_cons, List.not_mem_nil, or_false] at h
        rcases h with rfl | rfl | rfl <;> rw [hbyte (by omega)] at hb <;> omega
      · simp only [List.mem_cons, List.not_mem_nil, or_false] at h
        rcases h with rfl | rfl | rfl | rfl <;> rw [hbyte (by omega)] at hb <;> omega

/-- **an ASCII character that is not in a string is not in its bytes** -/
theorem notMem_utf8 {s : JsString} {b : UInt8} (hb : b.toNat < 0x80)
    (h : UInt16.ofNat b.toNat ∉ s.units) : b ∉ s.utf8 := by
  intro hmem
  obtain ⟨c, hc, hbyte⟩ := List.mem_flatMap.mp hmem
  have heq := ascii_of_mem_encodeChar hb hbyte
  refine h ?_
  rw [← heq]
  exact ascii_of_mem_decode (by omega) hc

end JsString
