import JinCore.Js.Text

/-!
# `toLowerCase`

Every code point is replaced by the ones that the Unicode data map it to; for a sigma they depend on
what is around it.  The data are a parameter.

* `CaseMapping`, `toLowerCase`;
* `isBlank_toLowerCase`         white space stays, and nothing becomes white space;
* `toLowerCase_map`             an ASCII text, unit by unit;
* `toLowerCase_ascii`           one without capital letters is left alone.
-/

namespace JsString

/-! ## code points -/

def codePoints : List UInt16 → List Nat
  | [] => []
  | [u] => [u.toNat]
  | u :: v :: us =>
    if isLead u && isTrail v then
      (0x10000 + (u.toNat - 0xD800) * 0x400 + (v.toNat - 0xDC00)) :: codePoints us
    else u.toNat :: codePoints (v :: us)

def ofCodePoint (p : Nat) : List UInt16 :=
  if p < 0x10000 then [UInt16.ofNat p]
  else [UInt16.ofNat (0xD800 + (p - 0x10000) / 0x400), UInt16.ofNat (0xDC00 + (p - 0x10000) % 0x400)]

def isSpacePoint (p : Nat) : Bool := decide (p < 0x10000) && isSpace (UInt16.ofNat p)

theorem isSpacePoint_unit (u : UInt16) : isSpacePoint u.toNat = isSpace u := by
  have hlt : u.toNat < 0x10000 := u.toNat_lt
  rw [isSpacePoint, decide_eq_true hlt, Bool.true_and, UInt16.ofNat_toNat]

/-- a surrogate is no white space -/
theorem isSpace_surrogate {u : UInt16} (h : 0xD800 ≤ u.toNat ∧ u.toNat < 0xE000) :
    isSpace u = false := by
  refine decide_eq_false fun hspace => ?_
  simp only [UInt16.le_iff_toNat_le, ← UInt16.toNat_inj] at hspace
  have hliteral : (0x0D : UInt16).toNat = 0x0D ∧ (0x20 : UInt16).toNat = 0x20 ∧
      (0xA0 : UInt16).toNat = 0xA0 ∧ (0x1680 : UInt16).toNat = 0x1680 ∧
      (0x200A : UInt16).toNat = 0x200A ∧ (0x2028 : UInt16).toNat = 0x2028 ∧
      (0x2029 : UInt16).toNat = 0x2029 ∧ (0x202F : UInt16).toNat = 0x202F ∧
      (0x205F : UInt16).toNat = 0x205F ∧ (0x3000 : UInt16).toNat = 0x3000 ∧
      (0xFEFF : UInt16).toNat = 0xFEFF := by decide
  omega

theorem all_codePoints (us : List UInt16) : (codePoints us).all isSpacePoint = us.all isSpace := by
  induction us using codePoints.induct with
  | case1 => rfl
  | case2 u => simp [codePoints, isSpacePoint_unit]
  | case3 u v us hpair ih =>
    obtain ⟨hu, -⟩ := (Bool.and_eq_true _ _).mp hpair
    rw [isLead_iff] at hu
    have hpoint : isSpacePoint (0x10000 + (u.toNat - 0xD800) * 0x400 + (v.toNat - 0xDC00)) = false := by
      rw [isSpacePoint, decide_eq_false (by omega), Bool.false_and]
    rw [codePoints, if_pos hpair, List.all_cons, hpoint, List.all_cons,
      isSpace_surrogate (u := u) (by omega), Bool.false_and, Bool.false_and]
  | case4 u v us hpair ih =>
    rw [codePoints, if_neg hpair, List.all_cons, ih, isSpacePoint_unit]
    rfl

theorem all_ofCodePoint {p : Nat} (h : p < 0x110000) : (ofCodePoint p).all isSpace = isSpacePoint p := by
  rw [ofCodePoint, isSpacePoint]
  split
  · next hlt => simp [hlt]
  · next hge =>
    have hlead : (UInt16.ofNat (0xD800 + (p - 0x10000) / 0x400)).toNat
        = 0xD800 + (p - 0x10000) / 0x400 := toNat_ofNat16 (by omega)
    rw [List.all_cons, isSpace_surrogate (by omega), Bool.false_and, decide_eq_false hge,
      Bool.false_and]

/-! ## the mapping -/

/-- the code points for one of them, by those before it, read backwards, and those after it -/
structure CaseMapping where
  lower : List Nat → Nat → List Nat → List Nat
  ascii : ∀ before p after, p < 0x80 →
    lower before p after = [if 0x41 ≤ p ∧ p ≤ 0x5A then p + 0x20 else p]
  space : ∀ before p after, isSpacePoint p = true → lower before p after = [p]
  text : ∀ before p after, isSpacePoint p = false →
    lower before p after ≠ [] ∧ ∀ q ∈ lower before p after, isSpacePoint q = false
  valid : ∀ before p after, p < 0x110000 → ∀ q ∈ lower before p after, q < 0x110000

section
variable (casing : CaseMapping)

def lowerFrom : List Nat → List Nat → List Nat
  | _, [] => []
  | before, p :: after => casing.lower before p after ++ lowerFrom (p :: before) after

def toLowerCase (s : JsString) : JsString :=
  ⟨(lowerFrom casing [] (codePoints s.units)).flatMap ofCodePoint⟩

theorem all_lowerFrom (before ps : List Nat) :
    (lowerFrom casing before ps).all isSpacePoint = ps.all isSpacePoint := by
  induction ps generalizing before with
  | nil => rfl
  | cons p ps ih =>
    rw [lowerFrom, List.all_append, ih, List.all_cons]
    cases hp : isSpacePoint p with
    | true => rw [casing.space before p ps hp, List.all_cons, hp, List.all_nil, Bool.and_true]
    | false =>
      obtain ⟨hne, hall⟩ := casing.text before p ps hp
      obtain ⟨q, qs, hcons⟩ := List.exists_cons_of_ne_nil hne
      rw [hcons, List.all_cons, hall q (by rw [hcons]; exact List.mem_cons_self), Bool.false_and]

theorem codePoints_lt (us : List UInt16) : ∀ p ∈ codePoints us, p < 0x110000 := by
  have hunit (u : UInt16) : u.toNat < 0x110000 := by
    have hlt := u.toNat_lt
    omega
  induction us using codePoints.induct with
  | case1 =>
    intro p h
    cases h
  | case2 u =>
    intro p h
    rw [List.mem_singleton.mp h]
    exact hunit u
  | case3 u v us hpair ih =>
    obtain ⟨hu, hv⟩ := (Bool.and_eq_true _ _).mp hpair
    rw [isLead_iff] at hu
    rw [isTrail_iff] at hv
    intro p h
    rw [codePoints, if_pos hpair] at h
    rcases List.mem_cons.mp h with heq | h
    · omega
    · exact ih p h
  | case4 u v us hpair ih =>
    intro p h
    rw [codePoints, if_neg hpair] at h
    rcases List.mem_cons.mp h with rfl | h
    · exact hunit u
    · exact ih p h

theorem lowerFrom_lt (before : List Nat) {ps : List Nat} (h : ∀ p ∈ ps, p < 0x110000) :
    ∀ q ∈ lowerFrom casing before ps, q < 0x110000 := by
  induction ps generalizing before with
  | nil =>
    intro q hq
    cases hq
  | cons p ps ih =>
    intro q hq
    rcases List.mem_append.mp hq with hq | hq
    · exact casing.valid before p ps (h p List.mem_cons_self) q hq
    · exact ih _ (fun p' hp' => h p' (List.mem_cons_of_mem _ hp')) q hq

/-- **white space stays, and nothing becomes white space** -/
theorem isBlank_toLowerCase (s : JsString) : (toLowerCase casing s).isBlank = s.isBlank := by
  have hpoints {ps : List Nat} (h : ∀ p ∈ ps, p < 0x110000) :
      (ps.flatMap ofCodePoint).all isSpace = ps.all isSpacePoint := by
    induction ps with
    | nil => rfl
    | cons p ps ih =>
      rw [List.flatMap_cons, List.all_append, all_ofCodePoint (h p List.mem_cons_self),
        ih fun p' hp' => h p' (List.mem_cons_of_mem _ hp'), List.all_cons]
  rw [isBlank, toLowerCase, hpoints (lowerFrom_lt casing [] (codePoints_lt s.units)), all_lowerFrom,
    all_codePoints, isBlank]

/-- an ASCII letter in lower case -/
def lowerUnit (u : UInt16) : UInt16 := if 0x41 ≤ u.toNat ∧ u.toNat ≤ 0x5A then u + 0x20 else u

theorem codePoints_ascii {us : List UInt16} (h : ∀ u ∈ us, u.toNat < 0x80) :
    codePoints us = us.map UInt16.toNat := by
  induction us using codePoints.induct with
  | case1 => rfl
  | case2 u => rfl
  | case3 u v us hpair _ =>
    obtain ⟨hu, -⟩ := (Bool.and_eq_true _ _).mp hpair
    rw [isLead_iff] at hu
    have hlow := h u List.mem_cons_self
    omega
  | case4 u v us hpair ih =>
    rw [codePoints, if_neg hpair, ih fun w hw => h w (List.mem_cons_of_mem _ hw)]
    rfl

theorem toLowerCase_map {s : JsString} (h : ∀ u ∈ s.units, u.toNat < 0x80) :
    (toLowerCase casing s).units = s.units.map lowerUnit := by
  have hlower : ∀ (us : List UInt16) (before : List Nat), (∀ u ∈ us, u.toNat < 0x80) →
      (lowerFrom casing before (us.map UInt16.toNat)).flatMap ofCodePoint = us.map lowerUnit := by
    intro us
    induction us with
    | nil => exact fun _ _ => rfl
    | cons u us ih =>
      intro before hus
      have hlt := hus u List.mem_cons_self
      have hunit : ofCodePoint (if 0x41 ≤ u.toNat ∧ u.toNat ≤ 0x5A then u.toNat + 0x20 else u.toNat)
          = [lowerUnit u] := by
        rw [lowerUnit]
        split
        · rw [ofCodePoint, if_pos (by omega), UInt16.ofNat_add, UInt16.ofNat_toNat]
          rfl
        · rw [ofCodePoint, if_pos (by omega), UInt16.ofNat_toNat]
      rw [List.map_cons, lowerFrom, casing.ascii _ _ _ hlt, List.flatMap_append,
        ih _ fun v hv => hus v (List.mem_cons_of_mem _ hv), List.flatMap_singleton, hunit]
      rfl
  show (lowerFrom casing [] (codePoints s.units)).flatMap ofCodePoint = _
  rw [codePoints_ascii h]
  exact hlower _ _ h

/-- an ASCII text without capital letters -/
def isLowerAscii (u : UInt16) : Bool := decide (u.toNat < 0x80 ∧ ¬(0x41 ≤ u.toNat ∧ u.toNat ≤ 0x5A))

theorem isLowerAscii_lowerUnit {u : UInt16} (h : u.toNat < 0x80) : isLowerAscii (lowerUnit u) = true := by
  unfold lowerUnit
  split
  next hcapital =>
    have hadd : (u + 0x20).toNat = u.toNat + 0x20 := by
      rw [UInt16.toNat_add]
      exact Nat.mod_eq_of_lt (by simp; omega)
    refine decide_eq_true ?_
    rw [hadd]
    omega
  next hnot => exact decide_eq_true ⟨h, hnot⟩

theorem toLowerCase_ascii {s : JsString} (h : s.units.all isLowerAscii = true) :
    toLowerCase casing s = s := by
  have hunits (u : UInt16) (hu : u ∈ s.units) := of_decide_eq_true (List.all_eq_true.mp h u hu)
  refine ext_units ?_
  rw [toLowerCase_map casing fun u hu => (hunits u hu).1, List.map_congr_left (g := id) ?_, List.map_id]
  intro u hu
  exact if_neg (hunits u hu).2

end

/-- the mapping of the ASCII letters -/
def asciiLower (p : Nat) : Nat := if 0x41 ≤ p ∧ p ≤ 0x5A then p + 0x20 else p

theorem isSpacePoint_asciiLower (p : Nat) : isSpacePoint (asciiLower p) = isSpacePoint p := by
  have hcapital : ∀ p < 0x5B, 0x41 ≤ p →
      isSpacePoint (p + 0x20) = false ∧ isSpacePoint p = false := by decide
  rw [asciiLower]
  split
  · next hp =>
    obtain ⟨hlower, hupper⟩ := hcapital p (by omega) hp.1
    rw [hlower, hupper]
  · rfl

/-- it leaves alone what is not ASCII -/
def asciiCasing : CaseMapping where
  lower _ p _ := [asciiLower p]
  ascii _ _ _ _ := rfl
  space _ p _ h := by
    rw [asciiLower, if_neg]
    intro hp
    have hcapital : ∀ p < 0x5B, 0x41 ≤ p → isSpacePoint p = false := by decide
    rw [hcapital p (by omega) hp.1] at h
    cases h
  text _ p _ h := by
    refine ⟨List.cons_ne_nil _ _, fun q hq => ?_⟩
    rw [List.mem_singleton.mp hq, isSpacePoint_asciiLower, h]
  valid _ p _ h q hq := by
    rw [List.mem_singleton.mp hq, asciiLower]
    split <;> omega

end JsString
