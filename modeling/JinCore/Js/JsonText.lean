import JinCore.Js.JsonValue

/-!
# JSON texts are read back

* `Value.shown`   a value with `null` in the place of what is no double; `shown_eq_iff`;
* `Reads`         a value is read from its text, whatever follows it; `reads`;
* `parse_text`    `JSON.parse` of the text of a value;
* `isWellFormed_text`, `count_text`   the units of a text.
-/

namespace Json
open JsString

/-! ## values are read back -/

mutual

/-- the value that is read back -/
def Value.shown : Value → Value
  | .number (.finite q) => .number (.finite q)
  | .number _ => .null
  | .array items => .array (shownItems items)
  | .object members => .object (shownMembers members)
  | v => v
termination_by structural v => v

def shownItems : List Value → List Value
  | [] => []
  | v :: vs => v.shown :: shownItems vs
termination_by structural vs => vs

def shownMembers : List (JsString × Value) → List (JsString × Value)
  | [] => []
  | (key, v) :: members => (key, v.shown) :: shownMembers members
termination_by structural members => members

end

/-- what follows a value is no part of a word -/
def Ends (rest : List UInt16) : Prop := ∀ u ∈ rest.head?, isWordUnit u = false

/-- the value is read from its text -/
def Reads (v : Value) : Prop := ∀ fuel rest, v.text.length < fuel → Ends rest →
  parseValue fuel (v.text ++ rest) = some (v.shown, rest)

theorem ends_cons {u : UInt16} (h : isWordUnit u = false) (rest : List UInt16) : Ends (u :: rest) := by
  intro u' hu'
  rw [← Option.some.inj hu']
  exact h

theorem skip_self {mark : UInt16} (h : isJsonSpace mark = false) (us : List UInt16) :
    skip mark (mark :: us) = some us := by
  simp [skip, h]

theorem skip_ne {mark u : UInt16} (h : isJsonSpace u = false) (hne : u ≠ mark) (us : List UInt16) :
    skip mark (u :: us) = none := by
  simp [skip, h, hne]

theorem isJsonSpace_word {u : UInt16} (h : isWordUnit u = true) : isJsonSpace u = false := by
  have hnot (v : UInt16) (hv : isWordUnit v = false) : (u == v) = false := by
    refine beq_false_of_ne fun heq => ?_
    rw [heq, hv] at h
    cases h
  rw [isJsonSpace, hnot _ (by decide), hnot _ (by decide), hnot _ (by decide), hnot _ (by decide)]
  rfl

section
variable {word rest : List UInt16} (hword : word.all isWordUnit = true) (hrest : Ends rest)
include hword hrest

theorem parseAtom_word : parseAtom (word ++ rest) =
    if (⟨word⟩ : JsString) = lit "null" then some (.null, rest)
    else if (⟨word⟩ : JsString) = lit "true" then some (.bool true, rest)
    else if (⟨word⟩ : JsString) = lit "false" then some (.bool false, rest)
    else (jsonNumber (chars ⟨word⟩)).map fun n => (.number n, rest) := by
  have hall : ∀ u ∈ word, isWordUnit u = true := List.all_eq_true.mp hword
  have hstop : rest.takeWhile isWordUnit = [] ∧ rest.dropWhile isWordUnit = rest := by
    cases rest with
    | nil => exact ⟨rfl, rfl⟩
    | cons u us =>
      have hu : isWordUnit u = false := hrest u rfl
      simp [hu]
  simp only [parseAtom, List.takeWhile_append_of_pos hall, List.dropWhile_append_of_pos hall, hstop.1,
    hstop.2, List.append_nil]

/-- a literal or a number is not a string, a list or an object -/
theorem parseValue_word (hne : word ≠ []) (fuel : Nat) :
    parseValue (fuel + 1) (word ++ rest) = parseAtom (word ++ rest) := by
  obtain ⟨u, us, rfl⟩ := List.exists_cons_of_ne_nil hne
  have hu : isWordUnit u = true := List.all_eq_true.mp hword u List.mem_cons_self
  have hnot (v : UInt16) (hv : isWordUnit v = false) : u ≠ v := by
    intro heq
    rw [heq, hv] at hu
    cases hu
  rw [parseValue, List.cons_append,
    List.dropWhile_cons_of_neg (by rw [isJsonSpace_word hu]; exact Bool.false_ne_true)]
  simp only [if_neg (hnot 0x22 (by decide)), if_neg (hnot 0x5B (by decide)), if_neg (hnot 0x7B (by decide))]

end

theorem isWordUnit_number {cs : List Char} (h : cs.all isNumberChar = true) :
    (ofChars cs).units.all isWordUnit = true := by
  refine List.all_eq_true.mpr fun u hu => ?_
  obtain ⟨c, hc, hu⟩ := List.mem_flatMap.mp hu
  have hchar : isNumberChar c = true := List.all_eq_true.mp h c hc
  have hcode : 48 ≤ c.toNat ∧ c.toNat ≤ 57 ∨ c = '-' ∨ c = '+' ∨ c = '.' ∨ c = 'e' ∨ c = 'E' := by
    simp only [isNumberChar, Bool.or_eq_true, beq_iff_eq, Char.isDigit_iff_toNat] at hchar
    tauto
  rcases hcode with hdigit | rfl | rfl | rfl | rfl | rfl
  · rw [encode, if_pos (by omega), List.mem_singleton] at hu
    rw [hu, isWordUnit]
    have hnat : (UInt16.ofNat c.toNat).toNat = c.toNat := toNat_ofNat16 (by omega)
    simp only [hnat, hdigit, and_self, true_or, decide_true, Bool.true_or]
  all_goals
    rw [List.mem_singleton.mp hu]
    decide

theorem numberUnits_ne_nil (q : ℚ) : (ofChars (numberText q)).units ≠ [] := by
  intro hnil
  have hchars := congrArg chars (show ofChars (numberText q) = lit "" from ext_units hnil)
  rw [chars_ofChars] at hchars
  exact numberText_ne_nil q hchars

/-- a double is read back -/
theorem reads_number {q : ℚ} (h : IsDouble q) : Reads (.number (.finite q)) := by
  intro fuel rest hfuel hrest
  obtain ⟨n, rfl⟩ : ∃ n, fuel = n + 1 := ⟨fuel - 1, by omega⟩
  have hread := jsonNumber_numberText h
  have hword := isWordUnit_number (isNumberChar_numberText q)
  have hchars : (ofChars (numberText q)).chars = numberText q := chars_ofChars _
  -- the texts of the literals are no numbers
  have hnot {word : String} (hnone : jsonNumber word.toList = none) : ofChars (numberText q) ≠ lit word := by
    intro heq
    have hcs := congrArg chars heq
    rw [hchars, lit, chars_ofChars] at hcs
    rw [hcs, hnone] at hread
    cases hread
  show parseValue (n + 1) ((ofChars (numberText q)).units ++ rest) = _
  rw [parseValue_word hword hrest (numberUnits_ne_nil q), parseAtom_word hword hrest]
  show (if ofChars (numberText q) = lit "null" then _ else if ofChars (numberText q) = lit "true" then _
    else if ofChars (numberText q) = lit "false" then _
    else (jsonNumber (ofChars (numberText q)).chars).map _) = _
  rw [if_neg (hnot rfl), if_neg (hnot rfl), if_neg (hnot rfl), hchars, hread]
  rfl

/-- no text begins with white space or a closing bracket -/
theorem text_cons (v : Value) : ∃ u us, v.text = u :: us ∧ isJsonSpace u = false ∧ u ≠ 0x5D := by
  cases v with
  | null => exact ⟨_, _, rfl, by decide, by decide⟩
  | bool b =>
    cases b with
    | false => exact ⟨_, _, rfl, by decide, by decide⟩
    | true => exact ⟨_, _, rfl, by decide, by decide⟩
  | number n =>
    cases n with
    | nan => exact ⟨_, _, rfl, by decide, by decide⟩
    | infinity negative => exact ⟨_, _, rfl, by decide, by decide⟩
    | finite q =>
      have hword := isWordUnit_number (isNumberChar_numberText q)
      obtain ⟨u, us, hcons⟩ := List.exists_cons_of_ne_nil (numberUnits_ne_nil q)
      have hu : isWordUnit u = true := List.all_eq_true.mp hword u (hcons ▸ List.mem_cons_self)
      refine ⟨u, us, hcons, isJsonSpace_word hu, ?_⟩
      intro heq
      rw [heq] at hu
      exact absurd hu (by decide)
  | string s => exact ⟨0x22, _, rfl, by decide, by decide⟩
  | array items =>
    cases items with
    | nil => exact ⟨0x5B, _, rfl, by decide, by decide⟩
    | cons v vs => exact ⟨0x5B, _, rfl, by decide, by decide⟩
  | object members =>
    cases members with
    | nil => exact ⟨0x7B, _, rfl, by decide, by decide⟩
    | cons m ms => exact ⟨0x7B, _, rfl, by decide, by decide⟩

theorem ends_items (vs : List Value) (rest : List UInt16) : Ends (itemsText vs ++ rest) := by
  cases vs with
  | nil => exact ends_cons (by decide) rest
  | cons v vs => exact ends_cons (by decide) _

theorem ends_members (members : List (JsString × Value)) (rest : List UInt16) :
    Ends (membersText members ++ rest) := by
  cases members with
  | nil => exact ends_cons (by decide) rest
  | cons m members => exact ends_cons (by decide) _

/-- the items of a list -/
theorem parseItems_text {vs : List Value} (hvs : ∀ w ∈ vs, Reads w) {v : Value} (hv : Reads v)
    {fuel : Nat} (hfuel : v.text.length + (itemsText vs).length < fuel) (rest : List UInt16) :
    parseItems fuel (v.text ++ (itemsText vs ++ rest)) = some (v.shown :: shownItems vs, rest) := by
  induction vs generalizing v fuel with
  | nil =>
    obtain ⟨n, rfl⟩ : ∃ n, fuel = n + 1 := ⟨fuel - 1, by omega⟩
    have hlength : (itemsText []).length = 1 := rfl
    have hcomma : skip 0x2C (itemsText [] ++ rest) = none := skip_ne (by decide) (by decide) rest
    have hclose : skip 0x5D (itemsText [] ++ rest) = some rest := skip_self (by decide) rest
    rw [parseItems, hv n _ (by omega) (ends_items [] rest), Option.bind_some]
    simp only [hcomma, hclose]
    rfl
  | cons w vs ih =>
    obtain ⟨n, rfl⟩ : ∃ n, fuel = n + 1 := ⟨fuel - 1, by omega⟩
    have hlength : (itemsText (w :: vs)).length = w.text.length + (itemsText vs).length + 1 := by
      rw [itemsText, List.length_cons, List.length_append]
    have hfuel' : w.text.length + (itemsText vs).length < n := by omega
    have hmore := ih (fun x hx => hvs x (List.mem_cons_of_mem _ hx)) (hvs w List.mem_cons_self) hfuel'
    have hcomma : skip 0x2C (itemsText (w :: vs) ++ rest) = some (w.text ++ (itemsText vs ++ rest)) := by
      rw [itemsText, List.cons_append, skip_self (by decide), List.append_assoc]
    rw [parseItems, hv n _ (by omega) (ends_items _ rest), Option.bind_some]
    simp only [hcomma, hmore]
    rfl

/-- the members of an object, after others -/
theorem parseMembers_text {members : List (JsString × Value)} (hmembers : ∀ m ∈ members, Reads m.2)
    {key : JsString} {v : Value} (hv : Reads v) {before : List (JsString × Value)}
    (horder : (before.map Prod.fst ++ key :: members.map Prod.fst).Pairwise KeyBefore) {fuel : Nat}
    (hfuel : (quote key).units.length + v.text.length + (membersText members).length + 1 < fuel)
    (rest : List UInt16) :
    parseMembers fuel before ((quote key).units ++ 0x3A :: (v.text ++ (membersText members ++ rest)))
      = some (before ++ (key, v.shown) :: shownMembers members, rest) := by
  have hquote (key : JsString) (us : List UInt16) :
      skip 0x22 ((quote key).units ++ us) = some (escapeUnits key.units ++ 0x22 :: us) := by
    show skip 0x22 (0x22 :: (escapeUnits key.units ++ [0x22]) ++ us) = _
    rw [List.cons_append, skip_self (by decide), List.append_assoc]
    rfl
  have hlast {key : JsString} {keys : List JsString} {before : List (JsString × Value)}
      (horder : (before.map Prod.fst ++ key :: keys).Pairwise KeyBefore) (v : Value) :
      setMember before key v = before ++ [(key, v)] := by
    refine setMember_last fun m hm => ?_
    exact (List.pairwise_append.mp horder).2.2 m.1 (List.mem_map_of_mem hm) key List.mem_cons_self
  induction members generalizing key v before fuel with
  | nil =>
    obtain ⟨n, rfl⟩ : ∃ n, fuel = n + 1 := ⟨fuel - 1, by omega⟩
    have hlength : (membersText []).length = 1 := rfl
    have hcomma : skip 0x2C (membersText [] ++ rest) = none := skip_ne (by decide) (by decide) rest
    have hclose : skip 0x7D (membersText [] ++ rest) = some rest := skip_self (by decide) rest
    rw [parseMembers, hquote, Option.bind_some, readString_escapeUnits, Option.bind_some,
      skip_self (by decide), Option.bind_some, hv n _ (by omega) (ends_members [] rest), Option.bind_some]
    simp only [hcomma, hclose, hlast horder]
    rfl
  | cons m members ih =>
    obtain ⟨key', w⟩ := m
    obtain ⟨n, rfl⟩ : ∃ n, fuel = n + 1 := ⟨fuel - 1, by omega⟩
    have hlength : (membersText ((key', w) :: members)).length
        = (quote key').units.length + w.text.length + (membersText members).length + 2 := by
      rw [membersText, List.length_cons, List.length_append, List.length_cons, List.length_append]
      omega
    have horder' : ((before ++ [(key, v.shown)]).map Prod.fst
        ++ key' :: members.map Prod.fst).Pairwise KeyBefore := by
      rw [List.map_append, List.append_assoc]
      exact horder
    have hw : Reads w := hmembers (key', w) List.mem_cons_self
    have hfuel' : (quote key').units.length + w.text.length + (membersText members).length + 1 < n := by
      omega
    have hmore := ih (fun x hx => hmembers x (List.mem_cons_of_mem _ hx)) hw horder' hfuel'
    have hcomma : skip 0x2C (membersText ((key', w) :: members) ++ rest)
        = some ((quote key').units ++ 0x3A :: (w.text ++ (membersText members ++ rest))) := by
      rw [membersText, List.cons_append, skip_self (by decide), List.append_assoc, List.cons_append,
        List.append_assoc]
    rw [parseMembers, hquote, Option.bind_some, readString_escapeUnits, Option.bind_some,
      skip_self (by decide), Option.bind_some, hv n _ (by omega) (ends_members _ rest), Option.bind_some]
    simp only [hcomma, hlast horder, hmore]
    rw [List.append_assoc]
    rfl

theorem reads_null : Reads .null := by
  intro fuel rest hfuel hrest
  obtain ⟨n, rfl⟩ : ∃ n, fuel = n + 1 := ⟨fuel - 1, by omega⟩
  show parseValue (n + 1) ((lit "null").units ++ rest) = _
  rw [parseValue_word (by decide) hrest (by decide), parseAtom_word (by decide) hrest]
  exact if_pos rfl

theorem reads_bool (b : Bool) : Reads (.bool b) := by
  intro fuel rest hfuel hrest
  obtain ⟨n, rfl⟩ : ∃ n, fuel = n + 1 := ⟨fuel - 1, by omega⟩
  cases b with
  | false =>
    show parseValue (n + 1) ((lit "false").units ++ rest) = _
    rw [parseValue_word (by decide) hrest (by decide), parseAtom_word (by decide) hrest,
      if_neg (by decide), if_neg (by decide)]
    exact if_pos rfl
  | true =>
    show parseValue (n + 1) ((lit "true").units ++ rest) = _
    rw [parseValue_word (by decide) hrest (by decide), parseAtom_word (by decide) hrest,
      if_neg (by decide)]
    exact if_pos rfl

/-- what is no double is shown as `null` -/
theorem reads_infinite {n : JsNumber} (h : ∀ q, n ≠ .finite q) : Reads (.number n) := by
  have hnull := reads_null
  cases n with
  | nan => exact hnull
  | infinity negative => exact hnull
  | finite q => exact absurd rfl (h q)

theorem reads_string (s : JsString) : Reads (.string s) := by
  intro fuel rest hfuel hrest
  obtain ⟨n, rfl⟩ : ∃ n, fuel = n + 1 := ⟨fuel - 1, by omega⟩
  have htext : (Value.string s).text ++ rest = 0x22 :: (escapeUnits s.units ++ 0x22 :: rest) := by
    show 0x22 :: (escapeUnits s.units ++ [0x22]) ++ rest = _
    rw [List.cons_append, List.append_assoc]
    rfl
  rw [htext, parseValue, List.dropWhile_cons_of_neg (by decide)]
  simp only [readString_escapeUnits, if_true]
  rfl

theorem reads_array {items : List Value} (h : ∀ w ∈ items, Reads w) : Reads (.array items) := by
  intro fuel rest hfuel hrest
  obtain ⟨n, rfl⟩ : ∃ n, fuel = n + 1 := ⟨fuel - 1, by omega⟩
  cases items with
  | nil =>
    have hskip : skip 0x5D (0x5D :: rest) = some rest := skip_self (by decide) rest
    show parseValue (n + 1) (0x5B :: 0x5D :: rest) = _
    rw [parseValue, List.dropWhile_cons_of_neg (by decide)]
    simp only [hskip]
    rfl
  | cons v vs =>
    have hlength : (Value.array (v :: vs)).text.length = v.text.length + (itemsText vs).length + 1 := by
      rw [Value.text, List.length_cons, List.length_append]
    have hitems := parseItems_text (fun w hw => h w (List.mem_cons_of_mem _ hw)) (h v List.mem_cons_self)
      (show v.text.length + (itemsText vs).length < n by omega) rest
    obtain ⟨u, us, htext, hspace, hclose⟩ := text_cons v
    have hskip : skip 0x5D (v.text ++ (itemsText vs ++ rest)) = none := by
      rw [htext]
      exact skip_ne hspace hclose _
    rw [Value.text, List.cons_append, List.append_assoc, parseValue,
      List.dropWhile_cons_of_neg (by decide)]
    simp only [hskip, hitems]
    rfl

theorem reads_object {members : List (JsString × Value)} (horder : InOrder members)
    (h : ∀ m ∈ members, Reads m.2) : Reads (.object members) := by
  intro fuel rest hfuel hrest
  obtain ⟨n, rfl⟩ : ∃ n, fuel = n + 1 := ⟨fuel - 1, by omega⟩
  cases members with
  | nil =>
    have hskip : skip 0x7D (0x7D :: rest) = some rest := skip_self (by decide) rest
    show parseValue (n + 1) (0x7B :: 0x7D :: rest) = _
    rw [parseValue, List.dropWhile_cons_of_neg (by decide)]
    simp only [hskip]
    rfl
  | cons m members =>
    obtain ⟨key, v⟩ := m
    have hlength : (Value.object ((key, v) :: members)).text.length
        = (quote key).units.length + v.text.length + (membersText members).length + 2 := by
      rw [Value.text, List.length_cons, List.length_append, List.length_cons, List.length_append]
      omega
    have hkeys : (([] : List (JsString × Value)).map Prod.fst ++ key :: members.map Prod.fst).Pairwise
        KeyBefore := by
      rw [List.map_nil, List.nil_append, ← List.map_cons (f := Prod.fst) (a := (key, v)), List.pairwise_map]
      exact horder
    have hv : Reads v := h (key, v) List.mem_cons_self
    have hmembers := parseMembers_text (fun m hm => h m (List.mem_cons_of_mem _ hm)) hv hkeys
      (show _ < n by omega) rest
    have hskip : skip 0x7D ((quote key).units ++ 0x3A :: (v.text ++ (membersText members ++ rest))) = none :=
      skip_ne (by decide) (by decide) _
    rw [Value.text, List.cons_append, List.append_assoc, List.cons_append, List.append_assoc, parseValue,
      List.dropWhile_cons_of_neg (by decide)]
    simp only [hskip, hmembers]
    rfl

mutual

/-- every value -/
theorem reads : ∀ v : Value, v.Sound → Reads v
  | .null, _ => reads_null
  | .bool b, _ => reads_bool b
  | .number (.finite _), h => reads_number h
  | .number .nan, _ => reads_infinite fun _ hq => nomatch hq
  | .number (.infinity _), _ => reads_infinite fun _ hq => nomatch hq
  | .string s, _ => reads_string s
  | .array items, h => reads_array (reads_items items h)
  | .object members, h => reads_object h.1 (reads_members members h.2)

theorem reads_items : ∀ vs : List Value, SoundItems vs → ∀ w ∈ vs, Reads w
  | [], _, _, hw => absurd hw List.not_mem_nil
  | v :: vs, h, w, hw => by
    rcases List.mem_cons.mp hw with heq | hw
    · rw [heq]
      exact reads v h.1
    · exact reads_items vs h.2 w hw

theorem reads_members : ∀ ms : List (JsString × Value), SoundMembers ms → ∀ m ∈ ms, Reads m.2
  | [], _, _, hm => absurd hm List.not_mem_nil
  | (_, v) :: ms, h, m, hm => by
    rcases List.mem_cons.mp hm with heq | hm
    · rw [heq]
      exact reads v h.1
    · exact reads_members ms h.2 m hm

end

/-- **a value is read back from its text** -/
theorem parse_text {v : Value} (h : v.Sound) : parse ⟨v.text⟩ = some v.shown := by
  have hread := reads v h (v.text.length + 1) [] (by omega) (fun _ hu => nomatch hu)
  rw [List.append_nil] at hread
  show ((parseValue (v.text.length + 1) v.text).bind _) = _
  rw [hread]
  rfl

mutual

/-- no number is infinite -/
def Value.AllFinite : Value → Prop
  | .number n => ∃ q, n = .finite q
  | .array items => FiniteItems items
  | .object members => FiniteMembers members
  | _ => True
termination_by structural v => v

def FiniteItems : List Value → Prop
  | [] => True
  | v :: vs => v.AllFinite ∧ FiniteItems vs
termination_by structural vs => vs

def FiniteMembers : List (JsString × Value) → Prop
  | [] => True
  | (_, v) :: members => v.AllFinite ∧ FiniteMembers members
termination_by structural members => members

end

mutual

/-- what is read back is the value itself -/
theorem shown_eq_iff : ∀ v : Value, v.shown = v ↔ v.AllFinite
  | .null => ⟨fun _ => trivial, fun _ => rfl⟩
  | .bool _ => ⟨fun _ => trivial, fun _ => rfl⟩
  | .string _ => ⟨fun _ => trivial, fun _ => rfl⟩
  | .number (.finite q) => ⟨fun _ => ⟨q, rfl⟩, fun _ => rfl⟩
  | .number .nan => by
    refine ⟨fun h => (nomatch h), fun h => ?_⟩
    obtain ⟨q, hq⟩ := h
    cases hq
  | .number (.infinity _) => by
    refine ⟨fun h => (nomatch h), fun h => ?_⟩
    obtain ⟨q, hq⟩ := h
    cases hq
  | .array items => by
    rw [Value.shown, Value.array.injEq]
    exact shownItems_eq_iff items
  | .object members => by
    rw [Value.shown, Value.object.injEq]
    exact shownMembers_eq_iff members

theorem shownItems_eq_iff : ∀ vs : List Value, shownItems vs = vs ↔ FiniteItems vs
  | [] => ⟨fun _ => trivial, fun _ => rfl⟩
  | v :: vs => by
    rw [shownItems, List.cons.injEq, FiniteItems, shown_eq_iff v, shownItems_eq_iff vs]

theorem shownMembers_eq_iff : ∀ ms : List (JsString × Value), shownMembers ms = ms ↔ FiniteMembers ms
  | [] => ⟨fun _ => trivial, fun _ => rfl⟩
  | (key, v) :: ms => by
    rw [shownMembers, List.cons.injEq, Prod.mk.injEq, FiniteMembers, shown_eq_iff v,
      shownMembers_eq_iff ms]
    exact ⟨fun h => ⟨h.1.2, h.2⟩, fun h => ⟨⟨rfl, h.1⟩, h.2⟩⟩

end

/-! ## the text is well formed -/

theorem wellFormedUnits_word {word : List UInt16} (h : word.all isWordUnit = true) (rest : List UInt16) :
    wellFormedUnits (word ++ rest) = wellFormedUnits rest := by
  refine wellFormedUnits_append (fun u hu => ?_) rest
  have hword := List.all_eq_true.mp h u hu
  cases hs : isSurrogate u with
  | false => rfl
  | true =>
    rw [isSurrogate_iff] at hs
    simp only [isWordUnit, Bool.or_eq_true, decide_eq_true_eq, beq_iff_eq] at hword
    rcases hword with ((hword | rfl) | rfl) | rfl
    · omega
    · exact absurd hs (by decide)
    · exact absurd hs (by decide)
    · exact absurd hs (by decide)

theorem wellFormedUnits_key (key : JsString) (rest : List UInt16) :
    wellFormedUnits ((quote key).units ++ 0x3A :: rest) = wellFormedUnits rest := by
  have hquote := wellFormedUnits_quote key ⟨0x3A :: rest⟩
  rw [units_append] at hquote
  rw [hquote]
  exact wellFormedUnits_cons (by decide) rest

mutual

theorem wellFormedUnits_text : ∀ (v : Value) (rest : List UInt16),
    wellFormedUnits (v.text ++ rest) = wellFormedUnits rest
  | .null, rest => wellFormedUnits_word (by decide) rest
  | .bool true, rest => wellFormedUnits_word (by decide) rest
  | .bool false, rest => wellFormedUnits_word (by decide) rest
  | .number (.finite q), rest => wellFormedUnits_word (isWordUnit_number (isNumberChar_numberText q)) rest
  | .number .nan, rest => wellFormedUnits_word (by decide) rest
  | .number (.infinity _), rest => by
    show wellFormedUnits ((lit "null").units ++ rest) = _
    exact wellFormedUnits_word (by decide) rest
  | .string s, rest => wellFormedUnits_quote s ⟨rest⟩
  | .array [], rest => wellFormedUnits_append (plain_of_all rfl) rest
  | .object [], rest => wellFormedUnits_append (plain_of_all rfl) rest
  | .array (v :: vs), rest => by
    rw [Value.text, List.cons_append, wellFormedUnits_cons (by decide), List.append_assoc,
      wellFormedUnits_text v, wellFormedUnits_items vs]
  | .object ((key, v) :: members), rest => by
    rw [Value.text, List.cons_append, wellFormedUnits_cons (by decide), List.append_assoc,
      List.cons_append, wellFormedUnits_key, List.append_assoc, wellFormedUnits_text v,
      wellFormedUnits_members members]

theorem wellFormedUnits_items : ∀ (vs : List Value) (rest : List UInt16),
    wellFormedUnits (itemsText vs ++ rest) = wellFormedUnits rest
  | [], rest => wellFormedUnits_cons (by decide) rest
  | v :: vs, rest => by
    rw [itemsText, List.cons_append, wellFormedUnits_cons (by decide), List.append_assoc,
      wellFormedUnits_text v, wellFormedUnits_items vs]

theorem wellFormedUnits_members : ∀ (members : List (JsString × Value)) (rest : List UInt16),
    wellFormedUnits (membersText members ++ rest) = wellFormedUnits rest
  | [], rest => wellFormedUnits_cons (by decide) rest
  | (key, v) :: members, rest => by
    rw [membersText, List.cons_append, wellFormedUnits_cons (by decide), List.append_assoc,
      List.cons_append, wellFormedUnits_key, List.append_assoc, wellFormedUnits_text v,
      wellFormedUnits_members members]

end

theorem isWellFormed_text (v : Value) : (⟨v.text⟩ : JsString).isWellFormed = true := by
  have hrest := wellFormedUnits_text v []
  rw [List.append_nil] at hrest
  exact hrest

/-! ## units that no mark and no escape has -/

mutual

/-- how often a unit is in the strings and the keys of a value -/
def Value.count (u : UInt16) : Value → Nat
  | .string s => s.units.count u
  | .array items => countItems u items
  | .object members => countMembers u members
  | _ => 0
termination_by structural v => v

def countItems (u : UInt16) : List Value → Nat
  | [] => 0
  | v :: vs => v.count u + countItems u vs
termination_by structural vs => vs

def countMembers (u : UInt16) : List (JsString × Value) → Nat
  | [] => 0
  | (key, v) :: members => key.units.count u + v.count u + countMembers u members
termination_by structural members => members

end

/-- a unit that is in the text as often as in the value -/
def Carried (u : UInt16) : Prop := u = 0x25 ∨ u = 0x26

section
variable {u : UInt16} (hu : Carried u)
include hu

theorem count_zero {us : List UInt16} (h : 0x25 ∉ us ∧ 0x26 ∉ us) : us.count u = 0 := by
  rw [List.count_eq_zero]
  rcases hu with rfl | rfl
  · exact h.1
  · exact h.2

theorem count_word {word : List UInt16} (h : word.all isWordUnit = true) : word.count u = 0 := by
  refine count_zero hu ⟨fun hmem => ?_, fun hmem => ?_⟩
  · exact absurd (List.all_eq_true.mp h _ hmem) (by decide)
  · exact absurd (List.all_eq_true.mp h _ hmem) (by decide)

theorem count_unicodeEscape (v : UInt16) : (unicodeEscape v).count u = 0 := by
  have hdigit {n : Nat} (h : n < 16) : 0x25 ≠ hexDigit n ∧ 0x26 ≠ hexDigit n := by
    interval_cases n <;> decide
  have hv : v.toNat < 0x10000 := v.toNat_lt
  have h1 := hdigit (n := v.toNat / 4096) (by omega)
  have h2 := hdigit (n := v.toNat / 256 % 16) (by omega)
  have h3 := hdigit (n := v.toNat / 16 % 16) (by omega)
  have h4 := hdigit (n := v.toNat % 16) (by omega)
  refine count_zero hu ⟨?_, ?_⟩
  · simp [unicodeEscape, h1.1, h2.1, h3.1, h4.1]
  · simp [unicodeEscape, h1.2, h2.2, h3.2, h4.2]

theorem count_escapeUnit (v : UInt16) : (escapeUnit v).count u = [v].count u := by
  have hshort {w e : UInt16} (hv : v = w) (hw : (0x25 ∉ [w] ∧ 0x26 ∉ [w]) ∧
      0x25 ∉ ([0x5C, e] : List UInt16) ∧ 0x26 ∉ ([0x5C, e] : List UInt16)) :
      ([0x5C, e] : List UInt16).count u = [v].count u := by
    rw [hv, count_zero hu hw.1, count_zero hu hw.2]
  unfold escapeUnit
  split
  next h => exact hshort h (by decide)
  split
  next h => exact hshort h (by decide)
  split
  next h => exact hshort h (by decide)
  split
  next h => exact hshort h (by decide)
  split
  next h => exact hshort h (by decide)
  split
  next h => exact hshort h (by decide)
  split
  next h => exact hshort h (by decide)
  split
  next h =>
    rw [count_unicodeEscape hu]
    refine (count_zero hu ⟨fun hmem => ?_, fun hmem => ?_⟩).symm
    · rw [← List.mem_singleton.mp hmem] at h
      exact absurd h (by decide)
    · rw [← List.mem_singleton.mp hmem] at h
      exact absurd h (by decide)
  next h => rfl

theorem count_escapeUnits (us : List UInt16) : (escapeUnits us).count u = us.count u := by
  induction us using escapeUnits.induct with
  | case1 => rfl
  | case2 v => rw [escapeUnits, count_escapeUnit hu]
  | case3 v w us h ih => rw [escapeUnits, if_pos h, List.count_cons, List.count_cons, ih, List.count_cons, List.count_cons]
  | case4 v w us h ih =>
    rw [escapeUnits, if_neg h, List.count_append, count_escapeUnit hu, ih, ← List.count_append]
    rfl

theorem count_quote (s : JsString) : (quote s).units.count u = s.units.count u := by
  have hmark : [0x22].count u = 0 := count_zero hu (by decide)
  show (0x22 :: (escapeUnits s.units ++ [0x22])).count u = _
  rw [← List.singleton_append, List.count_append, List.count_append, hmark, count_escapeUnits hu]
  omega

theorem count_mark {mark : UInt16} (h : 0x25 ≠ mark ∧ 0x26 ≠ mark) (us : List UInt16) :
    (mark :: us).count u = us.count u := by
  have hmark : [mark].count u = 0 := count_zero hu
    ⟨fun hmem => h.1 (List.mem_singleton.mp hmem), fun hmem => h.2 (List.mem_singleton.mp hmem)⟩
  rw [← List.singleton_append, List.count_append, hmark, Nat.zero_add]

end

mutual

/-- the text of a value adds none -/
theorem count_text {u : UInt16} (hu : Carried u) : ∀ v : Value, v.text.count u = v.count u
  | .null => count_word hu (by decide)
  | .bool true => count_word hu (by decide)
  | .bool false => count_word hu (by decide)
  | .number (.finite q) => count_word hu (isWordUnit_number (isNumberChar_numberText q))
  | .number .nan => count_word hu (by decide)
  | .number (.infinity _) => by
    show (lit "null").units.count u = 0
    exact count_word hu (by decide)
  | .string s => count_quote hu s
  | .array [] => count_zero hu (by decide)
  | .object [] => count_zero hu (by decide)
  | .array (v :: vs) => by
    rw [Value.text, count_mark hu (by decide), List.count_append, count_text hu v, count_itemsText hu vs]
    rfl
  | .object ((key, v) :: members) => by
    rw [Value.text, count_mark hu (by decide), List.count_append, count_quote hu,
      count_mark hu (by decide), List.count_append, count_text hu v, count_membersText hu members,
      ← Nat.add_assoc]
    rfl

theorem count_itemsText {u : UInt16} (hu : Carried u) : ∀ vs : List Value,
    (itemsText vs).count u = countItems u vs
  | [] => count_zero hu (by decide)
  | v :: vs => by
    rw [itemsText, count_mark hu (by decide), List.count_append, count_text hu v, count_itemsText hu vs]
    rfl

theorem count_membersText {u : UInt16} (hu : Carried u) : ∀ ms : List (JsString × Value),
    (membersText ms).count u = countMembers u ms
  | [] => count_zero hu (by decide)
  | (key, v) :: members => by
    rw [membersText, count_mark hu (by decide), List.count_append, count_quote hu,
      count_mark hu (by decide), List.count_append, count_text hu v, count_membersText hu members,
      ← Nat.add_assoc]
    rfl

end

end Json
