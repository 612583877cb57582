import JinCore.Js.JsonText
import JinCore.Js.StringDecoder

/-!
# The body of a preview request (`terminal.controller.ts`)

A body that the parsers of Nest have read is a value by then, and is sent as JSON; any other body is
still in the stream.  The content type is passed on as it is.

* `bodyParsers`, `previewRequestHeaders`, `previewRequestBody`;
* `Decoder`         the content types and the forms, which a package parses, are parameters;
* `Kept`            what is sent is read as what the client sent;
* `Survives`        a body that is kept;
* `json_form_ne`    no form with fields is read from the JSON of its value;
* `kept_iff`.
-/

namespace Preview
open JsString Json

/-! ## the request -/

inductive HeaderValue where
  | text (s : JsString)
  | list (ss : List JsString)

/-- a request as it is sent; without `framed` it has neither `content-length` nor
`transfer-encoding`, and no body -/
structure ClientRequest where
  method : JsString
  headers : List (JsString × HeaderValue)
  framed : Bool
  chunks : List (List UInt8)
  unframed : framed = false → chunks = []

/-- a request in the handler; `chunks` are what is left in the stream -/
structure Request where
  method : JsString
  headers : List (JsString × HeaderValue)
  body : Option Value
  readableEnded : Bool
  chunks : List (List UInt8)

def textHeader (headers : List (JsString × HeaderValue)) (name : JsString) : Option JsString :=
  match headers.lookup name with
  | some (.text s) => some s
  | _ => none

def contentType : JsString := lit "content-type"

/-! ## the handler -/

/-- `PREVIEW_REQUEST_HEADERS` -/
def previewRequestHeaderNames : List JsString :=
  [lit "accept", lit "accept-language", lit "content-type", lit "range", lit "user-agent"]

def maxPreviewBodyBytes : Nat := 10 * 1024 * 1024

def previewRequestHeaders (req : Request) : List (JsString × JsString) :=
  previewRequestHeaderNames.filterMap fun name => (textHeader req.headers name).map (name, ·)

/-- `Object.keys(value).length`, for a value with `typeof value === 'object'` -/
def keyCount : Value → Nat
  | .array items => items.length
  | .object members => members.length
  | _ => 0

/-- the loop over the stream -/
def readChunks (size : Nat) (collected : List (List UInt8)) :
    List (List UInt8) → Except JsString (List (List UInt8))
  | [] => .ok collected
  | chunk :: chunks =>
    if size + chunk.length > maxPreviewBodyBytes then .error (lit "Cuerpo demasiado grande.")
    else readChunks (size + chunk.length) (collected ++ [chunk]) chunks

def previewRequestBody (req : Request) : Except JsString (Option (List UInt8)) :=
  if req.method = lit "GET" ∨ req.method = lit "HEAD" then .ok none
  else
    match req.body.filter fun v => 0 < keyCount v with
    | some v => .ok (some (utf8 ⟨v.text⟩))
    | none =>
      if req.readableEnded = true then .ok none
      else
        (readChunks 0 [] req.chunks).map fun chunks =>
          if 0 < chunks.length then some chunks.flatten else none

/-! ## the parsers -/

inductive BodyKind where
  | json | form | other
  deriving DecidableEq, Repr

/-- the text of a body, without a byte order mark -/
def bodyText (bytes : List UInt8) : JsString :=
  let read := StringDecoder.fresh.writeAll bytes
  match read.2 ++ read.1.flush with
  | '\uFEFF' :: cs => ofChars cs
  | cs => ofChars cs

/-- what a body says -/
inductive Content where
  | json (v : Value)
  | form (members : List (JsString × Value))
  | raw (bytes : List UInt8)

section
variable (kindOf : Option JsString → BodyKind) (parseForm : JsString → Option (List (JsString × Value)))

/-- a body, read as its content type says -/
def content (type : Option JsString) (bytes : List UInt8) : Option Content :=
  match kindOf type with
  | .json => (parse (bodyText bytes)).map .json
  | .form => (parseForm (bodyText bytes)).map .form
  | .other => some (.raw bytes)

/-- the value that a parser puts into `req.body`; it answers what it cannot parse -/
def parsedBody (kind : BodyKind) (bytes : List UInt8) : Option Value :=
  if bodyText bytes = lit "" then some (.object [])
  else
    match kind with
    | .json =>
      match parse (bodyText bytes) with
      | some (.array items) => some (.array items)
      | some (.object members) => some (.object members)
      | _ => none
    | .form => (parseForm (bodyText bytes)).map .object
    | .other => none

/-- the request in the handler, unless it has been answered before -/
def bodyParsers (req : ClientRequest) : Option Request :=
  let kind := kindOf (textHeader req.headers contentType)
  if req.framed = true ∧ kind ≠ .other then
    (parsedBody parseForm kind req.chunks.flatten).map fun body =>
      ⟨req.method, req.headers, some body, true, []⟩
  else some ⟨req.method, req.headers, none, false, req.chunks⟩

/-- the body and the headers that the Executor gets are read as what the client sent -/
def Kept (client : ClientRequest) (req : Request) : Prop :=
  ∃ body, previewRequestBody req = .ok body ∧
    content kindOf parseForm ((previewRequestHeaders req).lookup contentType) (body.getD [])
      = content kindOf parseForm (textHeader client.headers contentType) client.chunks.flatten

/-- a list or an object that is not empty and has no number beyond the doubles, a form without fields,
or no body of these types -/
def Survives (client : ClientRequest) : Prop :=
  match kindOf (textHeader client.headers contentType) with
  | .json => ∀ v, parse (bodyText client.chunks.flatten) = some v → 0 < keyCount v ∧ v.AllFinite
  | .form => parseForm (bodyText client.chunks.flatten) = some []
  | .other => True

end

/-! ## what is read -/

theorem writeAll_append (d : StringDecoder) (as bs : List UInt8) :
    d.writeAll (as ++ bs) = (((d.writeAll as).1.writeAll bs).1,
      (d.writeAll as).2 ++ ((d.writeAll as).1.writeAll bs).2) := by
  induction as generalizing d with
  | nil => rfl
  | cons a as ih =>
    simp only [List.cons_append, StringDecoder.writeAll]
    rw [ih, List.append_assoc]

theorem writeAll_utf8Chars (cs : List Char) :
    StringDecoder.fresh.writeAll (utf8Chars cs) = (StringDecoder.fresh, cs) := by
  induction cs with
  | nil => rfl
  | cons c cs ih =>
    show StringDecoder.fresh.writeAll (String.utf8EncodeChar c ++ utf8Chars cs) = _
    rw [writeAll_append, StringDecoder.writeAll_encodeChar, ih]
    rfl

/-- a text is read back from its bytes -/
theorem bodyText_utf8 {s : JsString} (h : s.isWellFormed = true) (hmark : s.chars.head? ≠ some '\uFEFF') :
    bodyText s.utf8 = s := by
  have hread := writeAll_utf8Chars s.chars
  have hback := (ofChars_chars_eq_iff s).mpr h
  rw [bodyText, utf8, hread]
  simp only [StringDecoder.flush_fresh, List.append_nil]
  split
  · next cs hcs =>
    rw [hcs] at hmark
    exact absurd rfl hmark
  · exact hback

theorem bodyText_nil : bodyText [] = lit "" := rfl

theorem parse_empty : parse (lit "") = none := rfl

/-- the JSON of a list or an object that is not empty -/
theorem bodyText_text {v : Value} (h : 0 < keyCount v) : bodyText (utf8 ⟨v.text⟩) = ⟨v.text⟩ := by
  refine bodyText_utf8 (isWellFormed_text v) ?_
  have hbracket {u : UInt16} {us : List UInt16} (htext : v.text = u :: us) (hu : u = 0x5B ∨ u = 0x7B) :
      chars ⟨v.text⟩ = loneChar u :: decode us := by
    show decode v.text = _
    rw [htext]
    refine decode_cons_of_not_lead ?_ us
    rcases hu with rfl | rfl
    · rfl
    · rfl
  cases v with
  | null => cases h
  | bool b => cases h
  | number n => cases h
  | string s => cases h
  | array items =>
    cases items with
    | nil => cases h
    | cons w ws =>
      rw [hbracket rfl (.inl rfl), List.head?_cons]
      decide
  | object members =>
    cases members with
    | nil => cases h
    | cons m ms =>
      rw [hbracket rfl (.inr rfl), List.head?_cons]
      decide

theorem readChunks_ok {chunks : List (List UInt8)} {size : Nat} (collected : List (List UInt8))
    (h : size + chunks.flatten.length ≤ maxPreviewBodyBytes) :
    readChunks size collected chunks = .ok (collected ++ chunks) := by
  induction chunks generalizing size collected with
  | nil =>
    rw [readChunks, List.append_nil]
  | cons chunk chunks ih =>
    rw [List.flatten_cons, List.length_append] at h
    rw [readChunks, if_neg (by omega), ih _ (by omega), List.append_assoc]
    rfl

theorem lookup_filterMap (names : List JsString) (f : JsString → Option JsString) {name : JsString}
    (h : name ∈ names) : (names.filterMap fun n => (f n).map (n, ·)).lookup name = f name := by
  induction names with
  | nil => exact absurd h List.not_mem_nil
  | cons n names ih =>
    rw [List.filterMap_cons]
    by_cases hn : name = n
    · subst hn
      cases hf : f name with
      | none =>
        simp only [Option.map_none]
        by_cases hmem : name ∈ names
        · rw [ih hmem, hf]
        · rw [List.lookup_eq_none_iff]
          intro pair hpair
          obtain ⟨n', hn', hpair⟩ := List.mem_filterMap.mp hpair
          obtain ⟨value, -, rfl⟩ := Option.map_eq_some_iff.mp hpair
          rw [bne_iff_ne]
          exact fun heq => hmem (heq ▸ hn')
      | some value => simp
    · have hmem : name ∈ names := (List.mem_cons.mp h).resolve_left hn
      cases f n with
      | none => exact ih hmem
      | some value =>
        rw [Option.map_some, List.lookup_cons, beq_false_of_ne hn]
        exact ih hmem

/-- the content type is passed on -/
theorem lookup_contentType (req : Request) :
    (previewRequestHeaders req).lookup contentType = textHeader req.headers contentType :=
  lookup_filterMap _ _ (by decide)

/-! ## forms -/

/-- a unit that ends no name of a form and is not decoded -/
def isPlain (u : UInt16) : Bool :=
  decide (u.toNat < 0x80) && u != 0x25 && u != 0x26 && u != 0x2B && u != 0x3D && u != 0x5B && u != 0x5D

theorem isPlain_unicodeEscape (u : UInt16) : (unicodeEscape u).all isPlain = true := by
  have hdigit {n : Nat} (h : n < 16) : isPlain (hexDigit n) = true := by
    interval_cases n <;> decide
  have hu : u.toNat < 0x10000 := u.toNat_lt
  have h1 := hdigit (n := u.toNat / 4096) (by omega)
  have h2 := hdigit (n := u.toNat / 256 % 16) (by omega)
  have h3 := hdigit (n := u.toNat / 16 % 16) (by omega)
  have h4 := hdigit (n := u.toNat % 16) (by omega)
  simp only [unicodeEscape, List.all_cons, h1, h2, h3, h4]
  decide

theorem isPlain_escapeUnit {u : UInt16} (h : isPlain u = true) : (escapeUnit u).all isPlain = true := by
  unfold escapeUnit
  split
  · decide
  split
  · decide
  split
  · decide
  split
  · decide
  split
  · decide
  split
  · decide
  split
  · decide
  split
  · exact isPlain_unicodeEscape u
  · rw [List.all_cons, h]
    rfl

theorem escapeUnit_ne_nil (u : UInt16) : escapeUnit u ≠ [] := by
  unfold escapeUnit
  split
  · decide
  split
  · decide
  split
  · decide
  split
  · decide
  split
  · decide
  split
  · decide
  split
  · decide
  split
  · exact List.cons_ne_nil _ _
  · exact List.cons_ne_nil _ _

/-- plain units are escaped one by one -/
theorem escapeUnits_plain {us : List UInt16} (h : us.all isPlain = true) (more : List UInt16) :
    escapeUnits (us ++ more) = us.flatMap escapeUnit ++ escapeUnits more := by
  induction us with
  | nil => rfl
  | cons u us ih =>
    rw [List.all_cons, Bool.and_eq_true] at h
    have hlead : isLead u = false := by
      cases hl : isLead u with
      | false => rfl
      | true =>
        have hrange := (isLead_iff u).mp hl
        have hplain := h.1
        simp only [isPlain, Bool.and_eq_true, decide_eq_true_eq] at hplain
        omega
    rw [List.flatMap_cons, List.append_assoc, ← ih h.2, List.cons_append]
    cases hrest : us ++ more with
    | nil => rw [escapeUnits, escapeUnits, List.append_nil]
    | cons v vs => rw [escapeUnits, hlead, Bool.false_and, if_neg Bool.false_ne_true]

theorem length_le_escaped (us : List UInt16) : us.length ≤ (us.flatMap escapeUnit).length := by
  induction us with
  | nil => exact Nat.le_refl _
  | cons u us ih =>
    have hpos := List.length_pos_of_ne_nil (escapeUnit_ne_nil u)
    rw [List.flatMap_cons, List.length_append, List.length_cons]
    omega

/-- a key does not begin with its own JSON in an object -/
theorem not_prefix_key {key : JsString} {text more : List UInt16}
    (htext : text = 0x7B :: ((quote key).units ++ more)) (h : text.takeWhile isPlain <+: key.units) : False := by
  -- with a plain prefix of the key, a longer one is one as well
  have hgrow (n : Nat) : ∃ us, us <+: key.units ∧ us.all isPlain = true ∧ n ≤ us.length := by
    induction n with
    | zero => exact ⟨[], List.nil_prefix, rfl, Nat.le_refl _⟩
    | succ n ih =>
      obtain ⟨us, ⟨rest, hrest⟩, hplain, hn⟩ := ih
      have hplain' : (0x7B :: 0x22 :: us.flatMap escapeUnit).all isPlain = true := by
        rw [List.all_cons, List.all_cons, List.all_flatMap]
        have hall : us.all (fun u => (escapeUnit u).all isPlain) = true :=
          List.all_eq_true.mpr fun u hu => isPlain_escapeUnit (List.all_eq_true.mp hplain u hu)
        rw [hall]
        decide
      have hbegin : text
          = (0x7B :: 0x22 :: us.flatMap escapeUnit) ++ (escapeUnits rest ++ 0x22 :: more) := by
        rw [htext, quote, ← hrest, escapeUnits_plain hplain]
        simp
      have htake : 0x7B :: 0x22 :: us.flatMap escapeUnit <+: text.takeWhile isPlain := by
        rw [hbegin, List.takeWhile_append_of_pos (List.all_eq_true.mp hplain')]
        exact List.prefix_append _ _
      refine ⟨_, htake.trans h, hplain', ?_⟩
      have hlength := length_le_escaped us
      rw [List.length_cons, List.length_cons]
      omega
  obtain ⟨us, hus, -, hlength⟩ := hgrow (key.units.length + 1)
  have hle := hus.length_le
  omega

section
variable {kindOf : Option JsString → BodyKind} {parseForm : JsString → Option (List (JsString × Value))}

/-- a text without `&` has one field at most, and its name begins as the text does -/
def FirstName (parseForm : JsString → Option (List (JsString × Value))) : Prop :=
  ∀ text members, 0x26 ∉ text.units → parseForm text = some members →
    members = [] ∨ ∃ key v, members = [(key, v)] ∧ text.units.takeWhile isPlain <+: key.units

/-- a percent sign of a name or a value stands in the text, and a `&` of one is written with another
percent sign of the text -/
def PercentEncoded (parseForm : JsString → Option (List (JsString × Value))) : Prop :=
  ∀ text members, parseForm text = some members →
    countMembers 0x25 members ≤ text.units.count 0x25 ∧
      (0 < countMembers 0x26 members → countMembers 0x25 members < text.units.count 0x25)

/-- **no form with fields is read from the JSON of its value** -/
theorem json_form_ne (hfirst : FirstName parseForm) (hpercent : PercentEncoded parseForm)
    {members : List (JsString × Value)} (hne : members ≠ []) :
    parseForm ⟨(Value.object members).text⟩ ≠ some members := by
  intro hread
  have hsigns : (Value.object members).text.count 0x25 = countMembers 0x25 members :=
    count_text (.inl rfl) (.object members)
  have hands : (Value.object members).text.count 0x26 = countMembers 0x26 members :=
    count_text (.inr rfl) (.object members)
  -- no percent sign is left to write a `&` with
  obtain ⟨-, hless⟩ := hpercent _ _ hread
  have hnone : countMembers 0x26 members = 0 := by
    rcases Nat.eq_zero_or_pos (countMembers 0x26 members) with hzero | hpos
    · exact hzero
    · have hlt := hless hpos
      rw [hsigns] at hlt
      omega
  have hmem : 0x26 ∉ (Value.object members).text := List.count_eq_zero.mp (hands.trans hnone)
  rcases hfirst _ _ hmem hread with hnil | ⟨key, v, hone, hprefix⟩
  · exact hne hnil
  · have htext : (Value.object members).text
        = 0x7B :: ((quote key).units ++ 0x3A :: (v.text ++ membersText [])) := by
      rw [hone, Value.text]
    exact not_prefix_key htext hprefix

/-! ## the body is kept -/

theorem previewRequestBody_value {req : Request} {v : Value} (hget : req.method ≠ lit "GET")
    (hhead : req.method ≠ lit "HEAD") (hbody : req.body = some v) (hended : req.readableEnded = true) :
    previewRequestBody req = .ok (if 0 < keyCount v then some (utf8 ⟨v.text⟩) else none) := by
  rw [previewRequestBody, if_neg (not_or.mpr ⟨hget, hhead⟩), hbody, Option.filter_some]
  by_cases hkeys : 0 < keyCount v
  · simp only [hkeys, decide_true, if_true]
  · simp only [hkeys, decide_false, Bool.false_eq_true, if_false, hended, if_true]

theorem previewRequestBody_stream {req : Request} (hget : req.method ≠ lit "GET")
    (hhead : req.method ≠ lit "HEAD") (hbody : req.body = none) (hended : req.readableEnded = false)
    (hlimit : req.chunks.flatten.length ≤ maxPreviewBodyBytes) :
    ∃ body, previewRequestBody req = .ok body ∧ body.getD [] = req.chunks.flatten := by
  rw [previewRequestBody, if_neg (not_or.mpr ⟨hget, hhead⟩), hbody, Option.filter_none]
  simp only [hended, Bool.false_eq_true, if_false]
  rw [readChunks_ok [] (by rw [Nat.zero_add]; exact hlimit), List.nil_append]
  refine ⟨_, rfl, ?_⟩
  show (if 0 < req.chunks.length then some req.chunks.flatten else none).getD [] = req.chunks.flatten
  by_cases hchunks : 0 < req.chunks.length
  · rw [if_pos hchunks]
    rfl
  · have hnil : req.chunks = [] := List.eq_nil_of_length_eq_zero (by omega)
    rw [if_neg hchunks, hnil]
    rfl

section
variable {client : ClientRequest} {req : Request} (hget : client.method ≠ lit "GET")
  (hhead : client.method ≠ lit "HEAD")
include hget hhead

/-- a value in `req.body` -/
theorem kept_value {v : Value}
    (hreq : req = ⟨client.method, client.headers, some v, true, []⟩) :
    Kept kindOf parseForm client req ↔
      content kindOf parseForm (textHeader client.headers contentType)
          (if 0 < keyCount v then utf8 ⟨v.text⟩ else [])
        = content kindOf parseForm (textHeader client.headers contentType) client.chunks.flatten := by
  have hsent : previewRequestBody req = .ok (if 0 < keyCount v then some (utf8 ⟨v.text⟩) else none) := by
    rw [hreq]
    exact previewRequestBody_value hget hhead rfl rfl
  have hheaders : req.headers = client.headers := by rw [hreq]
  rw [Kept, hsent, lookup_contentType, hheaders]
  constructor
  · rintro ⟨body, hbody, hkept⟩
    rw [← Except.ok.inj hbody] at hkept
    rw [← hkept]
    congr 1
    split
    · rfl
    · rfl
  · intro hkept
    refine ⟨_, rfl, ?_⟩
    rw [← hkept]
    congr 1
    split
    · rfl
    · rfl

/-- a body that no parser has read -/
theorem kept_stream (hlimit : client.chunks.flatten.length ≤ maxPreviewBodyBytes)
    (hreq : req = ⟨client.method, client.headers, none, false, client.chunks⟩) :
    Kept kindOf parseForm client req := by
  obtain ⟨body, hbody, hbytes⟩ : ∃ body, previewRequestBody req = .ok body ∧ body.getD [] = client.chunks.flatten := by
    rw [hreq]
    exact previewRequestBody_stream hget hhead rfl rfl hlimit
  rw [hreq] at hbody ⊢
  refine ⟨body, hbody, ?_⟩
  rw [lookup_contentType, hbytes]

end

/-- a JSON body that has been parsed -/
theorem json_kept_iff {bytes : List UInt8} {v : Value} (hv : parsedBody parseForm .json bytes = some v) :
    (parse (bodyText (if 0 < keyCount v then utf8 ⟨v.text⟩ else []))).map Content.json
        = (parse (bodyText bytes)).map Content.json ↔
      ∀ w, parse (bodyText bytes) = some w → 0 < keyCount w ∧ w.AllFinite := by
  by_cases htext : bodyText bytes = lit ""
  · simp only [parsedBody, if_pos htext, Option.some.injEq] at hv
    rw [← hv, htext, parse_empty]
    exact iff_of_true rfl fun w hw => (nomatch hw)
  · have hparse : parse (bodyText bytes) = some v := by
      simp only [parsedBody, if_neg htext] at hv
      split at hv
      · next items heq => rw [heq, hv]
      · next members heq => rw [heq, hv]
      · cases hv
    rw [hparse, Option.map_some]
    by_cases hkeys : 0 < keyCount v
    · rw [if_pos hkeys, bodyText_text hkeys, parse_text (parse_sound hparse), Option.map_some,
        Option.some.injEq, Content.json.injEq, shown_eq_iff]
      constructor
      · intro hfinite w hw
        rw [← Option.some.inj hw]
        exact ⟨hkeys, hfinite⟩
      · intro hall
        exact (hall v rfl).2
    · rw [if_neg hkeys, bodyText_nil, parse_empty]
      refine iff_of_false (fun h => (nomatch h)) fun hall => hkeys (hall v rfl).1

/-- a form that has been parsed -/
theorem form_kept_iff (hempty : parseForm (lit "") = some []) (hfirst : FirstName parseForm)
    (hpercent : PercentEncoded parseForm) {bytes : List UInt8} {v : Value}
    (hv : parsedBody parseForm .form bytes = some v) :
    (parseForm (bodyText (if 0 < keyCount v then utf8 ⟨v.text⟩ else []))).map Content.form
        = (parseForm (bodyText bytes)).map Content.form ↔ parseForm (bodyText bytes) = some [] := by
  have hform : ∃ members, parseForm (bodyText bytes) = some members ∧ v = .object members := by
    by_cases htext : bodyText bytes = lit ""
    · simp only [parsedBody, if_pos htext, Option.some.injEq] at hv
      exact ⟨[], by rw [htext, hempty], hv.symm⟩
    · simp only [parsedBody, if_neg htext] at hv
      obtain ⟨members, hmembers, heq⟩ := Option.map_eq_some_iff.mp hv
      exact ⟨members, hmembers, heq.symm⟩
  obtain ⟨members, hmembers, rfl⟩ := hform
  rw [hmembers, Option.map_some, Option.some.injEq]
  by_cases hnil : members = []
  · have hkeys : ¬0 < keyCount (.object []) := Nat.lt_irrefl 0
    rw [hnil, if_neg hkeys, bodyText_nil, hempty]
    exact iff_of_true rfl rfl
  · have hkeys : 0 < keyCount (.object members) := List.length_pos_of_ne_nil hnil
    rw [if_pos hkeys, bodyText_text hkeys]
    refine iff_of_false (fun h => ?_) hnil
    obtain ⟨again, hagain, heq⟩ := Option.map_eq_some_iff.mp h
    rw [Content.form.injEq] at heq
    exact json_form_ne hfirst hpercent hnil (heq ▸ hagain)

/-- **A body is kept exactly where it survives.**  JSON is kept as a list or an object that is not empty
and has no number beyond the doubles, a form only if it has no fields, and any other body always. -/
theorem kept_iff (hempty : parseForm (lit "") = some []) (hfirst : FirstName parseForm)
    (hpercent : PercentEncoded parseForm) {client : ClientRequest} {req : Request}
    (hparsed : bodyParsers kindOf parseForm client = some req) (hget : client.method ≠ lit "GET")
    (hhead : client.method ≠ lit "HEAD")
    (hlimit : client.chunks.flatten.length ≤ maxPreviewBodyBytes) :
    Kept kindOf parseForm client req ↔ Survives kindOf parseForm client := by
  rw [bodyParsers] at hparsed
  by_cases hread : client.framed = true ∧ kindOf (textHeader client.headers contentType) ≠ .other
  · simp only [if_pos hread] at hparsed
    obtain ⟨v, hv, hreq⟩ := Option.map_eq_some_iff.mp hparsed
    rw [kept_value hget hhead hreq.symm, Survives]
    simp only [content]
    cases hkind : kindOf (textHeader client.headers contentType) with
    | other => exact absurd hkind hread.2
    | json =>
      rw [hkind] at hv
      exact json_kept_iff hv
    | form =>
      rw [hkind] at hv
      exact form_kept_iff hempty hfirst hpercent hv
  · simp only [if_neg hread] at hparsed
    have hkept : Kept kindOf parseForm client req :=
      kept_stream hget hhead hlimit (Option.some.inj hparsed).symm
    refine iff_of_true hkept ?_
    -- a request of the other types, or without a body
    have hnone (hkind : kindOf (textHeader client.headers contentType) ≠ .other) :
        client.chunks = [] := by
      refine client.unframed ?_
      cases hframed : client.framed with
      | false => rfl
      | true => exact absurd ⟨hframed, hkind⟩ hread
    rw [Survives]
    cases hkind : kindOf (textHeader client.headers contentType) with
    | other => trivial
    | json =>
      rw [hnone (by rw [hkind]; decide)]
      intro w hw
      cases hw
    | form =>
      rw [hnone (by rw [hkind]; decide)]
      exact hempty

end

/-! ## requests that are kept and lost -/

/-- a form of one field without escapes -/
def oneField (text : JsString) : Option (List (JsString × Value)) :=
  if 0x25 ∈ text.units ∨ 0x26 ∈ text.units then none
  else if text.units = [] then some []
  else some [(⟨text.units.takeWhile (· ≠ 0x3D)⟩, .string ⟨(text.units.dropWhile (· ≠ 0x3D)).tail⟩)]

theorem firstName_oneField : FirstName oneField := by
  intro text members hand hread
  rw [oneField, Option.ite_none_left_eq_some] at hread
  obtain ⟨-, hread⟩ := hread
  by_cases hnil : text.units = []
  · rw [if_pos hnil] at hread
    exact .inl (Option.some.inj hread).symm
  · rw [if_neg hnil] at hread
    refine .inr ⟨_, _, (Option.some.inj hread).symm, ?_⟩
    show text.units.takeWhile isPlain <+: text.units.takeWhile (· ≠ 0x3D)
    have himp (u : UInt16) (hu : isPlain u = true) : u ≠ 0x3D := by
      intro heq
      rw [heq] at hu
      exact absurd hu (by decide)
    generalize text.units = us
    induction us with
    | nil => exact List.nil_prefix
    | cons u us ih =>
      by_cases hu : isPlain u = true
      · have hne : decide (u ≠ 0x3D) = true := decide_eq_true (himp u hu)
        rw [List.takeWhile_cons_of_pos hu, List.takeWhile_cons, hne, if_pos rfl]
        exact (List.prefix_cons_inj u).mpr ih
      · rw [List.takeWhile_cons_of_neg hu]
        exact List.nil_prefix

theorem percentEncoded_oneField : PercentEncoded oneField := by
  intro text members hread
  rw [oneField, Option.ite_none_left_eq_some, not_or] at hread
  obtain ⟨⟨hpercent, hand⟩, hread⟩ := hread
  -- no unit of the text is taken for another one
  have hzero (u : UInt16) (hu : u ∉ text.units) : countMembers u members = 0 := by
    by_cases hnil : text.units = []
    · rw [if_pos hnil] at hread
      rw [← Option.some.inj hread]
      rfl
    · rw [if_neg hnil] at hread
      have hname : u ∉ text.units.takeWhile (· ≠ 0x3D) := fun h => hu (List.takeWhile_subset _ h)
      have hvalue : u ∉ (text.units.dropWhile (· ≠ 0x3D)).tail :=
        fun h => hu ((List.dropWhile_sublist _).subset (List.mem_of_mem_tail h))
      rw [← Option.some.inj hread]
      show (text.units.takeWhile (· ≠ 0x3D)).count u + (text.units.dropWhile (· ≠ 0x3D)).tail.count u + 0 = 0
      rw [List.count_eq_zero.mpr hname, List.count_eq_zero.mpr hvalue]
  rw [hzero 0x25 hpercent, hzero 0x26 hand]
  exact ⟨Nat.zero_le _, fun h => absurd h (Nat.lt_irrefl 0)⟩

/-- the content types without parameters -/
def plainKind (type : Option JsString) : BodyKind :=
  if type = some (lit "application/json") then .json
  else if type = some (lit "application/x-www-form-urlencoded") then .form
  else .other

def post (type body : String) : ClientRequest where
  method := lit "POST"
  headers := [(contentType, .text (lit type))]
  framed := true
  chunks := [(lit body).utf8]
  unframed h := nomatch h

/-- a list in a list -/
theorem kept_nested : ∃ req, bodyParsers plainKind oneField (post "application/json" "[[]]") = some req ∧
    Kept plainKind oneField (post "application/json" "[[]]") req := by
  refine ⟨_, rfl, (kept_iff rfl firstName_oneField percentEncoded_oneField rfl (by decide) (by decide)
    (by decide)).mpr ?_⟩
  intro v hv
  rw [← Option.some.inj hv]
  exact ⟨Nat.zero_lt_one, trivial, trivial⟩

def firstKey : Option Content → JsString
  | some (.form ((key, _) :: _)) => key
  | _ => lit ""

/-- a form that is sent as JSON, and an empty list that is not sent -/
theorem form_lost :
    (∃ req, bodyParsers plainKind oneField (post "application/x-www-form-urlencoded" "a=1") = some req ∧
      ¬Kept plainKind oneField (post "application/x-www-form-urlencoded" "a=1") req) ∧
    ∃ req, bodyParsers plainKind oneField (post "application/json" "[]") = some req ∧
      ¬Kept plainKind oneField (post "application/json" "[]") req := by
  refine ⟨⟨_, rfl, ?_⟩, ⟨_, rfl, ?_⟩⟩
  · rintro ⟨body, hbody, hkept⟩
    rw [← Except.ok.inj hbody] at hkept
    have hname := congrArg firstKey hkept
    exact absurd hname (by decide)
  · rintro ⟨body, hbody, hkept⟩
    rw [← Except.ok.inj hbody] at hkept
    cases hkept

end Preview
