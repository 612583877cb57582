import JinCore.Js.Url
import JinCore.Terminal.PreviewBody

/-!
# Where a preview request is sent (`terminal.controller.ts`, `terminal-executor.client.ts`)

The handler reads the target of the request as text, and the router has decoded its parameters; what
follows the port is put behind the URL of the Executor, and `fetch` parses that.

* `workspaceIdOrFail`, `portOrFail`, `pathAndQuery`, `proxyUrl`, `preview`;
* `Routed`          a target that the router gives to the handler;
* `Executor`        where the Executor is; `below` is the address of a port;
* `Confined`        at the Executor, at or below the address, and as it was if nothing is resolved;
* `spelled_iff`     when the handler finds the parameters in the target;
* `confined_iff`.
-/

namespace Preview
open JsString WhatwgUrl

/-! ## the parameters -/

def isHex (u : UInt16) : Bool :=
  decide (0x30 ≤ u.toNat ∧ u.toNat ≤ 0x39 ∨ 0x41 ≤ u.toNat ∧ u.toNat ≤ 0x46 ∨ 0x61 ≤ u.toNat ∧ u.toNat ≤ 0x66)

def isDigit (u : UInt16) : Bool := decide (0x30 ≤ u.toNat ∧ u.toNat ≤ 0x39)

/-- groups of hexadecimal digits with hyphens between them -/
def matchesGroups : List Nat → List UInt16 → Bool
  | [], us => us.isEmpty
  | [n], us => us.length == n && us.all isHex
  | n :: ns, us => (us.take n).length == n && (us.take n).all isHex && (us.drop n).head? == some 0x2D &&
      matchesGroups ns (us.drop (n + 1))

/-- `WorkspaceIdSchema` -/
def workspaceIdOrFail (casing : CaseMapping) (raw : JsString) : Except JsString JsString :=
  if matchesGroups [8, 4, 4, 4, 12] raw.units = true then .ok (toLowerCase casing raw)
  else .error (lit "Id de proyecto inválido.")

def digitsValue (us : List UInt16) : Nat := us.foldl (fun n u => 10 * n + (u.toNat - 0x30)) 0

def portOrFail (raw : JsString) : Except JsString Nat :=
  if (1 ≤ raw.units.length ∧ raw.units.length ≤ 5 ∧ raw.units.all isDigit = true) ∧
      1024 ≤ digitsValue raw.units ∧ digitsValue raw.units ≤ 65535 then .ok (digitsValue raw.units)
  else .error (lit "Puerto no válido (1024–65535).")

/-! ## the handler -/

def targetPrefix (rawWorkspaceId rawPort : JsString) : Option JsString :=
  (encodeURIComponent rawWorkspaceId).map fun id =>
    lit "/api/terminal/workspaces/" ++ id ++ lit "/preview/" ++ rawPort

/-- what follows the port, and nothing where the target does not begin as expected -/
def restOf (start originalUrl : JsString) : JsString :=
  if start.units <+: originalUrl.units then ⟨originalUrl.units.drop start.units.length⟩ else lit ""

def pathAndQuery (rest : JsString) : JsString :=
  if rest = lit "" ∨ rest.units.head? = some 0x3F then lit "/" ++ rest else rest

/-- `TerminalExecutorClient`: `EXECUTOR_BASE_URL` without the slashes at its end -/
def baseUrl (rawUrl : JsString) : JsString :=
  ⟨rawUrl.units.rdropWhile (· == 0x2F)⟩ ++ lit "/terminal/workspaces"

/-- `TerminalExecutorClient.proxy` -/
def proxyUrl (rawUrl workspaceId : JsString) (port : Nat) (pathAndQuery : JsString) : Option JsString :=
  (encodeURIComponent workspaceId).map fun id =>
    baseUrl rawUrl ++ lit "/" ++ id ++ lit "/proxy/" ++ natText port ++ pathAndQuery

/-- what is given to `fetch` -/
structure Outgoing where
  method : JsString
  url : JsString
  headers : List (JsString × JsString)
  body : Option (List UInt8)

/-- none where a lone surrogate makes `encodeURIComponent` throw -/
def preview (casing : CaseMapping) (rawUrl originalUrl rawWorkspaceId rawPort : JsString) (req : Request) :
    Except JsString (Option Outgoing) := do
  let workspaceId ← workspaceIdOrFail casing rawWorkspaceId
  let port ← portOrFail rawPort
  let body ← previewRequestBody req
  return (targetPrefix rawWorkspaceId rawPort).bind fun start =>
    (proxyUrl rawUrl workspaceId port (pathAndQuery (restOf start originalUrl))).map fun url =>
      ⟨req.method, url, previewRequestHeaders req, body⟩


/-! ## the router -/

/-- how the router reads the path of a target -/
def routeUnit (u : UInt16) : UInt16 := if u = 0x5C then 0x2F else lowerUnit u

/-- a target that the router gives to the handler, with the parameters that it decodes -/
structure Routed where
  origin : List UInt16
  head : List UInt16
  idText : List UInt16
  middle : List UInt16
  portText : List UInt16
  tail : List UInt16
  rawWorkspaceId : JsString
  rawPort : JsString
  /-- of an absolute target -/
  origin_head : origin.head? ≠ some 0x2F
  head_eq : head.map routeUnit = (lit "/api/terminal/workspaces/").units
  middle_eq : middle.map routeUnit = (lit "/preview/").units
  id_inside : 0x2F ∉ idText
  port_inside : 0x2F ∉ portText
  id_decoded : decodeURIComponent ⟨idText⟩ = some rawWorkspaceId
  port_decoded : decodeURIComponent ⟨portText⟩ = some rawPort
  /-- white space at the end is no part of the path -/
  tail_head : ∀ u ∈ tail.head?, endsAuthority u = true ∨ isSpace u = true

def Routed.originalUrl (target : Routed) : JsString :=
  ⟨target.origin ++ (target.head ++ (target.idText ++ (target.middle ++ (target.portText ++ target.tail))))⟩

/-! ## the parameters as text -/

/-- letters, digits and hyphens -/
def IsWord (s : JsString) : Prop := s.units ≠ [] ∧ ∀ u ∈ s.units, isWordUnit u = true

theorem isWord_of_isHex {u : UInt16} (h : isHex u = true) : isWordUnit u = true := by
  have hrange := of_decide_eq_true h
  exact decide_eq_true (by omega)

theorem isWord_of_isDigit {u : UInt16} (h : isDigit u = true) : isWordUnit u = true :=
  decide_eq_true (.inl (of_decide_eq_true h))

theorem isWord_matchesGroups {ns : List Nat} {us : List UInt16} (h : matchesGroups ns us = true) :
    ∀ u ∈ us, isWordUnit u = true := by
  induction ns, us using matchesGroups.induct with
  | case1 us =>
    rw [matchesGroups, List.isEmpty_iff] at h
    rw [h]
    exact fun u hu => (nomatch hu)
  | case2 n us =>
    rw [matchesGroups, Bool.and_eq_true] at h
    exact fun u hu => isWord_of_isHex (List.all_eq_true.mp h.2 u hu)
  | case3 n ns us hne ih =>
    rw [matchesGroups, Bool.and_eq_true, Bool.and_eq_true, Bool.and_eq_true, beq_iff_eq, beq_iff_eq] at h
    · obtain ⟨⟨⟨-, hgroup⟩, hhyphen⟩, hrest⟩ := h
      obtain ⟨vs, hdrop⟩ := List.head?_eq_some_iff.mp hhyphen
      intro u hu
      rw [← List.take_append_drop n us, hdrop] at hu
      rcases List.mem_append.mp hu with hu | hu
      · exact isWord_of_isHex (List.all_eq_true.mp hgroup u hu)
      · rcases List.mem_cons.mp hu with rfl | hu
        · rfl
        · refine ih hrest u ?_
          rw [← List.drop_drop, hdrop]
          exact hu
    · exact hne

theorem isWord_lowerUnit {u : UInt16} (h : isWordUnit u = true) : isWordUnit (lowerUnit u) = true := by
  rw [lowerUnit]
  split
  · next hcapital =>
    have hadd : (u + 0x20).toNat = u.toNat + 0x20 := by
      rw [UInt16.toNat_add]
      exact Nat.mod_eq_of_lt (by simp; omega)
    rw [isWordUnit, hadd]
    exact decide_eq_true (by omega)
  · exact h

theorem ascii_word {u : UInt16} (h : isWordUnit u = true) : u.toNat < 0x80 := by
  have hrange := of_decide_eq_true h
  omega

section
variable {casing : CaseMapping} {raw : JsString}

theorem isWord_workspaceId {workspaceId : JsString} (h : workspaceIdOrFail casing raw = .ok workspaceId) :
    IsWord raw ∧ IsWord workspaceId := by
  rw [workspaceIdOrFail] at h
  split at h
  · next hmatch =>
    have hword := isWord_matchesGroups hmatch
    have hne : raw.units ≠ [] := by
      rintro hnil
      rw [hnil] at hmatch
      cases hmatch
    have hlower := toLowerCase_map casing fun u hu => ascii_word (hword u hu)
    refine ⟨⟨hne, hword⟩, ?_⟩
    rw [← Except.ok.inj h, IsWord, hlower]
    refine ⟨fun hnil => hne (List.map_eq_nil_iff.mp hnil), fun u hu => ?_⟩
    obtain ⟨v, hv, rfl⟩ := List.mem_map.mp hu
    exact isWord_lowerUnit (hword v hv)
  · cases h

theorem digits_port {port : Nat} (h : portOrFail raw = .ok port) :
    raw.units ≠ [] ∧ ∀ u ∈ raw.units, isDigit u = true := by
  rw [portOrFail] at h
  split at h
  · next hport =>
    obtain ⟨⟨hlength, -, hdigits⟩, -⟩ := hport
    refine ⟨fun hnil => ?_, List.all_eq_true.mp hdigits⟩
    rw [hnil] at hlength
    cases hlength
  · cases h

end

theorem isWord_natText (n : Nat) : IsWord (natText n) := by
  have hunits : (natText n).units = (Nat.toDigits 10 n).flatMap encode := by
    rw [← chars_natText]
    exact (congrArg units ((ofChars_chars_eq_iff _).mpr (isWellFormed_ofChars _))).symm
  constructor
  · intro hnil
    obtain ⟨c, cs, hcons⟩ := List.exists_cons_of_ne_nil (Nat.toDigits_ne_nil (b := 10) (n := n))
    have hpos := length_encode_pos c
    rw [hunits, hcons, List.flatMap_cons, List.append_eq_nil_iff] at hnil
    rw [hnil.1] at hpos
    cases hpos
  · intro u hu
    rw [hunits] at hu
    obtain ⟨c, hc, hu⟩ := List.mem_flatMap.mp hu
    have hdigit := isDigit_toDigits c hc
    have hrange : 0x30 ≤ c.toNat ∧ c.toNat ≤ 0x39 := by
      rw [Char.isDigit, Bool.and_eq_true, decide_eq_true_eq, decide_eq_true_eq] at hdigit
      exact hdigit
    rw [encode, if_pos (by omega), List.mem_singleton] at hu
    have hnat : u.toNat = c.toNat := by
      rw [hu]
      exact toNat_ofNat16 (by omega)
    exact decide_eq_true (by omega)

theorem encodeURIComponent_word {s : JsString} (h : IsWord s) : encodeURIComponent s = some s := by
  have hplain : ∀ u ∈ s.units, isSurrogate u = false := fun u hu => (loneChar_word (h.2 u hu)).1
  have hwell : s.isWellFormed = true := by
    have happend := Json.wellFormedUnits_append hplain []
    rw [List.append_nil] at happend
    exact happend
  have hchars (us : List UInt16) (hus : ∀ u ∈ us, isWordUnit u = true) :
      ∀ c ∈ decode us, isUnreserved c = true := by
    induction us with
    | nil => exact fun c hc => (nomatch hc)
    | cons u us ih =>
      obtain ⟨hsurrogate, hchar⟩ := loneChar_word (hus u List.mem_cons_self)
      rw [decode_cons_of_not_lead (Bool.or_eq_false_iff.mp hsurrogate).1]
      intro c hc
      rcases List.mem_cons.mp hc with rfl | hc
      · rcases hchar with halphanum | hhyphen
        · rw [isUnreserved, halphanum, Bool.true_or]
        · rw [hhyphen]
          rfl
      · exact ih (fun v hv => hus v (List.mem_cons_of_mem _ hv)) c hc
  exact encodeURIComponent_unreserved hwell (hchars s.units h.2)

/-! ## a target that is spelled as the handler expects it -/

theorem routeUnit_slash {u : UInt16} (h : routeUnit u = 0x2F) : u = 0x2F ∨ u = 0x5C := by
  rw [routeUnit] at h
  split at h
  · next hback => exact .inr hback
  · rw [lowerUnit] at h
    split at h
    · next hcapital =>
      have hnat := congrArg UInt16.toNat h
      rw [UInt16.toNat_add] at hnat
      simp at hnat
      omega
    · exact .inl h

theorem takeWhile_slash {front : List UInt16} (h : 0x2F ∉ front) (rest : List UInt16) :
    (front ++ rest).takeWhile (· ≠ 0x2F) = front ++ rest.takeWhile (· ≠ 0x2F) :=
  List.takeWhile_append_of_pos fun u hu => decide_eq_true fun heq => h (heq ▸ hu)

section
variable {target : Routed}

/-- the text of the id is the id, where a slash follows it -/
theorem idText_eq {id rest later : List UInt16} (hid : ∀ u ∈ id, isWordUnit u = true)
    (heq : id ++ ((lit "/preview/").units ++ rest) = target.idText ++ (target.middle ++ later)) :
    id = target.idText := by
  have hslash (v : UInt16) (hv : isWordUnit v = false) : v ∉ id := fun hmem => by
    rw [hid v hmem] at hv
    cases hv
  have htake := congrArg (List.takeWhile fun u : UInt16 => decide (u ≠ 0x2F)) heq
  rw [takeWhile_slash (hslash 0x2F (by decide)), takeWhile_slash target.id_inside] at htake
  cases hmiddle : target.middle with
  | nil =>
    have hmap := target.middle_eq
    rw [hmiddle] at hmap
    cases hmap
  | cons m middle =>
    have hmap := target.middle_eq
    rw [hmiddle, List.map_cons] at hmap
    have hstop : ((lit "/preview/").units ++ rest).takeWhile (fun u : UInt16 => decide (u ≠ 0x2F)) = [] := rfl
    rw [hmiddle, hstop, List.append_nil, List.cons_append, List.takeWhile_cons] at htake
    rcases routeUnit_slash (List.cons.inj hmap).1 with rfl | rfl
    · rw [htake]
      exact List.append_nil _
    · refine absurd ?_ (hslash 0x5C (by decide))
      rw [htake]
      exact List.mem_append_right _ List.mem_cons_self

theorem delimiter_digit {u : UInt16} (h : isDigit u = true) : endsAuthority u = false ∧ isSpace u = false := by
  have hall : ∀ n < 10, endsAuthority (UInt16.ofNat (0x30 + n)) = false ∧
      isSpace (UInt16.ofNat (0x30 + n)) = false := by decide
  have hrange := of_decide_eq_true h
  have hu : UInt16.ofNat (0x30 + (u.toNat - 0x30)) = u := by
    rw [Nat.add_sub_cancel' hrange.1, UInt16.ofNat_toNat]
  rw [← hu]
  exact hall _ (by omega)

/-- the text of the port is the port -/
theorem tail_eq {rest : List UInt16} (hport : ∀ u ∈ target.rawPort.units, isDigit u = true)
    (heq : target.rawPort.units ++ rest = target.portText ++ target.tail) : rest = target.tail := by
  have hpercent : percentSign ∉ target.rawPort.units := fun hmem => absurd (hport _ hmem) (by decide)
  rcases List.append_eq_append_iff.mp heq with ⟨more, hmore, hrest⟩ | ⟨more, hmore, hrest⟩
  · have hdecoded := target.port_decoded
    rw [hmore] at hdecoded
    rw [hrest, eq_nil_of_decoded hpercent hdecoded, List.nil_append]
  · cases more with
    | nil => rw [hrest, List.nil_append]
    | cons u more =>
      have hdigit := hport u (by rw [hmore]; exact List.mem_append_right _ List.mem_cons_self)
      have hhead := target.tail_head u (by rw [hrest]; exact rfl)
      rw [(delimiter_digit hdigit).1, (delimiter_digit hdigit).2] at hhead
      rcases hhead with hends | hspace
      · cases hends
      · cases hspace

theorem originalUrl_spelled {start : JsString} (hid : IsWord target.rawWorkspaceId)
    (hport : ∀ u ∈ target.rawPort.units, isDigit u = true)
    (hstart : targetPrefix target.rawWorkspaceId target.rawPort = some start)
    (hstarts : start.units <+: target.originalUrl.units) : target.originalUrl.units = start.units ++ target.tail := by
  rw [targetPrefix, encodeURIComponent_word hid, Option.map_some] at hstart
  have hunits : start.units = (lit "/api/terminal/workspaces/").units ++ (target.rawWorkspaceId.units ++
      ((lit "/preview/").units ++ target.rawPort.units)) := by
    rw [← Option.some.inj hstart]
    simp only [units_append, List.append_assoc]
  obtain ⟨rest, hrest⟩ := hstarts
  have htext : target.originalUrl.units = target.origin ++ (target.head ++ (target.idText ++ (target.middle ++
    (target.portText ++ target.tail)))) := rfl
  rw [← hrest]
  rw [hunits, htext] at hrest
  have horigin : target.origin = [] := by
    cases horigin : target.origin with
    | nil => rfl
    | cons u origin =>
      rw [horigin] at hrest
      have hhead := target.origin_head
      rw [horigin] at hhead
      exact absurd (congrArg some (List.cons.inj hrest).1.symm) hhead
  rw [horigin, List.nil_append] at hrest
  simp only [List.append_assoc] at hrest
  have hlength : (lit "/api/terminal/workspaces/").units.length = target.head.length := by
    rw [← target.head_eq, List.length_map]
  obtain ⟨-, hafter⟩ := List.append_inj hrest hlength
  have hidText := idText_eq hid.2 hafter
  rw [hidText] at hafter
  have hmiddle : (lit "/preview/").units.length = target.middle.length := by
    rw [← target.middle_eq, List.length_map]
  obtain ⟨-, hafter⟩ := List.append_inj (List.append_cancel_left hafter) hmiddle
  rw [tail_eq hport hafter]

end

/-! ## the address of a port -/

/-- a base of the Executor that `fetch` reads as it stands -/
structure Executor (sets : EncodeSets) where
  rawUrl : JsString
  base : Base sets
  baseUrl_eq : baseUrl rawUrl = ⟨base.text⟩

def proxySegment : List UInt16 := (lit "proxy").units

section
variable {sets : EncodeSets} (executor : Executor sets) (workspaceId : JsString) (port : Nat)

def Executor.address : List (List UInt16) :=
  executor.base.path ++ [workspaceId.units, proxySegment] ++ [(natText port).units]

/-- the path and the query as they were; a path that is empty is sent as a slash -/
def SentAs (address : List (List UInt16)) (tail : List UInt16) (url : Url) : Prop :=
  url.query = queryPart tail ∧ (pathText url.path = pathText address ++ pathPart tail ∨
    pathPart tail = [] ∧ pathText url.path = pathText address ++ [0x2F])

structure AtAddress (tail : List UInt16) (url : Url) : Prop where
  scheme : url.scheme = executor.base.scheme
  authority : url.authority = executor.base.authority
  below : executor.address workspaceId port <+: url.path
  exact : NoDots tail → SentAs (executor.address workspaceId port) tail url

/-- what the handler gives to `fetch` for a target is at the address of its port -/
def Confined (casing : CaseMapping) (target : Routed) (req : Request) : Prop :=
  ∀ workspaceId port out url, workspaceIdOrFail casing target.rawWorkspaceId = .ok workspaceId →
    portOrFail target.rawPort = .ok port →
    preview casing executor.rawUrl target.originalUrl target.rawWorkspaceId target.rawPort req = .ok (some out) →
    parse sets out.url.units = some url → AtAddress executor workspaceId port target.tail url

/-! ## where it is -/

/-- `originalUrl.startsWith(prefix)` -/
def Spelled (target : Routed) : Prop :=
  ∃ start, targetPrefix target.rawWorkspaceId target.rawPort = some start ∧ start.units <+: target.originalUrl.units

/-- the segments below `proxy`: the port and what follows it -/
def belowProxy (tail : List UInt16) : List (List UInt16) :=
  tailSegments (pathPart (cleanedTail (0x2F :: ((natText port).units ++ (pathAndQuery ⟨tail⟩).units))))

/-- the segments that are taken back above `proxy` are named again, and the port after them -/
def Returns (tail : List UInt16) : Prop :=
  (executor.address workspaceId port).drop
      ((executor.address workspaceId port).length - 1 - (climbed sets (belowProxy port tail)).1)
    <+: (climbed sets (belowProxy port tail)).2

/-- neither a path nor a query -/
def Trivial (tail : List UInt16) : Prop := (pathPart tail = [] ∨ pathPart tail = [0x2F]) ∧ queryPart tail = none

structure Meets (target : Routed) : Prop where
  returns : Spelled target → Returns executor workspaceId port target.tail
  exact : NoDots target.tail → Unchanged sets target.tail ∧ (Spelled target ∨ Trivial target.tail)

end

/-! ## what follows the port -/

section
variable {sets : EncodeSets}

theorem pathAndQuery_cases (tail : List UInt16) : (pathAndQuery ⟨tail⟩).units = tail ∨
    pathPart tail = [] ∧ (pathAndQuery ⟨tail⟩).units = 0x2F :: tail := by
  rw [pathAndQuery]
  split
  · next hempty =>
    refine .inr ⟨?_, rfl⟩
    rcases hempty with hnil | hmark
    · have htail : tail = [] := congrArg units hnil
      rw [htail]
      rfl
    · obtain ⟨rest, hrest⟩ := List.head?_eq_some_iff.mp hmark
      have htail : tail = 0x3F :: rest := hrest
      rw [htail]
      rfl
  · exact .inl rfl

theorem parts_slash (tail : List UInt16) :
    pathPart (0x2F :: tail) = 0x2F :: pathPart tail ∧ queryPart (0x2F :: tail) = queryPart tail := by
  have hslash : ∀ u ∈ ([0x2F] : List UInt16), u ≠ 0x23 ∧ u ≠ 0x3F := by decide
  exact ⟨pathPart_append tail hslash, queryPart_append tail hslash⟩

theorem noDots_slash {tail : List UInt16} (h : NoDots tail) (hnil : pathPart tail = []) : NoDots (0x2F :: tail) where
  segments := by
    rw [(parts_slash tail).1, hnil]
    decide
  backslash := by
    rw [List.mem_cons, not_or]
    exact ⟨by decide, h.backslash⟩

theorem unchanged_slash {tail : List UInt16} (h : Unchanged sets tail) (hnil : pathPart tail = []) :
    Unchanged sets (0x2F :: tail) where
  path := by
    rw [(parts_slash tail).1, hnil]
    exact fun u hu => .inl (List.mem_singleton.mp hu)
  query := by
    rw [(parts_slash tail).2]
    exact h.query

theorem Trivial.unchanged {tail : List UInt16} (h : Trivial tail) : Unchanged sets tail where
  path := by
    rcases h.1 with hnil | hslash
    · rw [hnil]
      exact fun u hu => (nomatch hu)
    · rw [hslash]
      exact fun u hu => .inl (List.mem_singleton.mp hu)
  query := by
    rw [h.2]
    exact fun q hq => (nomatch hq)

end

/-! ## the URL -/

/-- the slash before the port is not cleaned -/
theorem head_below (port : Nat) (rest : List UInt16) :
    ∀ u ∈ (cleanedTail (0x2F :: ((natText port).units ++ rest))).head?, endsAuthority u = true := by
  have hrange : ∀ u ∈ 0x2F :: (natText port).units, 0x20 < u.toNat := by
    intro u hu
    rcases List.mem_cons.mp hu with rfl | hu
    · decide
    · have hword := of_decide_eq_true ((isWord_natText port).2 u hu)
      omega
  have hclean := cleanedTail_append hrange (List.cons_ne_nil _ _) rest
  rw [List.cons_append] at hclean
  rw [hclean]
  intro u hu
  rw [← Option.some.inj hu]
  rfl

section
variable {sets : EncodeSets} {executor : Executor sets} {workspaceId : JsString} {port : Nat} (hid : IsWord workspaceId)
include hid

theorem kept_address : ∀ segment ∈ [workspaceId.units, proxySegment], WhatwgUrl.Kept sets.path segment := by
  have hproxy : proxySegment ≠ [] ∧ ∀ u ∈ proxySegment, isWordUnit u = true := by decide
  intro segment hsegment
  rcases List.mem_cons.mp hsegment with rfl | hsegment
  · exact (kept_word sets.path hid.1 hid.2).1
  · rw [List.mem_singleton.mp hsegment]
    exact (kept_word sets.path hproxy.1 hproxy.2).1

/-- the URL is that of `proxy`, with the port and the rest behind it -/
theorem proxyUrl_below (rest : JsString) : proxyUrl executor.rawUrl workspaceId port rest
    = some ⟨(executor.base.below [workspaceId.units, proxySegment] (kept_address hid)).text ++ 0x2F :: ((natText port).units ++ rest.units)⟩ := by
  rw [proxyUrl, encodeURIComponent_word hid, executor.baseUrl_eq, Option.map_some, Base.below_text]
  refine congrArg some (ext_units ?_)
  have hproxy : (lit "/proxy/").units = 0x2F :: (proxySegment ++ [0x2F]) := by decide
  have hslash : (lit "/").units = [0x2F] := rfl
  simp only [units_append, hproxy, hslash, pathText, List.flatMap_cons, List.flatMap_nil, List.append_assoc,
    List.cons_append, List.nil_append, List.append_nil]

/-- at the address or below it -/
theorem below_iff {tail : List UInt16} {url : Url}
    (h : parse sets ((executor.base.below [workspaceId.units, proxySegment] (kept_address hid)).text
      ++ 0x2F :: ((natText port).units ++ (pathAndQuery ⟨tail⟩).units)) = some url) :
    executor.address workspaceId port <+: url.path ↔ Returns executor workspaceId port tail := by
  rw [parse_below _ (head_below port _)] at h
  have hlength : (executor.address workspaceId port).length - 1
      = (executor.base.below [workspaceId.units, proxySegment] (kept_address hid)).path.length := by
    rw [Executor.address, List.length_append, List.length_singleton, Nat.add_sub_cancel]
    rfl
  have haddress : executor.address workspaceId port
      = (executor.base.below [workspaceId.units, proxySegment] (kept_address hid)).path ++ [(natText port).units] := rfl
  have htake (n : Nat) : (executor.base.below [workspaceId.units, proxySegment] (kept_address hid)).path.take
      ((executor.base.below [workspaceId.units, proxySegment] (kept_address hid)).path.length - n)
        = (executor.address workspaceId port).take ((executor.address workspaceId port).length - 1 - n) := by
    rw [hlength, haddress, List.take_append_of_le_length (Nat.sub_le _ _)]
  rw [← Option.some.inj h, Returns, ← belowProxy]
  simp only [htake]
  conv_lhs =>
    lhs
    rw [← List.take_append_drop ((executor.address workspaceId port).length - 1
      - (climbed sets (belowProxy port tail)).1) (executor.address workspaceId port)]
  exact List.prefix_append_right_inj _

variable (executor port) in
/-- what stays as it is is sent as it is -/
theorem sent_unchanged {rest : List UInt16} (hdots : NoDots rest) (hplain : Unchanged sets rest) :
    ∃ url, parse sets ((executor.base.below [workspaceId.units, proxySegment] (kept_address hid)).text
      ++ 0x2F :: ((natText port).units ++ rest)) = some url ∧ url.query = queryPart rest ∧
      pathText url.path = pathText (executor.address workspaceId port) ++ pathPart rest := by
  obtain ⟨hkept, hname⟩ := kept_word sets.path (isWord_natText port).1 (isWord_natText port).2
  obtain ⟨hparse, hpath⟩ := parse_unchanged (executor.base.below [workspaceId.units, proxySegment] (kept_address hid))
    hkept hname hdots hplain
  refine ⟨_, hparse, rfl, hpath.trans ?_⟩
  have haddress : executor.address workspaceId port
      = (executor.base.below [workspaceId.units, proxySegment] (kept_address hid)).path ++ [(natText port).units] := rfl
  rw [haddress, pathText_append, List.append_assoc]
  simp only [pathText, List.flatMap_cons, List.flatMap_nil, List.append_nil, List.cons_append]

theorem exact_spelled {tail : List UInt16} {url : Url} (hdots : NoDots tail)
    (h : parse sets ((executor.base.below [workspaceId.units, proxySegment] (kept_address hid)).text
      ++ 0x2F :: ((natText port).units ++ (pathAndQuery ⟨tail⟩).units)) = some url) :
    SentAs (executor.address workspaceId port) tail url ↔ Unchanged sets tail := by
  constructor
  · rintro ⟨hquery, hpath⟩
    obtain ⟨hplain, hencoded⟩ := parse_plain _ (head_below port _) h
    constructor
    · intro u hu
      rcases hpath with hpath | ⟨hnil, -⟩
      · refine hplain u ?_
        rw [hpath]
        exact List.mem_append_right _ hu
      · rw [hnil] at hu
        cases hu
    · rw [← hquery]
      exact hencoded
  · intro hplain
    rcases pathAndQuery_cases tail with hrest | ⟨hnil, hrest⟩
    · obtain ⟨sent, hparse, hquery, hpath⟩ := sent_unchanged executor port hid hdots hplain
      rw [hrest, hparse] at h
      rw [← Option.some.inj h]
      exact ⟨hquery, .inl hpath⟩
    · obtain ⟨sent, hparse, hquery, hpath⟩ := sent_unchanged executor port hid
        (noDots_slash hdots hnil) (unchanged_slash hplain hnil)
      rw [hrest, hparse] at h
      rw [← Option.some.inj h]
      rw [(parts_slash tail).1, hnil] at hpath
      rw [(parts_slash tail).2] at hquery
      exact ⟨hquery, .inr ⟨hnil, hpath⟩⟩

/-- the root of the port is sent for a target that is spelled otherwise -/
theorem sent_root {url : Url}
    (h : parse sets ((executor.base.below [workspaceId.units, proxySegment] (kept_address hid)).text
      ++ 0x2F :: ((natText port).units ++ [0x2F])) = some url) :
    executor.address workspaceId port <+: url.path ∧ url.query = none ∧
      pathText url.path = pathText (executor.address workspaceId port) ++ [0x2F] := by
  have hdots : NoDots [0x2F] := ⟨by decide, by decide⟩
  have hplain : Unchanged sets [0x2F] := Trivial.unchanged ⟨.inr rfl, rfl⟩
  obtain ⟨sent, hsent, hquery, hpath⟩ := sent_unchanged executor port hid hdots hplain
  obtain ⟨hkept, hname⟩ := kept_word sets.path (isWord_natText port).1 (isWord_natText port).2
  have hinside : ∀ u ∈ (natText port).units, isSlash u = false := by
    intro u hu
    have hends := hkept.inside u hu
    rw [endsAuthority, Bool.or_eq_false_iff, Bool.or_eq_false_iff] at hends
    exact hends.1.1
  obtain ⟨hparse, -⟩ := parse_unchanged (executor.base.below [workspaceId.units, proxySegment] (kept_address hid))
    hkept hname hdots hplain
  have hslash : (pathPart [0x2F]).splitOnP isSlash = [[], []] := rfl
  have hsplit : ((natText port).units ++ pathPart [0x2F]).splitOnP isSlash = [(natText port).units ++ [], []] :=
    splitOnP_append_front hinside hslash
  rw [hsplit, List.append_nil] at hparse
  rw [h] at hsent hparse
  rw [Option.some.inj hsent]
  refine ⟨?_, hquery, hpath⟩
  rw [← Option.some.inj hsent, Option.some.inj hparse]
  refine ⟨[[]], ?_⟩
  rw [Executor.address, List.append_assoc]
  rfl

end

/-! ## the handler -/

section
variable {sets : EncodeSets} {casing : CaseMapping} {executor : Executor sets} {target : Routed} {req : Request}
  {workspaceId : JsString} {port : Nat} (hworkspace : workspaceIdOrFail casing target.rawWorkspaceId = .ok workspaceId)
  (hport : portOrFail target.rawPort = .ok port)
include hworkspace hport

theorem restOf_tail {start : JsString} (hstart : targetPrefix target.rawWorkspaceId target.rawPort = some start) :
    (Spelled target → restOf start target.originalUrl = ⟨target.tail⟩) ∧
      (¬Spelled target → restOf start target.originalUrl = lit "") := by
  constructor
  · rintro ⟨start', hstart', hstarts⟩
    rw [hstart] at hstart'
    rw [← Option.some.inj hstart'] at hstarts
    have hspelled := originalUrl_spelled (isWord_workspaceId hworkspace).1 (digits_port hport).2 hstart hstarts
    rw [restOf, if_pos hstarts, hspelled, List.drop_left]
  · intro hspelled
    exact if_neg fun hstarts => hspelled ⟨start, hstart, hstarts⟩

/-- what is given to `fetch` -/
theorem preview_url {out : Outgoing}
    (h : preview casing executor.rawUrl target.originalUrl target.rawWorkspaceId target.rawPort req = .ok (some out)) :
    (∃ body, previewRequestBody req = .ok body) ∧
      (Spelled target → out.url.units
        = (executor.base.below [workspaceId.units, proxySegment] (kept_address (isWord_workspaceId hworkspace).2)).text
          ++ 0x2F :: ((natText port).units ++ (pathAndQuery ⟨target.tail⟩).units)) ∧
      (¬Spelled target → out.url.units
        = (executor.base.below [workspaceId.units, proxySegment] (kept_address (isWord_workspaceId hworkspace).2)).text
          ++ 0x2F :: ((natText port).units ++ [0x2F])) := by
  have hid := isWord_workspaceId hworkspace
  rw [preview, hworkspace, hport] at h
  cases hbody : previewRequestBody req with
  | error message =>
    rw [hbody] at h
    cases h
  | ok body =>
    rw [hbody] at h
    have hstart : targetPrefix target.rawWorkspaceId target.rawPort = some (lit "/api/terminal/workspaces/" ++
        target.rawWorkspaceId ++ lit "/preview/" ++ target.rawPort) := by
      rw [targetPrefix, encodeURIComponent_word hid.1, Option.map_some]
    have hout := Except.ok.inj h
    rw [hstart, Option.bind_some, proxyUrl_below hid.2, Option.map_some] at hout
    obtain ⟨hspelled, hlost⟩ := restOf_tail hworkspace hport hstart
    refine ⟨⟨body, rfl⟩, fun hs => ?_, fun hs => ?_⟩
    · rw [← Option.some.inj hout, hspelled hs]
    · rw [← Option.some.inj hout, hlost hs]
      rfl

variable (executor) in
theorem preview_some {body : Option (List UInt8)} (hbody : previewRequestBody req = .ok body) :
    ∃ out, preview casing executor.rawUrl target.originalUrl target.rawWorkspaceId target.rawPort req
      = .ok (some out) := by
  have hid := isWord_workspaceId hworkspace
  have hstart : targetPrefix target.rawWorkspaceId target.rawPort = some (lit "/api/terminal/workspaces/" ++
      target.rawWorkspaceId ++ lit "/preview/" ++ target.rawPort) := by
    rw [targetPrefix, encodeURIComponent_word hid.1, Option.map_some]
  obtain ⟨start, hsome⟩ : ∃ start, targetPrefix target.rawWorkspaceId target.rawPort = some start := ⟨_, hstart⟩
  obtain ⟨url, hurl⟩ : ∃ url, proxyUrl executor.rawUrl workspaceId port
      (pathAndQuery (restOf start target.originalUrl)) = some url := ⟨_, proxyUrl_below hid.2 _⟩
  refine ⟨⟨req.method, url, previewRequestHeaders req, body⟩, ?_⟩
  rw [preview, hworkspace, hport, hbody]
  show Except.ok _ = Except.ok (some _)
  rw [hsome, Option.bind_some, hurl, Option.map_some]

/-- what is given to `fetch` is a URL of the Executor -/
theorem parsed_origin {out : Outgoing}
    (hout : preview casing executor.rawUrl target.originalUrl target.rawWorkspaceId target.rawPort req = .ok (some out)) :
    ∃ url, parse sets out.url.units = some url ∧ url.scheme = executor.base.scheme ∧
      url.authority = executor.base.authority := by
  obtain ⟨-, hspelled, hlost⟩ := preview_url hworkspace hport hout
  by_cases hs : Spelled target
  · rw [hspelled hs]
    exact ⟨_, parse_below _ (head_below port _), rfl, rfl⟩
  · rw [hlost hs]
    exact ⟨_, parse_below _ (head_below port _), rfl, rfl⟩

theorem atAddress_iff {out : Outgoing} {url : Url}
    (hout : preview casing executor.rawUrl target.originalUrl target.rawWorkspaceId target.rawPort req = .ok (some out))
    (hparse : parse sets out.url.units = some url) :
    AtAddress executor workspaceId port target.tail url ↔ Meets executor workspaceId port target := by
  have hid := (isWord_workspaceId hworkspace).2
  obtain ⟨parsed, hparsed, hscheme, hauthority⟩ := parsed_origin hworkspace hport hout
  rw [hparse] at hparsed
  rw [← Option.some.inj hparsed] at hscheme hauthority
  obtain ⟨-, hspelled, hlost⟩ := preview_url hworkspace hport hout
  by_cases hs : Spelled target
  · rw [hspelled hs] at hparse
    have hbelow := below_iff hid hparse
    constructor
    · intro hat
      exact ⟨fun _ => hbelow.mp hat.below, fun hdots =>
        ⟨(exact_spelled hid hdots hparse).mp (hat.exact hdots), .inl hs⟩⟩
    · intro hmeets
      exact ⟨hscheme, hauthority, hbelow.mpr (hmeets.returns hs), fun hdots =>
        (exact_spelled hid hdots hparse).mpr (hmeets.exact hdots).1⟩
  · rw [hlost hs] at hparse
    obtain ⟨hbelow, hquery, hpath⟩ := sent_root hid hparse
    have hsent : SentAs (executor.address workspaceId port) target.tail url ↔ Trivial target.tail := by
      rw [SentAs, Trivial, hquery, hpath, and_comm, List.append_cancel_left_eq]
      constructor
      · rintro ⟨hslash | ⟨hnil, -⟩, hnone⟩
        · exact ⟨.inr hslash.symm, hnone.symm⟩
        · exact ⟨.inl hnil, hnone.symm⟩
      · rintro ⟨hnil | hslash, hnone⟩
        · exact ⟨.inr ⟨hnil, rfl⟩, hnone.symm⟩
        · exact ⟨.inl hslash.symm, hnone.symm⟩
    constructor
    · intro hat
      exact ⟨fun hspelled => absurd hspelled hs, fun hdots =>
        ⟨(hsent.mp (hat.exact hdots)).unchanged, .inr (hsent.mp (hat.exact hdots))⟩⟩
    · intro hmeets
      exact ⟨hscheme, hauthority, hbelow, fun hdots =>
        hsent.mpr ((hmeets.exact hdots).2.resolve_left hs)⟩

end

section
variable {sets : EncodeSets} (casing : CaseMapping) (executor : Executor sets) (target : Routed) (req : Request)

/-- **a preview request goes to the address of its port, and as it came**, exactly if what climbs above the
port comes back to it, and a target that has nothing to resolve has nothing to encode either and is
spelled as the handler expects -/
theorem confined_iff : Confined executor casing target req ↔
    ∀ workspaceId port, workspaceIdOrFail casing target.rawWorkspaceId = .ok workspaceId →
      portOrFail target.rawPort = .ok port → (∃ body, previewRequestBody req = .ok body) →
      Meets executor workspaceId port target := by
  constructor
  · rintro hconfined workspaceId port hworkspace hport ⟨body, hbody⟩
    obtain ⟨out, hout⟩ := preview_some executor hworkspace hport hbody
    obtain ⟨url, hparse, -⟩ := parsed_origin hworkspace hport hout
    exact (atAddress_iff hworkspace hport hout hparse).mp
      (hconfined workspaceId port out url hworkspace hport hout hparse)
  · intro hmeets workspaceId port out url hworkspace hport hout hparse
    have hbody := (preview_url hworkspace hport hout).1
    exact (atAddress_iff hworkspace hport hout hparse).mpr (hmeets workspaceId port hworkspace hport hbody)

end

/-! ## a target that climbs out -/

def jinExecutor : Executor standard where
  rawUrl := lit "http://jin-executor:3000"
  base :=
    { scheme := (lit "http").units
      authority := (lit "jin-executor:3000").units
      path := [(lit "terminal").units, (lit "workspaces").units]
      scheme_eq := .inl rfl
      authority_ne := by decide
      authority_inside := by decide
      path_ne := by decide
      path_kept := by
        have hwords : ∀ segment ∈ [(lit "terminal").units, (lit "workspaces").units],
            segment ≠ [] ∧ ∀ u ∈ segment, isWordUnit u = true := by decide
        exact fun segment hsegment => (kept_word _ (hwords segment hsegment).1 (hwords segment hsegment).2).1 }
  baseUrl_eq := by decide

def sampleId : JsString := lit "11111111-1111-4111-8111-111111111111"

/-- the port 3000 of a workspace, and more -/
def routedTo (rest : String) : Routed where
  origin := []
  head := (lit "/api/terminal/workspaces/").units
  idText := sampleId.units
  middle := (lit "/preview/").units
  portText := (lit "3000").units
  tail := 0x2F :: (lit rest).units
  rawWorkspaceId := sampleId
  rawPort := lit "3000"
  origin_head := by decide
  head_eq := by decide
  middle_eq := by decide
  id_inside := by decide
  port_inside := by decide
  id_decoded := decodeURIComponent_plain (by decide)
  port_decoded := decodeURIComponent_plain (by decide)
  tail_head u hu := .inl (by rw [← Option.some.inj hu]; rfl)

def getRequest : Request := ⟨lit "GET", [], none, true, []⟩

/-- the pages of another workspace -/
theorem climbed_out : ¬Confined jinExecutor asciiCasing (routedTo "../../../other") getRequest := by
  intro h
  have hsent : ∃ out url, preview asciiCasing jinExecutor.rawUrl (routedTo "../../../other").originalUrl
      sampleId (lit "3000") getRequest = .ok (some out) ∧ parse standard out.url.units = some url ∧
      url.path = [(lit "terminal").units, (lit "workspaces").units, (lit "other").units] :=
    ⟨_, _, rfl, rfl, by decide⟩
  obtain ⟨out, url, hout, hparse, hpath⟩ := hsent
  have hbelow := (h sampleId 3000 out url (by decide) (by decide) hout hparse).below
  rw [hpath] at hbelow
  exact absurd hbelow (by decide)

end Preview
