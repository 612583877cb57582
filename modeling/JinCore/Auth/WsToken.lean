import JinCore.Js.Uri
import JinCore.Lib.Blanks

/-!
# The token of a handshake (`src/auth/ws-token.ts`)

* `parseCookies`      the pairs of a cookie header, none if a value does not decode;
* `extractWsToken`    `auth.token`, the cookie of the session or the `Authorization` header;
* `extractWsToken_throws_iff`   when it throws.
-/

namespace Auth
open JsString

/-- a value of a handshake, which is any JSON value -/
inductive JsValue where
  | falsy
  | text (s : JsString)
  /-- a number, an object, … -/
  | other
  deriving DecidableEq, Repr

def JsValue.isTruthy : JsValue → Bool
  | .falsy => false
  | .text s => !s.units.isEmpty
  | .other => true

structure Handshake where
  authToken : JsValue
  cookie : Option JsString
  authorization : Option JsString
  deriving DecidableEq, Repr

def sessionCookieName : JsString := lit "__Host-jin_session"

def semicolon : UInt16 := 0x3B
def equalsSign : UInt16 := 0x3D

def trim (units : List UInt16) : JsString := ⟨Blanks.trim isSpace units⟩

/-- the key and the value of a pair, as they stand in the header -/
def splitPair (pair : List UInt16) : Option (JsString × JsString) :=
  (pair.idxOf? equalsSign).map fun i => (trim (pair.take i), trim (pair.drop (i + 1)))

def cookiePairs (header : JsString) : List (JsString × JsString) :=
  (header.units.splitOn semicolon).filterMap splitPair

/-- the pairs with their values decoded, in the order of the header -/
def decodePairs : List (JsString × JsString) → Option (List (JsString × JsString))
  | [] => some []
  | (key, value) :: rest =>
    (decodeURIComponent value).bind fun value => (decodePairs rest).map ((key, value) :: ·)

/-- none if it throws -/
def parseCookies : Option JsString → Option (List (JsString × JsString))
  | none => some []
  | some header => if header.units = [] then some [] else decodePairs (cookiePairs header)

/-- a later cookie overwrites an earlier one of its name -/
def cookieNamed (cookies : List (JsString × JsString)) (name : JsString) : Option JsString :=
  ((cookies.filter fun cookie => cookie.1 = name).getLast?).map Prod.snd

def bearerPrefix : JsString := lit "Bearer "

def bearerToken : Option JsString → Option JsString
  | none => none
  | some header =>
    if bearerPrefix.units.isPrefixOf header.units then
      some ⟨header.units.drop bearerPrefix.units.length⟩
    else none

/-- none if it throws; the token may be undefined -/
def extractWsToken (handshake : Handshake) : Option (Option JsValue) :=
  if handshake.authToken.isTruthy then some (some handshake.authToken)
  else (parseCookies handshake.cookie).map fun cookies =>
    match (cookieNamed cookies sessionCookieName).filter fun token => !token.units.isEmpty with
    | some token => some (.text token)
    | none => (bearerToken handshake.authorization).map .text

/-! ## when it throws -/

/-- every value of the cookie header decodes -/
def CookiesDecode (handshake : Handshake) : Prop :=
  ∀ header, handshake.cookie = some header → ∀ pair ∈ cookiePairs header,
    decodeURIComponent pair.2 ≠ none

theorem decodePairs_eq_none_iff {pairs : List (JsString × JsString)} :
    decodePairs pairs = none ↔ ∃ pair ∈ pairs, decodeURIComponent pair.2 = none := by
  induction pairs with
  | nil => simp [decodePairs]
  | cons pair pairs ih =>
    obtain ⟨key, value⟩ := pair
    rw [decodePairs]
    cases hvalue : decodeURIComponent value with
    | none =>
      exact ⟨fun _ => ⟨(key, value), List.mem_cons_self, hvalue⟩, fun _ => rfl⟩
    | some decoded =>
      rw [Option.bind_some, Option.map_eq_none_iff, ih]
      constructor
      · rintro ⟨pair, hpair, hnone⟩
        exact ⟨pair, List.mem_cons_of_mem _ hpair, hnone⟩
      · rintro ⟨pair, hpair, hnone⟩
        rcases List.mem_cons.mp hpair with rfl | hpair
        · rw [hvalue] at hnone
          cases hnone
        · exact ⟨pair, hpair, hnone⟩

theorem parseCookies_ne_none_iff {handshake : Handshake} :
    parseCookies handshake.cookie ≠ none ↔ CookiesDecode handshake := by
  rw [CookiesDecode]
  cases handshake.cookie with
  | none => simp [parseCookies]
  | some header =>
    have hempty : header.units = [] → cookiePairs header = [] := by
      intro hunits
      rw [cookiePairs, hunits]
      rfl
    have hiff : parseCookies (some header) ≠ none ↔
        ∀ pair ∈ cookiePairs header, decodeURIComponent pair.2 ≠ none := by
      rw [parseCookies]
      split
      next hunits =>
        rw [hempty hunits]
        simp
      next =>
        rw [ne_eq, decodePairs_eq_none_iff, not_exists]
        exact ⟨fun h pair hpair hnone => h pair ⟨hpair, hnone⟩, fun h pair hpair => h pair hpair.1 hpair.2⟩
    rw [hiff]
    constructor
    · rintro h other hother
      cases hother
      exact h
    · exact fun h => h header rfl

/-- it throws exactly where there is no `auth.token` and a cookie does not decode -/
theorem extractWsToken_throws_iff {handshake : Handshake} : extractWsToken handshake = none ↔
    handshake.authToken.isTruthy = false ∧ ¬ CookiesDecode handshake := by
  rw [extractWsToken, ← parseCookies_ne_none_iff, not_not]
  cases handshake.authToken.isTruthy with
  | true => simp
  | false => simp

end Auth
