import JinCore.Js.Base64
import JinCore.Js.Date
import JinCore.Js.JsonText
import JinCore.Lib.Renewal
import JinCore.Lib.Runs
import JinCore.Push.Payloads

/-!
# The client of APNs (`apns.client.ts`)

`send` signs a provider token when the last one is old, takes the session of its environment or
connects, and sends its request; the answers, and the events of the sessions, come in any order.

* `parseReason`, `sendResult`      what Apple's answer means for the token of a device;
* `signProviderToken`              the token; `signProviderToken_read`;
* `ApnsClient.step`                one call or one event;
* `renewal`, `provider_token_fresh`   how old the token of a send is, and how often one is signed;
* `Connected`, `one_live_session`  the sessions that are open.
-/

namespace Push
open JsString Json

/-! ## answers -/

inductive ApnsSendResult where
  | ok
  | rejected (status : Nat) (reason : JsString) (invalidToken : Bool)
  deriving DecidableEq, Repr

/-- how a request ends: with a status and a body, or with what it throws -/
inductive Reply where
  | answered (status : Nat) (body : JsString)
  | threw (message : JsString)
  deriving DecidableEq, Repr

/-- `INVALID_TOKEN_REASONS` -/
def invalidTokenReasons : List JsString :=
  [lit "BadDeviceToken", lit "Unregistered", lit "DeviceTokenNotForTopic", lit "ExpiredToken"]

/-- `null` has no properties, and other values that are no objects have no `reason` -/
def parseReason (body : JsString) : JsString :=
  match parse body with
  | none | some .null => (truthy (some ⟨body.units.take 100⟩)).getD (lit "Unknown")
  | some (.object members) =>
    match members.lookup (lit "reason") with
    | some (.string reason) => reason
    | _ => lit "Unknown"
  | some _ => lit "Unknown"

def sendResult : Reply → ApnsSendResult
  | .answered status body =>
    if status = 200 then .ok
    else .rejected status (parseReason body) (status = 410 || invalidTokenReasons.contains (parseReason body))
  | .threw message => .rejected 0 message false

/-- the token is to be deleted -/
def ApnsSendResult.invalid : ApnsSendResult → Bool
  | .rejected _ _ invalidToken => invalidToken
  | .ok => false

/-! ## the provider token -/

structure ApnsCredentials where
  keyId : JsString
  teamId : JsString
  bundleId : JsString
  deriving DecidableEq, Repr

def jwtLifetimeMs : Int := 50 * 60 * 1000

def tokenHeader (c : ApnsCredentials) : Value :=
  .object [(lit "alg", .string (lit "ES256")), (lit "kid", .string c.keyId)]

def tokenClaims (c : ApnsCredentials) (issuedAt : Int) : Value :=
  .object [(lit "iss", .string c.teamId), (lit "iat", .number (.finite (seconds issuedAt)))]

/-- `base64url(JSON.stringify(value))` -/
def segment (value : Value) : JsString := Base64.encodeUrl (utf8 ⟨value.text⟩)

/-- `sign` is what `node:crypto` makes of the bytes: a signature differs each time -/
def signProviderToken (c : ApnsCredentials) (sign : List UInt8 → List UInt8) (issuedAt : Int) : JsString :=
  let signingInput := segment (tokenHeader c) ++ lit "." ++ segment (tokenClaims c issuedAt)
  signingInput ++ lit "." ++ Base64.encodeUrl (sign signingInput.utf8)

/-! ## the client -/

abbrev SessionId := Nat

/-- a `ClientHttp2Session` -/
structure Http2Session where
  environment : ApnsEnvironment
  closed : Bool
  destroyed : Bool
  deriving DecidableEq, Repr

def Http2Session.Live (session : Http2Session) : Prop := session.closed = false ∧ session.destroyed = false

instance (session : Http2Session) : Decidable session.Live := inferInstanceAs (Decidable (_ ∧ _))

inductive HeaderValue where
  | text (value : JsString)
  | number (value : Nat)
  deriving DecidableEq, Repr

def ApnsPushType.id : ApnsPushType → JsString
  | .alert => lit "alert"
  | .liveactivity => lit "liveactivity"
  | .background => lit "background"

def apnsTopic (c : ApnsCredentials) (pushType : ApnsPushType) : JsString :=
  if pushType = .liveactivity then c.bundleId ++ lit ".push-type.liveactivity" else c.bundleId

def apnsHeaders (c : ApnsCredentials) (token deviceToken : JsString) (notification : ApnsNotification) :
    List (JsString × HeaderValue) :=
  [(lit ":method", .text (lit "POST")), (lit ":path", .text (lit "/3/device/" ++ deviceToken)),
    (lit "authorization", .text (lit "bearer " ++ token)),
    (lit "apns-topic", .text (apnsTopic c notification.pushType)),
    (lit "apns-push-type", .text notification.pushType.id), (lit "apns-priority", .number notification.priority),
    (lit "apns-expiration", .number (notification.expiration.getD 0)),
    (lit "content-type", .text (lit "application/json"))] ++
    (notification.collapseId.map fun id => (lit "apns-collapse-id", HeaderValue.text id)).toList

/-- a request on a session; `reply` is `none` until it is settled -/
structure Request where
  sentAt : Int
  token : JsString
  environment : ApnsEnvironment
  session : SessionId
  headers : List (JsString × HeaderValue)
  payload : JsString
  reply : Option Reply
  deriving DecidableEq, Repr

/-- the sessions have the numbers in which they were opened; `requests` and `signed` are newest first -/
structure ApnsClient where
  credentials : ApnsCredentials
  cachedToken : Option (JsString × Int)
  sessions : ApnsEnvironment → Option SessionId
  opened : List Http2Session
  requests : List Request
  signed : List (JsString × Int)

namespace ApnsClient

def initial (credentials : ApnsCredentials) : ApnsClient := ⟨credentials, none, fun _ => none, [], [], []⟩

def providerToken (s : ApnsClient) (now : Int) (sign : List UInt8 → List UInt8) : JsString × ApnsClient :=
  match s.cachedToken.filter fun cached => now - cached.2 < jwtLifetimeMs with
  | some cached => (cached.1, s)
  | none =>
    let value := signProviderToken s.credentials sign now
    (value, { s with cachedToken := some (value, now), signed := (value, now) :: s.signed })

def setSession (s : ApnsClient) (environment : ApnsEnvironment) (id : Option SessionId) : ApnsClient :=
  { s with sessions := fun e => if e = environment then id else s.sessions e }

/-- `existing && !existing.closed && !existing.destroyed` -/
def existing (s : ApnsClient) (environment : ApnsEnvironment) : Option SessionId :=
  (s.sessions environment).filter fun id => s.opened[id]?.any fun session => session.Live

def session (s : ApnsClient) (environment : ApnsEnvironment) : SessionId × ApnsClient :=
  match s.existing environment with
  | some id => (id, s)
  | none =>
    (s.opened.length, setSession { s with opened := s.opened ++ [⟨environment, false, false⟩] } environment
      (some s.opened.length))

def mark (s : ApnsClient) (id : SessionId) (f : Http2Session → Http2Session) : ApnsClient :=
  { s with opened := s.opened.modify id f }

def dropSession (s : ApnsClient) (environment : ApnsEnvironment) : ApnsClient :=
  match s.sessions environment with
  | none => s
  | some id => (s.setSession environment none).mark id fun session => { session with destroyed := true }

/-- the part of `send` before its first await -/
def send (s : ApnsClient) (now : Int) (sign : List UInt8 → List UInt8) (environment : ApnsEnvironment)
    (deviceToken : JsString) (notification : ApnsNotification) : ApnsClient :=
  let signed := s.providerToken now sign
  let taken := signed.2.session environment
  { taken.2 with
    requests := ⟨now, signed.1, environment, taken.1, apnsHeaders s.credentials signed.1 deviceToken notification,
      ⟨notification.body.text⟩, none⟩ :: taken.2.requests }

/-- the rest of `send` -/
def settle (s : ApnsClient) (k : Nat) (request : Request) (reply : Reply) : ApnsClient :=
  let t := { s with requests := s.requests.set k { request with reply := some reply } }
  match reply with
  | .answered _ _ => t
  | .threw _ => t.dropSession request.environment

def close (s : ApnsClient) : ApnsClient :=
  { s with
    sessions := fun _ => none
    opened := s.opened.mapIdx fun id session =>
      if s.sessions .sandbox = some id ∨ s.sessions .production = some id then { session with closed := true }
      else session }

end ApnsClient

inductive ClientAction where
  | send (now : Int) (sign : List UInt8 → List UInt8) (environment : ApnsEnvironment) (deviceToken : JsString)
      (notification : ApnsNotification)
  /-- the `k`-th request from the last one is settled -/
  | settled (k : Nat) (reply : Reply)
  /-- `error` or `goaway` -/
  | event (id : SessionId)
  /-- the session is closed, or destroyed, from the other side -/
  | ended (id : SessionId) (destroyed : Bool)
  | close

namespace ApnsClient

def step (s : ApnsClient) : ClientAction → Option ApnsClient
  | .send now sign environment deviceToken notification =>
    some (s.send now sign environment deviceToken notification)
  | .settled k reply =>
    match s.requests[k]? with
    | some request => if request.reply = none then some (s.settle k request reply) else none
    | none => none
  | .event id => s.opened[id]?.map fun session => s.dropSession session.environment
  | .ended id destroyed =>
    some (s.mark id fun session => { session with closed := true, destroyed := session.destroyed || destroyed })
  | .close => some s.close

end ApnsClient

/-! ## how old a token is -/

namespace ApnsClient
variable {s t : ApnsClient}

/-- the cache of the provider token, with the tokens that were signed and sent -/
def renewal (s : ApnsClient) : Renewal JsString where
  cached := s.cachedToken
  made := s.signed
  uses := s.requests.map fun r => (r.sentAt, r.token)

theorem renewal_session (s : ApnsClient) (environment : ApnsEnvironment) :
    (s.session environment).2.renewal = s.renewal ∧ (s.session environment).2.credentials = s.credentials := by
  unfold session
  split <;> exact ⟨rfl, rfl⟩

theorem renewal_dropSession (s : ApnsClient) (environment : ApnsEnvironment) :
    (s.dropSession environment).renewal = s.renewal ∧ (s.dropSession environment).credentials = s.credentials := by
  unfold dropSession
  split <;> exact ⟨rfl, rfl⟩

theorem map_set_same {α β : Type} {f : α → β} {l : List α} {k : Nat} {a b : α} (hk : l[k]? = some a)
    (hf : f b = f a) : (l.set k b).map f = l.map f := by
  induction l generalizing k with
  | nil => rfl
  | cons x l ih =>
    cases k with
    | zero =>
      rw [List.getElem?_cons_zero, Option.some.injEq] at hk
      rw [List.set_cons_zero, List.map_cons, List.map_cons, hf, hk]
    | succ k =>
      rw [List.getElem?_cons_succ] at hk
      rw [List.set_cons_succ, List.map_cons, List.map_cons, ih hk]

theorem renewal_settle {k : Nat} {request : Request} (hk : s.requests[k]? = some request) (reply : Reply) :
    (s.settle k request reply).renewal = s.renewal ∧ (s.settle k request reply).credentials = s.credentials := by
  have hset : ({ s with requests := s.requests.set k { request with reply := some reply } } : ApnsClient).renewal =
      s.renewal := by
    unfold renewal
    rw [Renewal.mk.injEq]
    refine ⟨rfl, rfl, ?_⟩
    exact map_set_same hk rfl
  unfold settle
  cases reply with
  | answered status body => exact ⟨hset, rfl⟩
  | threw message =>
    obtain ⟨hrenewal, hcredentials⟩ := renewal_dropSession
      { s with requests := s.requests.set k { request with reply := some (.threw message) } } request.environment
    exact ⟨hrenewal.trans hset, hcredentials⟩

theorem renewal_send (s : ApnsClient) (now : Int) (sign : List UInt8 → List UInt8) (environment : ApnsEnvironment)
    (deviceToken : JsString) (notification : ApnsNotification) :
    (s.send now sign environment deviceToken notification).renewal =
        (s.renewal.use jwtLifetimeMs now (signProviderToken s.credentials sign now)).2 ∧
      (s.send now sign environment deviceToken notification).credentials = s.credentials := by
  have htoken : (s.providerToken now sign).2.credentials = s.credentials ∧
      ⟨(s.providerToken now sign).2.cachedToken, (s.providerToken now sign).2.signed,
        (now, (s.providerToken now sign).1) :: (s.providerToken now sign).2.renewal.uses⟩ =
      (s.renewal.use jwtLifetimeMs now (signProviderToken s.credentials sign now)).2 := by
    have hcached : s.renewal.cached = s.cachedToken := rfl
    unfold providerToken Renewal.use
    rw [hcached]
    cases s.cachedToken.filter fun c => decide (now - c.2 < jwtLifetimeMs) with
    | none => exact ⟨rfl, rfl⟩
    | some c => exact ⟨rfl, rfl⟩
  obtain ⟨hrenewal, hcredentials⟩ := renewal_session (s.providerToken now sign).2 environment
  unfold renewal at hrenewal
  rw [Renewal.mk.injEq] at hrenewal
  refine ⟨?_, hcredentials.trans htoken.1⟩
  rw [← htoken.2]
  unfold send
  show Renewal.mk _ _ ((now, _) :: _) = _
  rw [Renewal.mk.injEq]
  exact ⟨hrenewal.1, hrenewal.2.1, congrArg _ hrenewal.2.2⟩

/-- every step but a send leaves the tokens as they are -/
theorem renewal_step {action : ClientAction} (h : s.step action = some t) :
    t.credentials = s.credentials ∧ (t.renewal = s.renewal ∨ ∃ now sign environment deviceToken notification,
      action = .send now sign environment deviceToken notification ∧
        t.renewal = (s.renewal.use jwtLifetimeMs now (signProviderToken s.credentials sign now)).2) := by
  cases action with
  | send now sign environment deviceToken notification =>
    cases h
    obtain ⟨hrenewal, hcredentials⟩ := renewal_send s now sign environment deviceToken notification
    exact ⟨hcredentials, Or.inr ⟨now, sign, environment, deviceToken, notification, rfl, hrenewal⟩⟩
  | settled k reply =>
    cases hk : s.requests[k]? with
    | none => simp only [step, hk, reduceCtorEq] at h
    | some request =>
      simp only [step, hk] at h
      obtain ⟨-, h⟩ := Option.ite_none_right_eq_some.mp h
      cases h
      obtain ⟨hrenewal, hcredentials⟩ := renewal_settle hk reply
      exact ⟨hcredentials, Or.inl hrenewal⟩
  | event id =>
    obtain ⟨session, -, rfl⟩ := Option.map_eq_some_iff.mp h
    obtain ⟨hrenewal, hcredentials⟩ := renewal_dropSession s session.environment
    exact ⟨hcredentials, Or.inl hrenewal⟩
  | ended id destroyed =>
    cases h
    exact ⟨rfl, Or.inl rfl⟩
  | close =>
    cases h
    exact ⟨rfl, Or.inl rfl⟩

end ApnsClient

/-- a token was signed at an instant, whatever bytes the signature has -/
def SignedAt (c : ApnsCredentials) (token : JsString) (issuedAt : Int) : Prop :=
  ∃ sign, token = signProviderToken c sign issuedAt

/-- the clock does not go back -/
def ClockGoesOn (s : ApnsClient) : ClientAction → Prop
  | .send now _ _ _ _ => s.renewal.Later now
  | _ => True

/-- what was signed, and how old it was when it was sent -/
structure Fresh (c : ApnsCredentials) (s : ApnsClient) : Prop where
  credentials : s.credentials = c
  signed : ∀ m ∈ s.signed, SignedAt c m.1 m.2
  kept : s.renewal.Kept jwtLifetimeMs

theorem jwtLifetimeMs_pos : 0 < jwtLifetimeMs := by decide

section
variable {c : ApnsCredentials} {s t : ApnsClient} {action : ClientAction}

theorem fresh_step (h : Fresh c s) (hstep : s.step action = some t) : Fresh c t := by
  obtain ⟨hcredentials, hsame | ⟨now, sign, _, _, _, -, huse⟩⟩ := ApnsClient.renewal_step hstep
  · have hsigned : t.signed = s.signed := congrArg Renewal.made hsame
    refine ⟨hcredentials.trans h.credentials, ?_, ?_⟩
    · rw [hsigned]
      exact h.signed
    · rw [hsame]
      exact h.kept
  · have hsigned : t.signed = (s.renewal.use jwtLifetimeMs now (signProviderToken s.credentials sign now)).2.made :=
      congrArg Renewal.made huse
    refine ⟨hcredentials.trans h.credentials, ?_, ?_⟩
    · rw [hsigned]
      rcases Renewal.use_cases jwtLifetimeMs s.renewal now (signProviderToken s.credentials sign now) with
        ⟨_, _, -, -, hreused⟩ | ⟨-, hnew⟩
      · rw [hreused]
        exact h.signed
      · rw [hnew]
        intro m hm
        rcases List.mem_cons.mp hm with rfl | hm
        · exact ⟨sign, by rw [h.credentials]⟩
        · exact h.signed m hm
    · rw [huse]
      exact Renewal.kept_use h.kept jwtLifetimeMs_pos now _

theorem inTime_step (h : Fresh c s ∧ s.renewal.InTime jwtLifetimeMs) (hclock : ClockGoesOn s action)
    (hstep : s.step action = some t) : Fresh c t ∧ t.renewal.InTime jwtLifetimeMs := by
  refine ⟨fresh_step h.1 hstep, ?_⟩
  obtain ⟨-, hsame | ⟨now, sign, _, _, _, rfl, huse⟩⟩ := ApnsClient.renewal_step hstep
  · rw [hsame]
    exact h.2
  · rw [huse]
    exact Renewal.inTime_use h.2 h.1.kept jwtLifetimeMs_pos hclock _

theorem fresh_initial (c : ApnsCredentials) : Fresh c (.initial c) :=
  ⟨rfl, fun _ h => absurd h List.not_mem_nil, Renewal.kept_empty⟩

/-- a token is sent for less than fifty minutes after its signature; where the clock does not go back it is never sent
before, and two tokens are signed at least fifty minutes apart -/
theorem provider_token_fresh (c : ApnsCredentials) (actions : List ClientAction)
    (hrun : Runs.run ApnsClient.step (.initial c) actions = some s) :
    (∀ r ∈ s.requests, ∃ issuedAt, SignedAt c r.token issuedAt ∧ r.sentAt < issuedAt + jwtLifetimeMs) ∧
    (Runs.Guarded ApnsClient.step ClockGoesOn (.initial c) actions →
      (∀ r ∈ s.requests, ∃ issuedAt, SignedAt c r.token issuedAt ∧ issuedAt ≤ r.sentAt ∧
        r.sentAt < issuedAt + jwtLifetimeMs) ∧
      s.signed.Pairwise fun later earlier => earlier.2 + jwtLifetimeMs ≤ later.2) := by
  have huse (r : Request) (hr : r ∈ s.requests) : (r.sentAt, r.token) ∈ s.renewal.uses := List.mem_map_of_mem hr
  constructor
  · have hfresh : Fresh c s := Runs.run_inv (fun _ _ _ h hstep => fresh_step h hstep) actions _ s (fresh_initial c) hrun
    intro r hr
    obtain ⟨m, hm, htoken, hyoung⟩ := hfresh.kept.young _ (huse r hr)
    have hsigned := hfresh.signed m hm
    rw [htoken] at hsigned
    exact ⟨m.2, hsigned, hyoung⟩
  · intro hclock
    obtain ⟨hfresh, hinTime⟩ := Runs.run_inv_guarded (fun _ _ _ h ha hstep => inTime_step h ha hstep) actions _ s
      ⟨fresh_initial c, Renewal.inTime_empty⟩ hclock hrun
    refine ⟨fun r hr => ?_, hinTime.apart⟩
    obtain ⟨m, hm, htoken, hbefore, hyoung⟩ := hinTime.aged _ (huse r hr)
    have hsigned := hfresh.signed m hm
    rw [htoken] at hsigned
    exact ⟨m.2, hsigned, hbefore, hyoung⟩

end

def sampleCredentials : ApnsCredentials := ⟨lit "KEY", lit "TEAM", lit "dev.jin.app"⟩

/-- two sends half an hour apart, of which the second one fails, and one an hour later -/
def threeSends : List ClientAction :=
  [.send 0 (fun _ => [1]) .sandbox (lit "aa") testPayload,
    .send 1800000 (fun _ => [2]) .sandbox (lit "bb") testPayload, .settled 0 (.threw (lit "timeout")),
    .send 5400000 (fun _ => [3]) .sandbox (lit "aa") testPayload]

def checkClock (s : ApnsClient) : ClientAction → Bool
  | .send now _ _ _ _ => s.renewal.uses.all fun u => u.1 ≤ now
  | _ => true

theorem clockGoesOn_of_check (s : ApnsClient) (action : ClientAction) (h : checkClock s action = true) :
    ClockGoesOn s action := by
  cases action with
  | send now sign environment deviceToken notification =>
    intro u hu
    exact of_decide_eq_true (List.all_eq_true.mp h u hu)
  | _ => trivial

theorem provider_token_fresh_threeSends : ∃ s,
    Runs.run ApnsClient.step (.initial sampleCredentials) threeSends = some s ∧
      s.signed.Pairwise fun later earlier => earlier.2 + jwtLifetimeMs ≤ later.2 := by
  have hclock : Runs.Guarded ApnsClient.step ClockGoesOn (.initial sampleCredentials) threeSends :=
    Runs.guarded_of_checkAll clockGoesOn_of_check threeSends _ rfl
  exact ⟨_, rfl, ((provider_token_fresh sampleCredentials threeSends rfl).2 hclock).2⟩

/-! ## the sessions -/

/-- a session that is open is the one that its environment is sent over -/
structure Connected (s : ApnsClient) : Prop where
  live : ∀ id session, s.opened[id]? = some session → session.Live → s.sessions session.environment = some id
  known : ∀ environment id, s.sessions environment = some id →
    ∃ session, s.opened[id]? = some session ∧ session.environment = environment

namespace Connected
variable {s t : ApnsClient}

theorem congr (h : Connected s) (hsessions : t.sessions = s.sessions) (hopened : t.opened = s.opened) :
    Connected t := by
  obtain ⟨hlive, hknown⟩ := h
  rw [← hsessions, ← hopened] at hlive hknown
  exact ⟨hlive, hknown⟩

/-- a session of the list after one of them has changed -/
theorem getElem?_mark {id : SessionId} {f : Http2Session → Http2Session} {k : SessionId} {session : Http2Session}
    (h : (s.mark id f).opened[k]? = some session) :
    ∃ old, s.opened[k]? = some old ∧ session = if id = k then f old else old := by
  have hmodify : (s.opened.modify id f)[k]? = some session := h
  rw [List.getElem?_modify, Option.map_eq_map, Option.map_eq_some_iff] at hmodify
  obtain ⟨old, hold, rfl⟩ := hmodify
  exact ⟨old, hold, rfl⟩

theorem exists_mark {id : SessionId} {f : Http2Session → Http2Session} {k : SessionId} {old : Http2Session}
    (h : s.opened[k]? = some old) : (s.mark id f).opened[k]? = some (if id = k then f old else old) := by
  show (s.opened.modify id f)[k]? = _
  rw [List.getElem?_modify, h]
  rfl

/-- a session ends, from the other side -/
theorem ended (h : Connected s) (id : SessionId) (destroyed : Bool) :
    Connected (s.mark id fun session =>
      { session with closed := true, destroyed := session.destroyed || destroyed }) where
  live k session hk hlive := by
    obtain ⟨old, hold, rfl⟩ := getElem?_mark hk
    by_cases hid : id = k
    · rw [if_pos hid] at hlive
      cases hlive.1
    · rw [if_neg hid] at hlive ⊢
      exact h.live k old hold hlive
  known environment k hk := by
    obtain ⟨old, hold, henvironment⟩ := h.known environment k hk
    refine ⟨_, exists_mark hold, ?_⟩
    split <;> exact henvironment

theorem dropSession (h : Connected s) (environment : ApnsEnvironment) :
    Connected (s.dropSession environment) := by
  unfold ApnsClient.dropSession
  cases hid : s.sessions environment with
  | none => exact h
  | some id =>
    constructor
    · intro k session hk hlive
      obtain ⟨old, hold, rfl⟩ := getElem?_mark hk
      by_cases hsame : id = k
      · rw [if_pos hsame] at hlive
        cases hlive.2
      · rw [if_neg hsame] at hlive ⊢
        have hlisted := h.live k old hold hlive
        show (if old.environment = environment then none else s.sessions old.environment) = some k
        rw [if_neg, hlisted]
        intro henvironment
        rw [henvironment, hid, Option.some.injEq] at hlisted
        exact hsame hlisted
    · intro e k hk
      have hother : (if e = environment then none else s.sessions e) = some k := hk
      split at hother
      · cases hother
      · obtain ⟨old, hold, henvironment⟩ := h.known e k hother
        refine ⟨_, exists_mark hold, ?_⟩
        split <;> exact henvironment

/-- a session is taken, or a new one opened -/
theorem session (h : Connected s) (environment : ApnsEnvironment) : Connected (s.session environment).2 := by
  unfold ApnsClient.session
  cases hexisting : s.existing environment with
  | some id => exact h
  | none =>
    have hclosed : ∀ (id : SessionId) (old : Http2Session), s.opened[id]? = some old → old.Live →
        old.environment ≠ environment := by
      intro id old hold hlive henvironment
      have hlisted := h.live id old hold hlive
      rw [henvironment] at hlisted
      unfold ApnsClient.existing at hexisting
      rw [hlisted, Option.filter_some, hold, Option.any_some, decide_eq_true hlive, if_pos rfl] at hexisting
      cases hexisting
    constructor
    · intro k session hk hlive
      have hopened : (s.opened ++ [⟨environment, false, false⟩])[k]? = some session := hk
      show (if session.environment = environment then some s.opened.length else s.sessions session.environment) = some k
      rcases Nat.lt_or_ge k s.opened.length with hlt | hge
      · rw [List.getElem?_append_left hlt] at hopened
        rw [if_neg (hclosed k session hopened hlive)]
        exact h.live k session hopened hlive
      · rw [List.getElem?_append_right hge, List.getElem?_singleton] at hopened
        split at hopened
        next hk =>
          cases hopened
          rw [if_pos rfl, Option.some.injEq]
          omega
        next => cases hopened
    · intro e k hk
      have hlisted : (if e = environment then some s.opened.length else s.sessions e) = some k := hk
      split at hlisted
      next he =>
        cases hlisted
        refine ⟨⟨environment, false, false⟩, ?_, he.symm⟩
        show (s.opened ++ [_])[s.opened.length]? = _
        rw [List.getElem?_append_right (Nat.le_refl _), Nat.sub_self]
        rfl
      next =>
        obtain ⟨old, hold, henvironment⟩ := h.known e k hlisted
        refine ⟨old, ?_, henvironment⟩
        show (s.opened ++ [_])[k]? = _
        rw [List.getElem?_append_left (List.getElem?_eq_some_iff.mp hold).1, hold]

theorem settle (h : Connected s) (k : Nat) (request : Request) (reply : Reply) :
    Connected (s.settle k request reply) := by
  unfold ApnsClient.settle
  have hset : Connected { s with requests := s.requests.set k { request with reply := some reply } } := h.congr rfl rfl
  cases reply with
  | answered status body => exact hset
  | threw message => exact hset.dropSession request.environment

theorem providerToken (h : Connected s) (now : Int) (sign : List UInt8 → List UInt8) :
    Connected (s.providerToken now sign).2 := by
  unfold ApnsClient.providerToken
  split
  · exact h
  · exact h.congr rfl rfl

theorem close (h : Connected s) : Connected s.close where
  live k session hk hlive := by
    have hmapped : (s.opened.mapIdx fun id session =>
      if s.sessions .sandbox = some id ∨ s.sessions .production = some id then { session with closed := true }
      else session)[k]? = some session := hk
    rw [List.getElem?_mapIdx, Option.map_eq_some_iff] at hmapped
    obtain ⟨old, hold, rfl⟩ := hmapped
    split at hlive
    next => cases hlive.1
    next hlisted =>
      have hsession := h.live k old hold hlive
      refine absurd ?_ hlisted
      cases henvironment : old.environment with
      | sandbox =>
        rw [henvironment] at hsession
        exact Or.inl hsession
      | production =>
        rw [henvironment] at hsession
        exact Or.inr hsession
  known environment k hk := by cases hk

theorem send (h : Connected s) (now : Int) (sign : List UInt8 → List UInt8) (environment : ApnsEnvironment)
    (deviceToken : JsString) (notification : ApnsNotification) :
    Connected (s.send now sign environment deviceToken notification) :=
  ((h.providerToken now sign).session environment).congr rfl rfl

theorem step {action : ClientAction} (h : Connected s) (hstep : s.step action = some t) : Connected t := by
  cases action with
  | send now sign environment deviceToken notification =>
    cases hstep
    exact h.send now sign environment deviceToken notification
  | settled k reply =>
    cases hk : s.requests[k]? with
    | none => simp only [ApnsClient.step, hk, reduceCtorEq] at hstep
    | some request =>
      simp only [ApnsClient.step, hk] at hstep
      obtain ⟨-, hstep⟩ := Option.ite_none_right_eq_some.mp hstep
      cases hstep
      exact h.settle k request reply
  | event id =>
    obtain ⟨session, -, rfl⟩ := Option.map_eq_some_iff.mp hstep
    exact h.dropSession session.environment
  | ended id destroyed =>
    cases hstep
    exact h.ended id destroyed
  | close =>
    cases hstep
    exact h.close

end Connected

theorem connected_initial (c : ApnsCredentials) : Connected (.initial c) :=
  ⟨fun _ _ h => (by cases h), fun _ _ h => (by cases h)⟩

section
variable {c : ApnsCredentials} {s : ApnsClient}

/-- at most one session of an environment is open; a send goes over one that is, and opens one only where none is -/
structure OneLive (s : ApnsClient) : Prop where
  single : ∀ (i j : SessionId) (a b : Http2Session), s.opened[i]? = some a → s.opened[j]? = some b →
    a.Live → b.Live → a.environment = b.environment → i = j
  sends : ∀ now sign environment deviceToken notification t,
    s.step (.send now sign environment deviceToken notification) = some t →
      ∃ r session, t.requests = r :: s.requests ∧ r.environment = environment ∧
        t.opened[r.session]? = some session ∧ session.Live ∧ session.environment = environment ∧
        ((∃ (id : SessionId) (old : Http2Session), s.opened[id]? = some old ∧ old.Live ∧
          old.environment = environment) → t.opened = s.opened)

/-- the session that a send takes -/
theorem session_live (h : Connected s) (environment : ApnsEnvironment) :
    (s.session environment).2.requests = s.requests ∧
    (∃ session, (s.session environment).2.opened[(s.session environment).1]? = some session ∧ session.Live ∧
      session.environment = environment) ∧
    ((∃ (id : SessionId) (old : Http2Session), s.opened[id]? = some old ∧ old.Live ∧
      old.environment = environment) → (s.session environment).2.opened = s.opened) := by
  unfold ApnsClient.session
  cases hexisting : s.existing environment with
  | some id =>
    obtain ⟨hlisted, hlive⟩ := Option.filter_eq_some_iff.mp hexisting
    obtain ⟨session, hsession, henvironment⟩ := h.known environment id hlisted
    rw [hsession, Option.any_some, decide_eq_true_eq] at hlive
    exact ⟨rfl, ⟨session, hsession, hlive, henvironment⟩, fun _ => rfl⟩
  | none =>
    refine ⟨rfl, ⟨⟨environment, false, false⟩, ?_, ⟨rfl, rfl⟩, rfl⟩, ?_⟩
    · show (s.opened ++ [_])[s.opened.length]? = _
      rw [List.getElem?_append_right (Nat.le_refl _), Nat.sub_self]
      rfl
    · rintro ⟨id, old, hold, hlive, henvironment⟩
      have hlisted := h.live id old hold hlive
      rw [henvironment] at hlisted
      unfold ApnsClient.existing at hexisting
      rw [hlisted, Option.filter_some, hold, Option.any_some, decide_eq_true hlive, if_pos rfl] at hexisting
      cases hexisting

/-- whatever happens to the sessions, and in whatever order -/
theorem one_live_session (c : ApnsCredentials) (actions : List ClientAction)
    (hrun : Runs.run ApnsClient.step (.initial c) actions = some s) : OneLive s := by
  have h : Connected s := Runs.run_inv (fun _ _ _ h hstep => h.step hstep) actions _ s (connected_initial c) hrun
  constructor
  case single =>
    intro i j a b hi hj ha hb henvironment
    have hlisted := h.live i a hi ha
    rw [henvironment, h.live j b hj hb, Option.some.injEq] at hlisted
    exact hlisted.symm
  case sends =>
    intro now sign environment deviceToken notification t hstep
    cases hstep
    obtain ⟨hrequests, ⟨session, hsession, hlive, henvironment⟩, hsame⟩ :=
      session_live (h.providerToken now sign) environment
    have hopened : (s.providerToken now sign).2.opened = s.opened ∧
        (s.providerToken now sign).2.requests = s.requests := by
      unfold ApnsClient.providerToken
      split <;> exact ⟨rfl, rfl⟩
    rw [hopened.1] at hsame
    rw [hopened.2] at hrequests
    exact ⟨_, session, congrArg _ hrequests, rfl, hsession, hlive, henvironment, hsame⟩

end

theorem one_live_session_threeSends : ∃ s,
    Runs.run ApnsClient.step (.initial sampleCredentials) threeSends = some s ∧ OneLive s :=
  ⟨_, rfl, one_live_session sampleCredentials threeSends rfl⟩

/-! ## what a token says -/

/-- the text of a segment, as it is read from its base64 -/
structure SegmentOf (part : JsString) (value : Value) : Prop where
  noDot : 0x2E ∉ part.units
  decoded : ∃ text, Base64.decode part = utf8 text ∧ text.isWellFormed = true ∧ parse text = some value

theorem segmentOf_segment {value : Value} (hsound : value.Sound) (hfinite : value.AllFinite) :
    SegmentOf (segment value) value := by
  refine ⟨Base64.notMem_encodeUrl (by decide) _, ⟨value.text⟩, Base64.decode_encodeUrl _, isWellFormed_text value, ?_⟩
  rw [parse_text hsound, (shown_eq_iff value).mpr hfinite]

theorem inOrder_pair {k k' : JsString} {v v' : Value} (h : KeyBefore k k') : InOrder [(k, v), (k', v')] := by
  unfold InOrder
  rw [List.pairwise_pair]
  exact h

/-- a token is three segments, of which the first two are read back as what they were made of -/
theorem signProviderToken_read (c : ApnsCredentials) (sign : List UInt8 → List UInt8) (issuedAt : JsDate) :
    ∃ header claims signature, signProviderToken c sign issuedAt.time =
        header ++ lit "." ++ claims ++ lit "." ++ signature ∧
      SegmentOf header (tokenHeader c) ∧ SegmentOf claims (tokenClaims c issuedAt.time) ∧
      0x2E ∉ signature.units ∧ Base64.decode signature = sign (header ++ lit "." ++ claims).utf8 := by
  have hseconds : (seconds issuedAt.time).natAbs < 2 ^ 53 := by
    have hvalid := issuedAt.valid
    unfold seconds
    omega
  refine ⟨segment (tokenHeader c), segment (tokenClaims c issuedAt.time), _, rfl, ?_, ?_, ?_, ?_⟩
  · apply segmentOf_segment
    · exact ⟨inOrder_pair ⟨by decide, by decide⟩, trivial, trivial, trivial⟩
    · exact ⟨trivial, trivial, trivial⟩
  · apply segmentOf_segment
    · exact ⟨inOrder_pair ⟨by decide, by decide⟩, trivial, isDouble_int hseconds, trivial⟩
    · exact ⟨trivial, ⟨_, rfl⟩, trivial⟩
  · exact Base64.notMem_encodeUrl (by decide) _
  · exact Base64.decode_encodeUrl _

end Push
