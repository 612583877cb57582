import JinCore.Auth.WsToken
import JinCore.Lib.Runs
import Mathlib.Logic.Function.Basic

/-!
# The sockets of `/chat` and `/terminal` (`chat.gateway.ts`, `terminal.gateway.ts`)

A connection is accepted before its token is verified, and its messages are delivered from then on,
until it is disconnected.

* `Phase`, `Connection`   where `handleConnection` stands, and what the handlers keep with a client;
* `handle`             what the handler of a message does, as far as its first call goes;
* `Gateways.step`      an accepted connection, the end of a verification, a message, a disconnect;
* `NothingUnverified`  no handshake is left half way, and nothing is done for an unverified client;
* `Awaited`            the handshake can be read, and no request comes before its verification ends;
* `nothing_unverified`, `unverified_turn`.
-/

namespace Auth
open JsString

abbrev ConnectionId := Nat

abbrev PtyId := JsString

inductive Gateway where
  | chat | terminal
  deriving DecidableEq, Repr

inductive Phase where
  /-- before `verifyAsync` has returned -/
  | verifying (token : JsValue)
  | verified
  /-- `handleConnection` has thrown, and the client stays connected -/
  | failed
  | disconnected
  deriving DecidableEq, Repr

structure Connection where
  gateway : Gateway
  phase : Phase
  /-- `client.data.ptyId` -/
  ptyId : Option PtyId
  /-- how many calls of `openOrAttach` it waits for -/
  opening : Nat
  deriving DecidableEq, Repr

/-- a message; `valid` is what its schema says of the payload -/
inductive Message where
  | chatMessage (valid : Bool)
  | ptyOpen (valid : Bool)
  | ptyInput (valid : Bool)
  | ptyResize (valid : Bool)
  | ptyKeepAlive (valid : Bool)
  | ptyClose
  deriving DecidableEq, Repr

/-- a call that a handler makes for a client -/
inductive Effect where
  | runTurn
  | openOrAttach
  | input (ptyId : PtyId)
  | resize (ptyId : PtyId)
  | setKeepAlive (ptyId : PtyId)
  | close (ptyId : PtyId)
  deriving DecidableEq, Repr

/-- a call, and whether the token of its client had been verified by then -/
structure Done where
  connection : ConnectionId
  effect : Effect
  verified : Bool
  deriving DecidableEq, Repr

structure Gateways where
  connections : ConnectionId → Option Connection
  done : List Done

inductive Action where
  | connect (c : ConnectionId) (gateway : Gateway) (handshake : Handshake)
  /-- `verifyAsync` resolves or rejects -/
  | verify (c : ConnectionId) (ok : Bool)
  | deliver (c : ConnectionId) (message : Message)
  /-- `openOrAttach` resolves with an id, or rejects -/
  | opened (c : ConnectionId) (ptyId : Option PtyId)
  | disconnect (c : ConnectionId)

/-- `handleConnection` up to its first await -/
def onConnect (handshake : Handshake) : Phase :=
  match extractWsToken handshake with
  | none => .failed
  | some none => .disconnected
  | some (some token) => if token.isTruthy then .verifying token else .disconnected

/-- a handler of a message for the session of the client -/
def withSession (connection : Connection) (valid : Bool) (effect : PtyId → Effect) : List Effect :=
  match connection.ptyId with
  | some ptyId => if valid then [effect ptyId] else []
  | none => []

def handle (connection : Connection) (message : Message) : Connection × List Effect :=
  match connection.gateway, message with
  | .chat, .chatMessage valid => (connection, if valid then [.runTurn] else [])
  | .terminal, .ptyOpen valid =>
    if valid then ({ connection with ptyId := none, opening := connection.opening + 1 }, [.openOrAttach])
    else (connection, [])
  | .terminal, .ptyInput valid => (connection, withSession connection valid .input)
  | .terminal, .ptyResize valid => (connection, withSession connection valid .resize)
  | .terminal, .ptyKeepAlive valid => (connection, withSession connection valid .setKeepAlive)
  | .terminal, .ptyClose =>
    ({ connection with ptyId := none }, withSession connection true .close)
  | _, _ => (connection, [])

namespace Gateways

def set (s : Gateways) (c : ConnectionId) (connection : Connection) : Gateways :=
  { s with connections := Function.update s.connections c (some connection) }

def onDeliver (s : Gateways) (c : ConnectionId) (connection : Connection) (message : Message) :
    Gateways :=
  let (after, effects) := handle connection message
  let done := effects.map fun effect => ⟨c, effect, decide (connection.phase = .verified)⟩
  { s with done := s.done ++ done }.set c after

def step (s : Gateways) : Action → Option Gateways
  | .connect c gateway handshake =>
    match s.connections c with
    | none => some (s.set c ⟨gateway, onConnect handshake, none, 0⟩)
    | some _ => none
  | .verify c ok =>
    match s.connections c with
    | some ⟨gateway, .verifying _, ptyId, opening⟩ =>
      some (s.set c ⟨gateway, if ok then .verified else .disconnected, ptyId, opening⟩)
    | _ => none
  | .deliver c message =>
    match s.connections c with
    | some connection =>
      if connection.phase = .disconnected then none else some (s.onDeliver c connection message)
    | none => none
  | .opened c ptyId =>
    match s.connections c with
    | some ⟨gateway, phase, before, opening + 1⟩ =>
      some (s.set c ⟨gateway, phase, ptyId.or before, opening⟩)
    | _ => none
  | .disconnect c =>
    match s.connections c with
    | some connection => some (s.set c { connection with phase := .disconnected })
    | none => none

def init : Gateways := ⟨fun _ => none, []⟩

end Gateways

open Gateways

structure NothingUnverified (s : Gateways) : Prop where
  handshakes : ∀ c connection, s.connections c = some connection → connection.phase ≠ .failed
  done : ∀ d ∈ s.done, d.verified = true

/-- a well-formed request that begins something at the gateway -/
def Begins : Gateway → Message → Prop
  | .chat, .chatMessage valid => valid = true
  | .terminal, .ptyOpen valid => valid = true
  | _, _ => False

/-- the handshake has a token of its own or cookies that decode, and nothing is begun by a client whose
token is being verified -/
def Awaited (s : Gateways) : Action → Prop
  | .connect _ _ handshake => handshake.authToken.isTruthy = true ∨ CookiesDecode handshake
  | .deliver c message => ∀ connection token, s.connections c = some connection →
      connection.phase = .verifying token → ¬ Begins connection.gateway message
  | _ => True

/-! ## the invariant -/

structure ConnectionOk (connection : Connection) : Prop where
  handshake : connection.phase ≠ .failed
  /-- nothing was opened before the verification -/
  nothing : ∀ token, connection.phase = .verifying token →
    connection.ptyId = none ∧ connection.opening = 0

structure Kept (s : Gateways) : Prop where
  connections : ∀ c connection, s.connections c = some connection → ConnectionOk connection
  done : ∀ d ∈ s.done, d.verified = true

section
variable {s s' : Gateways} {c : ConnectionId} {connection : Connection}

theorem Kept.set (hkept : Kept s) (hok : ConnectionOk connection) : Kept (s.set c connection) where
  connections k other hk := by
    by_cases hkc : k = c
    · rw [hkc] at hk
      cases (Function.update_self c _ s.connections).symm.trans hk
      exact hok
    · exact hkept.connections k other ((Function.update_of_ne hkc _ s.connections).symm.trans hk)
  done := hkept.done

theorem onConnect_ne_failed {handshake : Handshake}
    (h : handshake.authToken.isTruthy = true ∨ CookiesDecode handshake) : onConnect handshake ≠ .failed := by
  have hextract : extractWsToken handshake ≠ none := by
    rw [ne_eq, extractWsToken_throws_iff]
    rintro ⟨htoken, hcookies⟩
    rcases h with h | h
    · rw [htoken] at h
      cases h
    · exact hcookies h
  rw [onConnect]
  split
  next hnone => exact absurd hnone hextract
  next => exact Phase.noConfusion
  next =>
    split <;> exact Phase.noConfusion

/-- a connection without a session, that begins nothing, does nothing -/
theorem handle_idle {message : Message} (hid : connection.ptyId = none)
    (hbegins : ¬ Begins connection.gateway message) : handle connection message = (connection, []) := by
  obtain ⟨gateway, phase, ptyId, opening⟩ := connection
  cases hid
  cases gateway <;> cases message <;> first | rfl | skip
  case chat.chatMessage valid =>
    cases valid with
    | true => exact absurd rfl hbegins
    | false => rfl
  case terminal.ptyOpen valid =>
    cases valid with
    | true => exact absurd rfl hbegins
    | false => rfl

/-- a handler leaves the phase of its connection as it is -/
theorem handle_phase (connection : Connection) (message : Message) :
    (handle connection message).1.phase = connection.phase := by
  obtain ⟨gateway, phase, ptyId, opening⟩ := connection
  cases gateway <;> cases message <;> first | rfl | skip
  case terminal.ptyOpen valid => cases valid <;> rfl

theorem kept_deliver (hkept : Kept s) {message : Message} (hc : s.connections c = some connection)
    (hphase : connection.phase ≠ .disconnected) (hawaited : Awaited s (.deliver c message)) :
    Kept (s.onDeliver c connection message) := by
  have hok := hkept.connections c connection hc
  cases hverified : connection.phase with
  | failed => exact absurd hverified hok.handshake
  | disconnected => exact absurd hverified hphase
  | verifying token =>
    have hidle := handle_idle (hok.nothing token hverified).1 (hawaited connection token hc hverified)
    rw [onDeliver, hidle]
    show Kept ({ s with done := s.done ++ [] }.set c connection)
    rw [List.append_nil]
    exact hkept.set hok
  | verified =>
    have hsame := (handle_phase connection message).trans hverified
    have hkept' : Kept { s with done := s.done ++ (handle connection message).2.map fun effect =>
        ⟨c, effect, decide (connection.phase = .verified)⟩ } := by
      refine ⟨hkept.connections, fun d hd => ?_⟩
      rcases List.mem_append.mp hd with hd | hd
      · exact hkept.done d hd
      · obtain ⟨effect, -, rfl⟩ := List.mem_map.mp hd
        exact decide_eq_true hverified
    have hok' : ConnectionOk (handle connection message).1 := by
      refine ⟨?_, fun token htoken => ?_⟩
      · rw [hsame]
        exact Phase.noConfusion
      · rw [hsame] at htoken
        cases htoken
    exact hkept'.set hok'

theorem kept_step (hkept : Kept s) {a : Action} (hawaited : Awaited s a) (hstep : step s a = some s') :
    Kept s' := by
  cases a with
  | connect c gateway handshake =>
    rw [Gateways.step] at hstep
    split at hstep
    next =>
      cases hstep
      exact hkept.set ⟨onConnect_ne_failed hawaited, fun _ _ => ⟨rfl, rfl⟩⟩
    next => cases hstep
  | verify c ok =>
    rw [Gateways.step] at hstep
    split at hstep
    next =>
      cases hstep
      refine hkept.set ⟨?_, fun token htoken => ?_⟩
      · cases ok <;> exact Phase.noConfusion
      · cases ok <;> cases htoken
    next => cases hstep
  | deliver c message =>
    rw [Gateways.step] at hstep
    split at hstep
    next connection hc =>
      obtain ⟨hphase, hstep⟩ := Option.ite_none_left_eq_some.mp hstep
      cases hstep
      exact kept_deliver hkept hc hphase hawaited
    next => cases hstep
  | opened c ptyId =>
    rw [Gateways.step] at hstep
    split at hstep
    next gateway phase before opening hc =>
      cases hstep
      have hok := hkept.connections c _ hc
      refine hkept.set ⟨hok.handshake, fun token htoken => ?_⟩
      exact absurd (hok.nothing token htoken).2 (Nat.succ_ne_zero opening)
    next => cases hstep
  | disconnect c =>
    rw [Gateways.step] at hstep
    split at hstep
    next =>
      cases hstep
      exact hkept.set ⟨Phase.noConfusion, fun _ h => Phase.noConfusion h⟩
    next => cases hstep

theorem kept_init : Kept init where
  connections _ _ h := nomatch h
  done _ h := absurd h List.not_mem_nil

end

/-! ## runs -/

theorem nothing_unverified (as : List Action) (s : Gateways)
    (hawaited : Runs.Guarded step Awaited init as) (hrun : Runs.run step init as = some s) :
    NothingUnverified s := by
  have hkept : Kept s := Runs.run_inv_guarded (fun s a t hs ha hstep => kept_step hs ha hstep)
    as init s kept_init hawaited hrun
  exact ⟨fun c connection hc => (hkept.connections c connection hc).handshake, hkept.done⟩

/-- a check of `Awaited` that can be evaluated, for handshakes with a token of their own -/
def awaitedCheck (s : Gateways) : Action → Bool
  | .connect _ _ handshake => handshake.authToken.isTruthy
  | .deliver c _ => (s.connections c).all fun connection => decide (connection.phase = .verified)
  | _ => true

theorem awaited_of_check {s : Gateways} {a : Action} (h : awaitedCheck s a = true) : Awaited s a := by
  cases a with
  | connect c gateway handshake => exact Or.inl h
  | deliver c message =>
    intro connection token hc hphase
    rw [awaitedCheck, hc] at h
    have hverified : connection.phase = .verified := of_decide_eq_true h
    rw [hphase] at hverified
    cases hverified
  | _ => trivial

def cli : Handshake := ⟨.text (lit "jwt"), none, none⟩

/-- a client opens a session once its token is verified, and writes to it -/
def verifiedClient : List Action :=
  [.connect 1 .terminal cli, .verify 1 true, .deliver 1 (.ptyOpen true), .opened 1 (some (lit "p1")),
    .deliver 1 (.ptyInput true), .disconnect 1]

theorem nothing_unverified_client : ∃ s, Runs.run step init verifiedClient = some s ∧
    s.done.map Done.effect = [.openOrAttach, .input (lit "p1")] ∧ NothingUnverified s := by
  have hrun : (Runs.run step init verifiedClient).map (fun s => s.done.map Done.effect)
      = some [.openOrAttach, .input (lit "p1")] := by decide
  obtain ⟨s, hs, hdone⟩ := Option.map_eq_some_iff.mp hrun
  exact ⟨s, hs, hdone, nothing_unverified verifiedClient s
    (Runs.guarded_of_checkAll (fun _ _ => awaited_of_check) _ _ (by decide)) hs⟩

/-- a cookie that is no percent-encoded text -/
def malformed : Handshake := ⟨.falsy, some (lit "a=%"), none⟩

/-- a handshake that cannot be read leaves its client connected, and another client does not wait for
its verification -/
theorem unverified_turn :
    (∃ s, Runs.run step init [.connect 1 .chat malformed, .deliver 1 (.chatMessage true)] = some s ∧
      s.done = [⟨1, .runTurn, false⟩] ∧ ¬ NothingUnverified s) ∧
    ∃ s, Runs.run step init [.connect 1 .terminal cli, .deliver 1 (.ptyOpen true), .verify 1 false]
      = some s ∧ s.done = [⟨1, .openOrAttach, false⟩] ∧ ¬ NothingUnverified s := by
  have hnot : ∀ {s : Gateways} {d : Done}, s.done = [d] → d.verified = false → ¬ NothingUnverified s := by
    intro s d hdone hd hnothing
    have hverified := hnothing.done d (by rw [hdone]; exact List.mem_cons_self)
    rw [hd] at hverified
    cases hverified
  have hfirst : (Runs.run step init [.connect 1 .chat malformed, .deliver 1 (.chatMessage true)]).map
      (fun s => s.done) = some [⟨1, .runTurn, false⟩] := by decide
  have hsecond : (Runs.run step init [.connect 1 .terminal cli, .deliver 1 (.ptyOpen true),
      .verify 1 false]).map (fun s => s.done) = some [⟨1, .openOrAttach, false⟩] := by decide
  obtain ⟨s, hs, hdone⟩ := Option.map_eq_some_iff.mp hfirst
  obtain ⟨t, ht, hdone'⟩ := Option.map_eq_some_iff.mp hsecond
  exact ⟨⟨s, hs, hdone, hnot hdone rfl⟩, ⟨t, ht, hdone', hnot hdone' rfl⟩⟩

end Auth
