import JinCore.Terminal.Registry

/-!
# The connections of the terminal (`terminal.gateway.ts`)

A connection has one terminal at a time: the pair of its session and the listener that it gave to the
service.  The handler of `pty:open` clears the pair before it waits for the service, and writes it when
the service has answered.

* `PtyClientData`    the pair, in `client.data`;
* `Gateway`          the service, the connections and the handlers;
* `Gateway.step`     a message, a disconnect, the rest of an open, or a step of the service by itself.
-/

namespace Terminal.Pty
open JsString Common Service

abbrev ClientId := Nat

structure PtyClientData where
  ptyId : Option PtyId
  listener : Option OpenId
  deriving DecidableEq, Repr

structure Gateway where
  pty : Service
  data : ClientId → PtyClientData
  connected : ClientId → Bool
  /-- the connection that a handler of `pty:open` works for -/
  opener : OpenId → Option ClientId
  /-- the handlers of `pty:open` that have finished -/
  settled : OpenId → Bool
  /-- the connection that a handler of `pty:close` works for -/
  closer : CloseId → Option ClientId

/-- the messages come with a payload that their schema accepts -/
inductive Event where
  | ptyOpen (client : ClientId) (o : OpenId) (workspaceId : WorkspaceId)
    (keepAliveMinutes : Option Int) (reservation : PtyId)
  /-- the handler goes on when `openOrAttach` has returned or thrown -/
  | openSettles (o : OpenId)
  | ptyKeepalive (client : ClientId) (keepAliveMinutes : Int)
  | ptyClose (client : ClientId) (k : CloseId)
  | handleDisconnect (client : ClientId)
  /-- a call, a timer or a stream of the service goes on -/
  | service (action : Action)

/-- the actions that are calls of the gateway -/
def Action.called : Action → Bool
  | .openOrAttach .. | .detach .. | .setKeepAlive .. | .close .. => true
  | _ => false

namespace Gateway

def setData (g : Gateway) (client : ClientId) (data : PtyClientData) : Gateway :=
  { g with data := Function.update g.data client data }

/-- `pty.detach` of the pair of a connection, if it has both halves -/
def detachData (g : Gateway) (client : ClientId) : Service :=
  match g.data client with
  | ⟨some ptyId, some listener⟩ => g.pty.onDetach ptyId listener
  | _ => g.pty

/-- `open` up to its await -/
def onOpen (g : Gateway) (client : ClientId) (o : OpenId) (workspaceId : WorkspaceId)
    (keepAliveMinutes : Option Int) (reservation : PtyId) : Option Gateway :=
  (Service.step (g.detachData client)
    (.openOrAttach o workspaceId (keepAliveMinutes.map (· * 60000)) reservation)).map fun pty =>
      { g.setData client ⟨none, none⟩ with
        pty := pty
        opener := Function.update g.opener o (some client)
        settled := Function.update g.settled o false }

def settle (g : Gateway) (o : OpenId) : Gateway :=
  { g with settled := Function.update g.settled o true }

/-- the rest of `open` -/
def onOpenSettles (g : Gateway) (client : ClientId) (o : OpenId) : Option Gateway :=
  match g.pty.opens o with
  | .returned ptyId _ => some ((g.setData client ⟨some ptyId, some o⟩).settle o)
  | .threw _ => some (g.settle o)
  | _ => none

def onClose (g : Gateway) (client : ClientId) (k : CloseId) : Option Gateway :=
  match (g.data client).ptyId with
  | none => some g
  | some ptyId => (Service.step g.pty (.close k ptyId)).map fun pty =>
      { g.setData client { g.data client with ptyId := none } with
        pty := pty
        closer := Function.update g.closer k (some client) }

def onKeepalive (g : Gateway) (client : ClientId) (keepAliveMinutes : Int) : Gateway :=
  match (g.data client).ptyId with
  | none => g
  | some ptyId => { g with pty := g.pty.onSetKeepAlive ptyId (keepAliveMinutes * 60000) }

def onDisconnect (g : Gateway) (client : ClientId) : Gateway :=
  { g with pty := g.detachData client, connected := Function.update g.connected client false }

def step (g : Gateway) : Event → Option Gateway
  | .ptyOpen client o workspaceId keepAliveMinutes reservation =>
    if g.connected client then g.onOpen client o workspaceId keepAliveMinutes reservation else none
  | .openSettles o =>
    match g.opener o with
    | some client => if g.settled o then none else g.onOpenSettles client o
    | none => none
  | .ptyKeepalive client keepAliveMinutes =>
    if g.connected client then some (g.onKeepalive client keepAliveMinutes) else none
  | .ptyClose client k => if g.connected client then g.onClose client k else none
  | .handleDisconnect client => if g.connected client then some (g.onDisconnect client) else none
  | .service action =>
    if action.called then none else (Service.step g.pty action).map fun pty => { g with pty := pty }

/-- every connection is there from the start, as long as it has sent nothing -/
def init : Gateway where
  pty := Service.init
  data := fun _ => ⟨none, none⟩
  connected := fun _ => true
  opener := fun _ => none
  settled := fun _ => false
  closer := fun _ => none

end Gateway

end Terminal.Pty
