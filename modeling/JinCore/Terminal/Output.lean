import JinCore.Js.Base64

/-!
# The output of an interactive session (`terminal-pty.service.ts`)

The lines of the Executor's stream, and the apps that attach to a session and leave it.

* `PtyEvent`, `OutputLine`    what a listener is given, and a line of the stream as it is parsed;
* `Ring`, `Ring.remember`     the recent output;
* `replay`                    the ring in pieces, for a listener that attaches;
* `PtyOutput`, `PtyOutput.step`   a session, what it was sent, and what its listeners were given.
-/

namespace Terminal
open JsString

def PTY_RING_BYTES : Nat := 256 * 1024

def REPLAY_CHUNK_BYTES : Nat := 48 * 1024

inductive PtyEvent where
  /-- the bytes in base64 -/
  | out (data : JsString)
  | exit (code : Int)
  | error (message : JsString)
  | notice (message : JsString)
  deriving DecidableEq, Repr

/-- `JSON.parse` of a line, and what `handleLine` looks at -/
inductive OutputLine where
  | out (d : JsString)
  | exit (code : Option Int)
  | error (message : Option JsString)
  /-- no JSON, or none of these -/
  | other
  deriving DecidableEq, Repr

/-- `session.ring` and `session.ringBytes` -/
structure Ring where
  buffers : List (List UInt8)
  bytes : Nat
  deriving DecidableEq, Repr

namespace Ring

def empty : Ring := ⟨[], 0⟩

/-- `Buffer.concat` -/
def concat (r : Ring) : List UInt8 := r.buffers.flatten

/-- the `while` loop of `remember` -/
def evict : List (List UInt8) → Nat → Ring
  | first :: second :: rest, bytes =>
    if bytes > PTY_RING_BYTES then evict (second :: rest) (bytes - first.length)
    else ⟨first :: second :: rest, bytes⟩
  | buffers, bytes => ⟨buffers, bytes⟩

def remember (r : Ring) (bytes : List UInt8) : Ring :=
  evict (r.buffers ++ [bytes]) (r.bytes + bytes.length)

end Ring

/-- the pieces from each `offset` on, for at most so many of them -/
def pieces : Nat → List UInt8 → List (List UInt8)
  | 0, _ => []
  | n + 1, bytes =>
    if bytes = [] then []
    else bytes.take REPLAY_CHUNK_BYTES :: pieces n (bytes.drop REPLAY_CHUNK_BYTES)

def replay (bytes : List UInt8) : List PtyEvent :=
  (pieces bytes.length bytes).map fun piece => .out (Base64.encode piece)

abbrev ListenerId := Nat

/-- a listener from when it attaches on -/
structure Attachment where
  listener : ListenerId
  /-- what it was given, oldest first -/
  events : List PtyEvent
  /-- the ring when it attached -/
  suffix : List UInt8
  /-- how much output there had been -/
  since : Nat
  deriving DecidableEq, Repr

def Attachment.give (a : Attachment) (events : List PtyEvent) : Attachment :=
  { a with events := a.events ++ events }

structure PtyOutput where
  ring : Ring
  listener : Option Attachment
  ended : Option PtyEvent
  /-- all output there has been -/
  received : List UInt8
  /-- the listeners that were replaced or detached, and how much output there had been then -/
  past : List (Attachment × Nat)

inductive PtyAction where
  | line (line : OutputLine)
  | attach (listener : ListenerId)
  | detach (listener : ListenerId)
  /-- the session ends otherwise: it is closed, or its stream is lost -/
  | finish (event : PtyEvent)
  | notify (message : JsString)

namespace PtyOutput

def opened : PtyOutput := ⟨.empty, none, none, [], []⟩

/-- `session.listener?.(event)` -/
def give (s : PtyOutput) (event : PtyEvent) : PtyOutput :=
  { s with listener := s.listener.map fun a => a.give [event] }

/-- the listener is gone -/
def leave (s : PtyOutput) : PtyOutput :=
  { s with
    listener := none
    past := (s.listener.map fun a => (a, s.received.length)).toList ++ s.past }

def attach (s : PtyOutput) (listener : ListenerId) : PtyOutput :=
  let attached : Attachment := ⟨listener, replay s.ring.concat, s.ring.concat, s.received.length⟩
  { s.leave with listener := some (attached.give s.ended.toList) }

def detach (s : PtyOutput) (listener : ListenerId) : PtyOutput :=
  if s.listener.map Attachment.listener = some listener then s.leave else s

def finish (s : PtyOutput) (event : PtyEvent) : PtyOutput :=
  if s.ended = none then { s with ended := some event }.give event else s

def remember (s : PtyOutput) (bytes : List UInt8) : PtyOutput :=
  { s with ring := s.ring.remember bytes, received := s.received ++ bytes }

def handleLine (s : PtyOutput) : OutputLine → PtyOutput
  | .out d => (s.remember (Base64.decode d)).give (.out d)
  | .exit code => s.finish (.exit (code.getD (-1)))
  | .error message => s.finish (.error (message.getD (lit "Falló la terminal.")))
  | .other => s

/-- nothing is read from the stream of a session that has ended -/
def step (s : PtyOutput) : PtyAction → Option PtyOutput
  | .line line => if s.ended = none then some (s.handleLine line) else none
  | .attach listener => some (s.attach listener)
  | .detach listener => some (s.detach listener)
  | .finish event =>
    match event with
    | .exit _ | .error _ => some (s.finish event)
    | .out _ | .notice _ => none
  | .notify message => some (s.give (.notice message))

end PtyOutput

end Terminal
