import JinCore.Common.Calls
import JinCore.Lib.Runs
import Mathlib.Logic.Function.Basic

/-!
# The sessions of the terminal (`terminal-pty.service.ts`)

A workspace has one session, which outlasts the connections of the app.  The calls of the service run
beside each other, beside the timers of a session and the loop that reads its output.

* `Session`          a session as an object, which its loop keeps after the map has let it go;
* `OpenPhase`        where a call of `openOrAttach` stands; it is also the name of its listener;
* `ClosePhase`       where a call of `close` stands;
* `Service`          the objects, the two maps and the calls;
* `Service.step`     what runs between two awaits of one call, a timer or a line of output.
-/

namespace Terminal.Pty
open JsString Common

/-- an id of the Executor, or a reservation -/
abbrev PtyId := JsString

abbrev WorkspaceId := JsString

/-- the calls of `openOrAttach`, and their listeners -/
abbrev OpenId := Nat

/-- the calls of `close` -/
abbrev CloseId := Nat

/-! ## constants -/

def ptyKeepaliveDefaultMs : Int := 60 * 60 * 1000
def ptyKeepaliveMinMs : Int := 5 * 60 * 1000
def ptyKeepaliveMaxMs : Int := 4 * 60 * 60 * 1000

def pumpMaxRetries : Nat := 5

def clampKeepAlive : Option Int → Int
  | none => ptyKeepaliveDefaultMs
  | some requested => min ptyKeepaliveMaxMs (max ptyKeepaliveMinMs requested)

/-- another call of the same workspace is between its reservation and its session -/
def openingError : JinError where
  message := lit "La terminal de este proyecto se está abriendo: espera un momento."
  code := lit "TERMINAL_UPSTREAM_ERROR"
  httpStatus := some 409

/-! ## sessions and calls -/

/-- how a session ends -/
inductive PtyEnd where
  | exit (code : Int)
  | error (message : JsString)
  deriving DecidableEq, Repr

/-- a timer that has fired is still there until it is cleared -/
inductive Timer where
  | null | running | fired
  deriving DecidableEq, Repr

structure Session where
  workspaceId : WorkspaceId
  listener : Option OpenId
  keepAliveMs : Int
  detachTimer : Timer
  lingerTimer : Timer
  ended : Option PtyEnd
  /-- the failures of the loop in a row -/
  failures : Nat
  deriving DecidableEq, Repr

/-- what an open carries over its awaits -/
structure Opening where
  workspaceId : WorkspaceId
  keepAliveMs : Int
  reservation : PtyId
  deriving DecidableEq, Repr

inductive OpenPhase where
  | idle
  /-- before the audit of the open -/
  | auditing (opening : Opening)
  /-- before `executor.openPty` -/
  | opening (opening : Opening)
  /-- attached to a live session, before its resize -/
  | resizing (ptyId : PtyId)
  | returned (ptyId : PtyId) (resumed : Bool)
  /-- with the error of the service, or one of the two calls -/
  | threw (error : Option JinError)
  deriving DecidableEq, Repr

inductive ClosePhase where
  | idle
  /-- before `executor.closePty` -/
  | closing (ptyId : PtyId) (reason : JsString)
  | done
  deriving DecidableEq, Repr

/-- a session that was finished: its closing audit, and the end that its listener was sent -/
structure Finish where
  ptyId : PtyId
  reason : JsString
  event : PtyEnd
  listener : Option OpenId
  deriving DecidableEq, Repr

structure Service where
  objects : PtyId → Option Session
  /-- the keys of `sessions` -/
  sessions : PtyId → Bool
  byWorkspace : WorkspaceId → Option PtyId
  opens : OpenId → OpenPhase
  closes : CloseId → ClosePhase
  /-- the ids that were given out, and the empty text, which is none -/
  used : List PtyId
  /-- newest first -/
  finished : List Finish

inductive Action where
  /-- `reservation` is the id that `randomUUID` gives -/
  | openOrAttach (o : OpenId) (workspaceId : WorkspaceId) (keepAliveMs : Option Int)
    (reservation : PtyId)
  | audited (o : OpenId)
  | opened (o : OpenId) (ptyId : PtyId)
  /-- the audit or the Executor throws -/
  | openFails (o : OpenId)
  /-- the resize of a session that was resumed returns or throws -/
  | resized (o : OpenId)
  | detach (ptyId : PtyId) (listener : OpenId)
  | setKeepAlive (ptyId : PtyId) (keepAliveMs : Int)
  | close (k : CloseId) (ptyId : PtyId)
  /-- `executor.closePty` returns or throws -/
  | closed (k : CloseId)
  | detachTimer (ptyId : PtyId) (k : CloseId)
  | lingerTimer (ptyId : PtyId)
  /-- the Executor answers the loop with a stream -/
  | pumpAnswered (ptyId : PtyId)
  /-- it throws, or the stream does -/
  | pumpFails (ptyId : PtyId) (notFound : Bool)
  | outputLine (ptyId : PtyId)
  | exitLine (ptyId : PtyId) (code : Int)
  | errorLine (ptyId : PtyId) (message : JsString)

namespace Service

/-- `this.sessions.get` -/
def get (s : Service) (ptyId : PtyId) : Option Session :=
  if s.sessions ptyId then s.objects ptyId else none

def put (s : Service) (ptyId : PtyId) (session : Session) : Service :=
  { s with objects := Function.update s.objects ptyId (some session) }

def setOpen (s : Service) (o : OpenId) (phase : OpenPhase) : Service :=
  { s with opens := Function.update s.opens o phase }

def setClose (s : Service) (k : CloseId) (phase : ClosePhase) : Service :=
  { s with closes := Function.update s.closes k phase }

def attach (session : Session) (listener : OpenId) : Session :=
  { session with detachTimer := .null, listener := some listener }

def armDetachTimer (session : Session) : Session := { session with detachTimer := .running }

def resumeSession (session : Session) (o : OpenId) (keepAliveMs : Option Int) : Session :=
  attach { session with keepAliveMs :=
    if keepAliveMs.isSome then clampKeepAlive keepAliveMs else session.keepAliveMs } o

def reserve (s : Service) (o : OpenId) (opening : Opening) : Option Service :=
  if opening.reservation ∈ s.used then none
  else some ({ s with
    byWorkspace := Function.update s.byWorkspace opening.workspaceId (some opening.reservation)
    used := opening.reservation :: s.used }.setOpen o (.auditing opening))

/-- `openOrAttach` up to its first await -/
def beginOpen (s : Service) (o : OpenId) (workspaceId : WorkspaceId) (keepAliveMs : Option Int)
    (reservation : PtyId) : Option Service :=
  let opening : Opening := ⟨workspaceId, clampKeepAlive keepAliveMs, reservation⟩
  match s.byWorkspace workspaceId with
  | none => s.reserve o opening
  | some existingId =>
    match s.get existingId with
    | none => some (s.setOpen o (.threw (some openingError)))
    | some existing =>
      if existing.ended = none then
        some ((s.put existingId (resumeSession existing o keepAliveMs)).setOpen o (.resizing existingId))
      else s.reserve o opening

/-- a new session with the listener of its call -/
def newSession (opening : Opening) (o : OpenId) : Session :=
  attach ⟨opening.workspaceId, none, opening.keepAliveMs, .null, .null, none, 0⟩ o

def endOpen (s : Service) (o : OpenId) (opening : Opening) (ptyId : PtyId) : Option Service :=
  if ptyId ∈ s.used then none
  else some ({ s with
    objects := Function.update s.objects ptyId (some (newSession opening o))
    sessions := Function.update s.sessions ptyId true
    byWorkspace := Function.update s.byWorkspace opening.workspaceId (some ptyId)
    used := ptyId :: s.used }.setOpen o (.returned ptyId false))

/-- the `catch` of `openOrAttach` -/
def failOpen (s : Service) (o : OpenId) (opening : Opening) : Service :=
  { s with byWorkspace := if s.byWorkspace opening.workspaceId = some opening.reservation then
      Function.update s.byWorkspace opening.workspaceId none else s.byWorkspace }.setOpen o (.threw none)

/-- `finish` up to its await, where nothing comes after it -/
def finish (s : Service) (ptyId : PtyId) (event : PtyEnd) (reason : JsString) : Service :=
  match s.objects ptyId with
  | none => s
  | some session =>
    if session.ended ≠ none then s
    else { s with
      objects := Function.update s.objects ptyId (some { session with
        ended := some event
        detachTimer := .null
        lingerTimer := .running })
      byWorkspace := if s.byWorkspace session.workspaceId = some ptyId then
        Function.update s.byWorkspace session.workspaceId none else s.byWorkspace
      finished := ⟨ptyId, reason, event, session.listener⟩ :: s.finished }

/-- `close` up to its await -/
def beginClose (s : Service) (k : CloseId) (ptyId : PtyId) (reason : JsString) : Service :=
  match s.get ptyId with
  | some session => s.setClose k (if session.ended = none then .closing ptyId reason else .done)
  | none => s.setClose k .done

def onDetach (s : Service) (ptyId : PtyId) (listener : OpenId) : Service :=
  match s.get ptyId with
  | some session =>
    if session.listener ≠ some listener then s
    else
      let session := { session with listener := none }
      s.put ptyId (if session.ended = none then armDetachTimer session else session)
  | none => s

def onSetKeepAlive (s : Service) (ptyId : PtyId) (keepAliveMs : Int) : Service :=
  match s.get ptyId with
  | some session =>
    if session.ended ≠ none then s
    else
      let session := { session with keepAliveMs := clampKeepAlive (some keepAliveMs) }
      s.put ptyId (if session.detachTimer ≠ .null then armDetachTimer session else session)
  | none => s

/-- the `catch` of the loop -/
def onPumpFails (s : Service) (ptyId : PtyId) (session : Session) (notFound : Bool) : Service :=
  if session.ended ≠ none then s
  else if notFound then
    s.finish ptyId (.error (lit "La terminal ya no existe en el servidor.")) (lit "ya no existía en el Executor")
  else if session.failures + 1 > pumpMaxRetries then
    s.finish ptyId (.error (lit "Se perdió la conexión con la terminal.")) (lit "conexión perdida")
  else s.put ptyId { session with failures := session.failures + 1 }

/-- a session that writes while nobody listens waits anew -/
def onOutputLine (session : Session) : Session :=
  if session.listener = none ∧ session.detachTimer ≠ .null then armDetachTimer session else session

def step (s : Service) : Action → Option Service
  | .openOrAttach o workspaceId keepAliveMs reservation =>
    match s.opens o with
    | .idle => s.beginOpen o workspaceId keepAliveMs reservation
    | _ => none
  | .audited o =>
    match s.opens o with
    | .auditing opening => some (s.setOpen o (.opening opening))
    | _ => none
  | .opened o ptyId =>
    match s.opens o with
    | .opening opening => s.endOpen o opening ptyId
    | _ => none
  | .openFails o =>
    match s.opens o with
    | .auditing opening | .opening opening => some (s.failOpen o opening)
    | _ => none
  | .resized o =>
    match s.opens o with
    | .resizing ptyId => some (s.setOpen o (.returned ptyId true))
    | _ => none
  | .detach ptyId listener => some (s.onDetach ptyId listener)
  | .setKeepAlive ptyId keepAliveMs => some (s.onSetKeepAlive ptyId keepAliveMs)
  | .close k ptyId =>
    match s.closes k with
    | .idle => some (s.beginClose k ptyId (lit "cerrada por el owner"))
    | _ => none
  | .closed k =>
    match s.closes k with
    | .closing ptyId reason => some ((s.finish ptyId (.exit (-1)) reason).setClose k .done)
    | _ => none
  | .detachTimer ptyId k =>
    match s.objects ptyId, s.closes k with
    | some session, .idle =>
      if session.detachTimer = .running then
        some ((s.put ptyId { session with detachTimer := .fired }).beginClose k ptyId
          (lit "sin app conectada"))
      else none
    | _, _ => none
  | .lingerTimer ptyId =>
    match s.objects ptyId with
    | some session =>
      if session.lingerTimer = .running then
        some { s.put ptyId { session with lingerTimer := .fired } with
          sessions := Function.update s.sessions ptyId false }
      else none
    | none => none
  | .pumpAnswered ptyId =>
    (s.objects ptyId).map fun session => s.put ptyId { session with failures := 0 }
  | .pumpFails ptyId notFound =>
    (s.objects ptyId).map fun session => s.onPumpFails ptyId session notFound
  | .outputLine ptyId =>
    (s.objects ptyId).map fun session => s.put ptyId (onOutputLine session)
  | .exitLine ptyId code =>
    (s.objects ptyId).map fun _ => s.finish ptyId (.exit code) (lit "el shell terminó")
  | .errorLine ptyId message =>
    (s.objects ptyId).map fun _ => s.finish ptyId (.error message) (lit "error de la terminal")

def init : Service where
  objects := fun _ => none
  sessions := fun _ => false
  byWorkspace := fun _ => none
  opens := fun _ => .idle
  closes := fun _ => .idle
  used := [lit ""]
  finished := []

end Service

end Terminal.Pty
