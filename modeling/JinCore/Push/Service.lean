import JinCore.Common.Calls
import JinCore.Lib.Runs
import JinCore.Lib.Table
import JinCore.Push.ApnsClient

/-!
# The calls of the push service (`push.service.ts`, `push.store.ts`, `push.controller.ts`)

Every statement and every request is one step, and the calls take theirs in any order.  A loop over
devices or activity tokens sends to one after the other, and deletes a token that Apple calls invalid
before it goes on.

* `PushStore`              the two tables, one definition for each statement;
* `Phase`, `Event`         where a call stands, and what has happened (newest first);
* `PushService.step`       one step of one call.
-/

namespace Push
open JsString Common

/-! ## the tables -/

structure PushDeviceRow where
  token : JsString
  environment : ApnsEnvironment
  preferences : List (JsString × Bool)
  createdAt : Int
  lastSeenAt : Int
  deriving DecidableEq, Repr

inductive Purpose where
  | update | start
  deriving DecidableEq, Repr

structure PushActivityTokenRow where
  token : JsString
  environment : ApnsEnvironment
  purpose : Purpose
  kind : Option JsString
  referenceId : Option JsString
  createdAt : Int
  deriving DecidableEq, Repr

structure DeviceInput where
  token : JsString
  environment : ApnsEnvironment
  preferences : List (JsString × Bool)
  deriving DecidableEq, Repr

structure ActivityTokenInput where
  token : JsString
  environment : ApnsEnvironment
  purpose : Purpose
  kind : Option JsString
  referenceId : Option JsString
  deriving DecidableEq, Repr

def activityTokenMaxAgeMs : Int := 12 * 60 * 60 * 1000

structure PushStore where
  devices : Table PushDeviceRow.token
  activityTokens : Table PushActivityTokenRow.token

namespace PushStore

def empty : PushStore := ⟨.empty _, .empty _⟩

def upsertDevice (s : PushStore) (input : DeviceInput) (now : Int) : PushStore :=
  { s with
    devices := s.devices.set
      (match s.devices.get input.token with
        | none => ⟨input.token, input.environment, input.preferences, now, now⟩
        | some row => { row with
            token := input.token, environment := input.environment, preferences := input.preferences, lastSeenAt := now }) }

def deleteDevice (s : PushStore) (token : JsString) : PushStore := { s with devices := s.devices.erase token }

def isStart (environment : ApnsEnvironment) (row : PushActivityTokenRow) : Bool :=
  row.purpose = .start && row.environment = environment

/-- the delete of `upsertActivityToken` -/
def deleteStartTokens (s : PushStore) (environment : ApnsEnvironment) : PushStore :=
  { s with activityTokens := s.activityTokens.keep fun row => !isStart environment row }

/-- the insert of `upsertActivityToken`: a row that is there keeps its purpose and its environment -/
def insertActivityToken (s : PushStore) (input : ActivityTokenInput) (now : Int) : PushStore :=
  { s with
    activityTokens := s.activityTokens.set
      (match s.activityTokens.get input.token with
        | none => ⟨input.token, input.environment, input.purpose, input.kind, input.referenceId, now⟩
        | some row => { row with token := input.token, kind := input.kind, referenceId := input.referenceId }) }

def deleteActivityToken (s : PushStore) (token : JsString) : PushStore :=
  { s with activityTokens := s.activityTokens.erase token }

def pruneActivityTokens (s : PushStore) (now : Int) : PushStore :=
  { s with activityTokens := s.activityTokens.keep fun row =>
      !(decide (row.purpose = .update) && decide (row.createdAt < now - activityTokenMaxAgeMs)) }

/-- the select of `activityTokensFor` -/
def activityTokensFor (s : PushStore) (referenceId : JsString) : List PushActivityTokenRow :=
  s.activityTokens.rows.filter fun row => row.purpose = .update && row.referenceId = some referenceId

def startTokens (s : PushStore) : List PushActivityTokenRow := s.activityTokens.rows.filter fun row => row.purpose = .start

end PushStore

/-! ## the calls -/

structure Target where
  token : JsString
  environment : ApnsEnvironment
  deriving DecidableEq, Repr

/-- which table the tokens of a loop are from -/
inductive Audience where
  | devices | activities
  deriving DecidableEq, Repr

/-- a loop over tokens: those to come, and how many sends have succeeded and failed -/
structure Sending where
  audience : Audience
  notification : ApnsNotification
  rest : List Target
  sent : Nat
  failed : Nat

inductive Phase where
  | idle
  /-- before `listDevices` -/
  | listing (kind : Option PushKind) (notification : ApnsNotification)
  /-- before the delete, and before the select, of `activityTokensFor` -/
  | pruning (referenceId : JsString) (start : Option ApnsNotification) (notification : ApnsNotification)
  | selecting (referenceId : JsString) (start : Option ApnsNotification) (notification : ApnsNotification)
  /-- before `startTokens` -/
  | starting (notification : ApnsNotification)
  /-- a request is on its way -/
  | awaiting (loop : Sending) (target : Target)
  /-- before `deleteDevice` or `deleteActivityToken` -/
  | deleting (loop : Sending) (target : Target)
  | registering (input : DeviceInput)
  | unregistering (token : JsString)
  /-- before the delete, and before the insert, of `upsertActivityToken` -/
  | replacing (input : ActivityTokenInput)
  | inserting (input : ActivityTokenInput)
  | returned (sent failed : Nat)
  /-- a statement threw -/
  | threw

/-- `start` is what starts a Live Activity of the run if no one follows it yet -/
inductive Entry where
  | broadcast (kind : Option PushKind) (notification : ApnsNotification)
  | runChanged (referenceId : JsString) (start : Option ApnsNotification) (notification : ApnsNotification)
  | startActivity (notification : ApnsNotification)
  | upsertDevice (input : DeviceInput)
  | deleteDevice (token : JsString)
  | upsertActivityToken (input : ActivityTokenInput)

/-- the first statement of a call -/
def Entry.phase : Entry → Phase
  | .broadcast kind notification => .listing kind notification
  | .runChanged referenceId start notification => .pruning referenceId start notification
  | .startActivity notification => .starting notification
  | .upsertDevice input => .registering input
  | .deleteDevice token => .unregistering token
  | .upsertActivityToken input => if input.purpose = .start then .replacing input else .inserting input

inductive Event where
  | listed (c : CallId) (targets : List Target)
  | sent (c : CallId) (target : Target)
  | answered (c : CallId) (target : Target) (result : ApnsSendResult)
  /-- a loop has deleted a token -/
  | removed (c : CallId) (audience : Audience) (token : JsString)
  | registered (input : DeviceInput)
  | unregistered (token : JsString)
  /-- the start tokens of an environment are deleted, and one of them is inserted -/
  | cleared (c : CallId) (environment : ApnsEnvironment)
  | stored (c : CallId) (input : ActivityTokenInput)
  deriving DecidableEq, Repr

structure PushService where
  store : PushStore
  calls : CallId → Phase
  events : List Event

inductive Action where
  | start (c : CallId) (entry : Entry)
  /-- the select of all devices, whose rows come in any order -/
  | listDevices (c : CallId) (rows : List PushDeviceRow)
  | selectTokens (c : CallId) (rows : List PushActivityTokenRow)
  /-- a select throws -/
  | selectThrew (c : CallId)
  | answer (c : CallId) (reply : Reply)
  /-- a statement that writes, at an instant -/
  | statement (c : CallId) (now : Int) (fate : Fate)

/-- what a statement does to the tables, what is told of it, and how the call goes on -/
structure Writing where
  store : PushStore
  event : Option Event
  next : PushService → PushService

def PushDeviceRow.target (row : PushDeviceRow) : Target := ⟨row.token, row.environment⟩
def PushActivityTokenRow.target (row : PushActivityTokenRow) : Target := ⟨row.token, row.environment⟩

/-- a test goes to every device -/
def wants (kind : Option PushKind) (row : PushDeviceRow) : Bool :=
  match kind with
  | some k => wantsKind row.preferences k
  | none => true

def wantedTargets (kind : Option PushKind) (rows : List PushDeviceRow) : List Target :=
  (rows.filter (wants kind)).map PushDeviceRow.target

namespace PushService

def initial : PushService := ⟨.empty, fun _ => .idle, []⟩

def set (s : PushService) (c : CallId) (phase : Phase) : PushService :=
  { s with calls := fun k => if k = c then phase else s.calls k }

def tell (s : PushService) (event : Event) : PushService := { s with events := event :: s.events }

/-- the next turn of a loop -/
def go (s : PushService) (c : CallId) (loop : Sending) : PushService :=
  match loop.rest with
  | [] => s.set c (.returned loop.sent loop.failed)
  | target :: rest => (s.tell (.sent c target)).set c (.awaiting { loop with rest := rest } target)

/-- a loop begins with the rows that were read -/
def loop (s : PushService) (c : CallId) (audience : Audience) (notification : ApnsNotification)
    (targets : List Target) : PushService :=
  (s.tell (.listed c targets)).go c ⟨audience, notification, targets, 0, 0⟩

def onAnswer (s : PushService) (c : CallId) (loop : Sending) (target : Target) (result : ApnsSendResult) :
    PushService :=
  let t := s.tell (.answered c target result)
  match result with
  | .ok => t.go c { loop with sent := loop.sent + 1 }
  | .rejected _ _ true => t.set c (.deleting { loop with failed := loop.failed + 1 } target)
  | .rejected _ _ false => t.go c { loop with failed := loop.failed + 1 }

/-- the statement that a call is about to send -/
def writing (s : PushService) (c : CallId) (now : Int) : Phase → Option Writing
  | .pruning referenceId start notification =>
    some ⟨s.store.pruneActivityTokens now, none, fun t => t.set c (.selecting referenceId start notification)⟩
  | .deleting loop target =>
    some ⟨match loop.audience with
        | .devices => s.store.deleteDevice target.token
        | .activities => s.store.deleteActivityToken target.token,
      some (.removed c loop.audience target.token), fun t => t.go c loop⟩
  | .registering input =>
    some ⟨s.store.upsertDevice input now, some (.registered input), fun t => t.set c (.returned 0 0)⟩
  | .unregistering token =>
    some ⟨s.store.deleteDevice token, some (.unregistered token), fun t => t.set c (.returned 0 0)⟩
  | .replacing input =>
    some ⟨s.store.deleteStartTokens input.environment, some (.cleared c input.environment),
      fun t => t.set c (.inserting input)⟩
  | .inserting input =>
    some ⟨s.store.insertActivityToken input now, some (.stored c input), fun t => t.set c (.returned 0 0)⟩
  | _ => none

/-- the tables after a statement -/
def applied (s : PushService) (w : Writing) (fate : Fate) : PushService :=
  if fate.applies = true then { s with store := w.store, events := w.event.toList ++ s.events } else s

def write (s : PushService) (c : CallId) (w : Writing) (fate : Fate) : PushService :=
  if fate = .ok then w.next (s.applied w fate) else (s.applied w fate).set c .threw

/-- the tokens of a run are read, and those that start an activity if there are none -/
def onSelect (s : PushService) (c : CallId) (rows : List PushActivityTokenRow) : Phase → Option PushService
  | .selecting referenceId start notification =>
    if rows.Perm (s.store.activityTokensFor referenceId) then
      if rows.length = 0 then
        match start with
        | some first => some (s.set c (.starting first))
        | none => some (s.set c (.returned 0 0))
      else some (s.loop c .activities notification (rows.map PushActivityTokenRow.target))
    else none
  | .starting notification =>
    if rows.Perm s.store.startTokens then
      some (s.loop c .activities notification (rows.map PushActivityTokenRow.target))
    else none
  | _ => none

def step (s : PushService) : Action → Option PushService
  | .start c entry =>
    match s.calls c with
    | .idle => some (s.set c entry.phase)
    | _ => none
  | .listDevices c rows =>
    match s.calls c with
    | .listing kind notification =>
      if rows.Perm s.store.devices.rows then
        some (s.loop c .devices notification (wantedTargets kind rows))
      else none
    | _ => none
  | .selectTokens c rows => s.onSelect c rows (s.calls c)
  | .selectThrew c =>
    match s.calls c with
    | .listing _ _ | .selecting _ _ _ | .starting _ => some (s.set c .threw)
    | _ => none
  | .answer c reply =>
    match s.calls c with
    | .awaiting loop target => some (s.onAnswer c loop target (sendResult reply))
    | _ => none
  | .statement c now fate => (s.writing c now (s.calls c)).map fun w => s.write c w fate

end PushService

end Push
