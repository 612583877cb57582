import JinCore.Common.Calls
import JinCore.Relay.Store

/-!
# Messages to the owner (`relay.service.ts`, `relay.store.ts`)

A call of `send` counts the messages of the last hour, and inserts its own if there is room; the calls
run beside each other, and each statement is one step.  There is one clock, of the process and of the
database, and it does not go back.

* `outQuotaExceeded`  the count;
* `Phase`             where a call of `send` stands;
* `Outbox`            the rows, the calls, and what has come of them;
* `Outbox.step`       one statement of one call, or a row from elsewhere.
-/

namespace Relay.Send
open JsString Common

def maxOutPerHour : Nat := 30

def hourMs : Int := 60 * 60 * 1000

def relayQuotaExceededError : JinError where
  message := lit "El puente ya mandó " ++ lit (toString maxOutPerHour)
    ++ lit " mensajes en la última hora. Se corta para no inundar al owner."
  code := lit "RELAY_QUOTA_EXCEEDED"
  httpStatus := some 429

structure Input where
  body : JsString
  options : Option (List JsString)
  deriving DecidableEq, Repr

inductive Phase where
  | idle
  /-- in `store.outQuotaExceeded`, with the time that it has read -/
  | counting (input : Input) (now : Int)
  /-- before `store.insertOutbound` -/
  | inserting (input : Input)
  /-- in `bot.deliver` -/
  | delivering (input : Input) (id : MessageId)
  /-- before `store.attachTelegramMessageId` -/
  | attaching (id : MessageId) (messageId : Int)
  | returned (id : MessageId)
  | threw (error : JinError)
  | failed
  deriving DecidableEq, Repr

structure Outbox where
  messages : Messages
  /-- the column `telegram_message_id` -/
  telegramMessageIds : MessageId → Option Int
  calls : CallId → Phase
  clock : Int
  /-- the rows that calls have inserted -/
  created : List (CallId × MessageId)
  /-- the chunks that have reached Telegram, each with its call and its row -/
  delivered : List (CallId × MessageId)
  /-- the messages that `relay-message.created` was emitted for -/
  emitted : List MessageId

inductive Action where
  | tick (now : Int)
  | insertInbound (id : MessageId) (body : JsString) (answerTo : Option MessageId)
  | send (c : CallId) (input : Input)
  /-- the count runs and is answered, or it throws -/
  | count (c : CallId) (heard : Bool)
  | insert (c : CallId) (id : MessageId) (fate : Fate)
  /-- so many chunks arrive; then `deliver` returns (the id of a message, if there is one), or throws -/
  | deliver (c : CallId) (chunks : Nat) (reply : Option (Option Int))
  | attach (c : CallId) (fate : Fate)

namespace Outbox

def set (s : Outbox) (c : CallId) (phase : Phase) : Outbox :=
  { s with calls := fun k => if k = c then phase else s.calls k }

/-- the outbound rows since a time -/
def sentSince (s : Outbox) (since : Int) : List RelayMessage :=
  s.messages.rows.filter fun row => row.direction = .outbound && decide (since ≤ row.createdAt)

def outQuotaExceeded (s : Outbox) (now : Int) : Bool :=
  decide (maxOutPerHour ≤ (s.sentSince (now - hourMs)).length)

def insertRow (s : Outbox) (row : RelayMessage) : Option Outbox :=
  (s.messages.insert row).map fun messages => { s with messages := messages }

def outboundRow (s : Outbox) (id : MessageId) (input : Input) : RelayMessage :=
  ⟨id, .outbound, input.body, input.options, none, s.clock⟩

/-- the event is emitted, and the call returns -/
def finish (s : Outbox) (c : CallId) (id : MessageId) : Outbox :=
  { s with emitted := id :: s.emitted }.set c (.returned id)

def afterCount (s : Outbox) (input : Input) (now : Int) : Phase :=
  if s.outQuotaExceeded now then .threw relayQuotaExceededError else .inserting input

def onInsert (s : Outbox) (c : CallId) (input : Input) (id : MessageId) : Fate → Option Outbox
  | .lost => some (s.set c .failed)
  | .ok => (s.insertRow (s.outboundRow id input)).map fun s =>
      { s with created := (c, id) :: s.created }.set c (.delivering input id)
  | .applied => (s.insertRow (s.outboundRow id input)).map fun s =>
      { s with created := (c, id) :: s.created }.set c .failed

def onDeliver (s : Outbox) (c : CallId) (id : MessageId) (chunks : Nat)
    (reply : Option (Option Int)) : Outbox :=
  let s := { s with delivered := List.replicate chunks (c, id) ++ s.delivered }
  match reply with
  | none => s.set c .failed
  | some none => s.finish c id
  | some (some messageId) => s.set c (.attaching id messageId)

def onAttach (s : Outbox) (c : CallId) (id : MessageId) (messageId : Int) (fate : Fate) : Outbox :=
  let written := fun k => if k = id then some messageId else s.telegramMessageIds k
  let s := if fate.applies then { s with telegramMessageIds := written } else s
  if fate = .ok then s.finish c id else s.set c .failed

def step (s : Outbox) : Action → Option Outbox
  | .tick now => if s.clock ≤ now then some { s with clock := now } else none
  | .insertInbound id body answerTo =>
    s.insertRow (Bridge.inboundRow id body answerTo s.clock)
  | .send c input =>
    match s.calls c with
    | .idle => some (s.set c (.counting input s.clock))
    | _ => none
  | .count c heard =>
    match s.calls c with
    | .counting input now => some (s.set c (if heard then s.afterCount input now else .failed))
    | _ => none
  | .insert c id fate =>
    match s.calls c with
    | .inserting input => s.onInsert c input id fate
    | _ => none
  | .deliver c chunks reply =>
    match s.calls c with
    | .delivering _ id => some (s.onDeliver c id chunks reply)
    | _ => none
  | .attach c fate =>
    match s.calls c with
    | .attaching id messageId => some (s.onAttach c id messageId fate)
    | _ => none

def empty (now : Int) : Outbox where
  messages := .empty RelayMessage.id
  telegramMessageIds := fun _ => none
  calls := fun _ => .idle
  clock := now
  created := []
  delivered := []
  emitted := []

end Outbox

end Relay.Send
