import JinCore.Relay.Send
import JinCore.Telegram.Splitting

/-!
# The chat with the owner (`relay-bot.service.ts`)

`deliver` sends a message for each chunk of a body, with the buttons on the last, and returns the id of
the first.  A text of the owner may quote a message of the chat; its handler looks for the question
that the message belongs to, and inserts a row.

* `chunksOf`        the chunks of a body;
* `Posted`          a message of the chat;
* `Reply`           where the handler of a text of the owner stands;
* `Chat`            the outbox, how far the deliveries are, the chat, the handlers;
* `Chat.step`       one statement of a call or of a handler, or a message of the owner.
-/

namespace Relay.Chats
open JsString Common Send Telegram

def chunksOf (letter : Nat → Bool) (body : JsString) : List (List UInt16) :=
  splitForTelegram (markdownToTelegramHtml letter body).units telegramChunkLimit

structure Posted where
  messageId : Int
  text : List UInt16
  /-- the row that it is a chunk of, and which -/
  chunk : Option (MessageId × Nat)
  buttons : Bool
  deriving DecidableEq

/-- how far `deliver` is -/
structure Delivery where
  sent : Nat
  firstMessageId : Option Int
  deriving DecidableEq

inductive Reply where
  | idle
  /-- before `store.pendingQuestions` -/
  | finding (text : JsString) (repliedId : Int)
  /-- before `store.insertInbound` -/
  | inserting (text : JsString) (answerTo : Option MessageId)
  | returned
  | threw
  deriving DecidableEq

/-- what a handler has found, and what it was asked for -/
structure Found where
  handler : HandlerId
  /-- the row that the quoted message is a chunk of -/
  source : Option MessageId
  /-- the same, if the buttons of the question are in the chat -/
  due : Option MessageId
  answerTo : Option MessageId

structure Chat where
  outbox : Outbox
  deliveries : CallId → Delivery
  posted : List Posted
  handlers : HandlerId → Reply
  found : List Found
  /-- the rows that handlers have inserted -/
  stored : List (HandlerId × MessageId)

inductive Action where
  /-- a step of a call that is not in `deliver` -/
  | outbox (a : Send.Action)
  /-- the next chunk, in plain text if its HTML was `rejected` -/
  | post (c : CallId) (messageId : Int) (rejected : Bool) (fate : Fate)
  /-- there is no chunk -/
  | noChunks (c : CallId)
  /-- a message of the chat that no handler takes for a text of the owner -/
  | other (messageId : Int) (text : List UInt16)
  /-- a text of the owner, which may quote a message -/
  | text (h : HandlerId) (messageId : Int) (text : JsString) (replyTo : Option Int)
  /-- the questions, oldest first -/
  | find (h : HandlerId) (questions : List RelayMessage)
  | insert (h : HandlerId) (id : MessageId) (fate : Fate)
  /-- the search throws -/
  | throws (h : HandlerId)

namespace Chat

def set (s : Chat) (h : HandlerId) (reply : Reply) : Chat :=
  { s with handlers := fun k => if k = h then reply else s.handlers k }

def progress (s : Chat) (c : CallId) (delivery : Delivery) : Chat :=
  { s with deliveries := fun k => if k = c then delivery else s.deliveries k }

def fresh (s : Chat) (messageId : Int) : Bool := s.posted.all fun x => x.messageId ≠ messageId

def withOutbox (s : Chat) (outbox : Option Outbox) : Option Chat :=
  outbox.map fun outbox => { s with outbox := outbox }

/-- the outbound rows with options -/
def pendingQuestions (s : Chat) : List RelayMessage :=
  s.outbox.messages.rows.filter fun row => row.direction = .outbound && row.options.isSome

/-- the order of the rows that the database may give -/
def IsPending (s : Chat) (questions : List RelayMessage) : Prop :=
  questions.Perm s.pendingQuestions ∧ questions.Pairwise fun row row' => row.createdAt ≤ row'.createdAt

instance (s : Chat) (questions : List RelayMessage) : Decidable (s.IsPending questions) :=
  inferInstanceAs (Decidable (_ ∧ _))

def findQuestionByTelegramMessageId (s : Chat) (questions : List RelayMessage) (messageId : Int) :
    Option MessageId :=
  (questions.find? fun q => s.outbox.telegramMessageIds q.id = some messageId).map RelayMessage.id

/-- the message with an id, and the row that it is a chunk of -/
def message (s : Chat) (messageId : Int) : Option Posted :=
  s.posted.find? fun x => x.messageId = messageId

def source (s : Chat) (messageId : Int) : Option MessageId :=
  (s.message messageId).bind fun x => x.chunk.map Prod.fst

/-- the message with the buttons of a question is in the chat -/
def hasButtons (s : Chat) (questionId : MessageId) : Bool :=
  s.posted.any fun x => x.buttons && decide (x.chunk.map Prod.fst = some questionId)

def due (s : Chat) (messageId : Int) : Option MessageId := (s.source messageId).filter s.hasButtons

def afterText (text : JsString) (replyTo : Option Int) : Reply :=
  if (Blanks.trim isSpace text.units).length = 0 then .returned
  else match replyTo with
    | none => .inserting ⟨Blanks.trim isSpace text.units⟩ none
    | some repliedId => .finding ⟨Blanks.trim isSpace text.units⟩ repliedId

def onFind (s : Chat) (h : HandlerId) (text : JsString) (repliedId : Int)
    (questions : List RelayMessage) : Chat :=
  let answerTo := s.findQuestionByTelegramMessageId questions repliedId
  { s with found := ⟨h, s.source repliedId, s.due repliedId, answerTo⟩ :: s.found }.set h
    (.inserting text answerTo)

def onInsert (s : Chat) (h : HandlerId) (text : JsString) (answerTo : Option MessageId)
    (id : MessageId) (fate : Fate) : Option Chat :=
  if fate.applies then
    (s.outbox.insertRow (Bridge.inboundRow id text answerTo s.outbox.clock)).map fun outbox =>
      { s with outbox := outbox, stored := (h, id) :: s.stored }.set h
        (if fate = Fate.ok then .returned else .threw)
  else some (s.set h .threw)

section
variable (chunks : JsString → List (List UInt16))

/-- the message of a chunk -/
def postedOf (input : Input) (id : MessageId) (k : Nat) (chunk : List UInt16) (messageId : Int)
    (rejected : Bool) : Posted where
  messageId := messageId
  text := if rejected then htmlToPlain chunk else chunk
  chunk := some (id, k)
  buttons := decide (k + 1 = (chunks input.body).length) && !(input.options.getD []).isEmpty

/-- a chunk has arrived -/
def onPost (s : Chat) (c : CallId) (input : Input) (x : Posted) (heard : Bool) : Option Chat :=
  let k := (s.deliveries c).sent
  let s := { s with posted := x :: s.posted }
  if heard then
    let first := (s.deliveries c).firstMessageId.or (some x.messageId)
    if k + 1 = (chunks input.body).length then
      s.withOutbox (s.outbox.step (.deliver c (k + 1) (some first)))
    else some (s.progress c ⟨k + 1, first⟩)
  else s.withOutbox (s.outbox.step (.deliver c (k + 1) none))

def step (s : Chat) : Action → Option Chat
  | .outbox a =>
    match a with
    | .deliver _ _ _ => none
    | .insert c _ _ => (s.progress c ⟨0, none⟩).withOutbox (s.outbox.step a)
    | _ => s.withOutbox (s.outbox.step a)
  | .post c messageId rejected fate =>
    match s.outbox.calls c with
    | .delivering input id =>
      match (chunks input.body)[(s.deliveries c).sent]? with
      | some chunk =>
        if fate.applies then
          if s.fresh messageId then
            s.onPost chunks c input
              (postedOf chunks input id (s.deliveries c).sent chunk messageId rejected) (fate = Fate.ok)
          else none
        else s.withOutbox (s.outbox.step (.deliver c (s.deliveries c).sent none))
      | none => none
    | _ => none
  | .noChunks c =>
    match s.outbox.calls c with
    | .delivering input _ =>
      if chunks input.body = [] then s.withOutbox (s.outbox.step (.deliver c 0 (some none))) else none
    | _ => none
  | .other messageId text =>
    if s.fresh messageId then
      some { s with posted := ⟨messageId, text, none, false⟩ :: s.posted }
    else none
  | .text h messageId text replyTo =>
    match s.handlers h with
    | .idle =>
      if s.fresh messageId ∧ ∀ repliedId ∈ replyTo, (s.message repliedId).isSome then
        some ({ s with posted := ⟨messageId, text.units, none, false⟩ :: s.posted }.set h
          (afterText text replyTo))
      else none
    | _ => none
  | .find h questions =>
    match s.handlers h with
    | .finding text repliedId =>
      if s.IsPending questions then some (s.onFind h text repliedId questions) else none
    | _ => none
  | .insert h id fate =>
    match s.handlers h with
    | .inserting text answerTo => s.onInsert h text answerTo id fate
    | _ => none
  | .throws h =>
    match s.handlers h with
    | .finding _ _ => some (s.set h .threw)
    | _ => none

end

def empty (now : Int) : Chat where
  outbox := .empty now
  deliveries := fun _ => ⟨0, none⟩
  posted := []
  handlers := fun _ => .idle
  found := []
  stored := []

end Chat

end Relay.Chats
