import JinCore.Common.Calls
import JinCore.Lib.Table
import JinCore.ModelProvider.Types
import JinCore.Security.InjectionSanitizer

/-!
# The sessions of the owner's chat (`telegram-bot.service.ts`)

A message, `/endsession` and the cron of every five minutes each have a handler; the handlers run
beside each other, and each statement is one step.

* `formatTranscriptForConsolidation`, `memoryContext`, `windowTurns`   what is made of a transcript;
* `Phase`            where a handler stands, with the session as it has read it;
* `Chat`             the table of the sessions, the handlers, and what has come of them so far;
* `Chat.step`        one step of one handler.
-/

namespace Telegram
open JsString Common ModelProvider Security

abbrev SessionId := JsString

abbrev HandlerId := Nat

structure Entry where
  role : Role
  content : JsString
  deriving DecidableEq, Repr

abbrev Transcript := List Entry

inductive SessionStatus where
  | active | consolidated
  deriving DecidableEq, Repr

structure TelegramSession where
  id : SessionId
  transcript : Transcript
  status : SessionStatus
  lastActivityAt : Int
  deriving DecidableEq, Repr

abbrev Sessions := Table TelegramSession.id

/-! ## constants -/

def sessionInactivityMs : Int := 30 * 60 * 1000

def maxSessionMessages : Nat := 30

def maxWindowMessages : Nat := 20

def memoryContextPrefix : JsString := lit "[CONTEXTO DE MEMORIA REUTILIZABLE]"

/-! ## transcripts -/

def isInactive (session : TelegramSession) (now : Int) : Bool :=
  decide (now - session.lastActivityAt > sessionInactivityMs)

def isTooLong (session : TelegramSession) : Bool :=
  decide (session.transcript.length ≥ maxSessionMessages)

def roleLabel : Role → JsString
  | .user => lit "Usuario"
  | .assistant => lit "Jin"

def formatTranscriptForConsolidation (transcript : Transcript) : JsString :=
  joinWith (lit "\n\n") (transcript.map fun turn => roleLabel turn.role ++ lit ": " ++ turn.content)

structure MemoryEntry where
  tipo : JsString
  content : JsString
  deriving DecidableEq, Repr

/-- the transcript that a session starts with; a recall that throws is logged -/
def memoryContext : Option (List MemoryEntry) → Transcript
  | none | some [] => []
  | some memories =>
    [⟨.user, memoryContextPrefix ++ lit ":\n" ++ joinWith (lit "\n")
        (memories.map fun m => lit "- [" ++ m.tipo ++ lit "] " ++ m.content)⟩,
      ⟨.assistant,
        lit "Entendido. Utilizaré este contexto de memoria para guiar mis respuestas."⟩]

def hasSyntheticMemory (transcript : Transcript) : Bool :=
  decide (transcript.length ≥ 2) &&
    transcript.head?.any fun first => memoryContextPrefix.units.isPrefixOf first.content.units

/-- `slice(-n)` -/
def sliceLast (n : Nat) (transcript : Transcript) : Transcript :=
  transcript.drop (transcript.length - n)

def windowTurns (transcript : Transcript) : Transcript :=
  if hasSyntheticMemory transcript then
    transcript.take 2 ++ sliceLast maxWindowMessages (transcript.drop 2)
  else sliceLast maxWindowMessages transcript

def history (transcript : Transcript) : List ModelMessage :=
  (windowTurns transcript).map fun turn => ⟨turn.role, .text turn.content⟩

/-! ## the handlers -/

/-- a turn that `runTurn` has returned from -/
structure Turn where
  handler : HandlerId
  sessionId : SessionId
  text : JsString
  response : JsString
  deriving DecidableEq, Repr

def Turn.pair (turn : Turn) : Transcript := [⟨.user, turn.text⟩, ⟨.assistant, turn.response⟩]

/-- the argument of `consolidateAndCloseSession`, and the message that goes on after it -/
structure Close where
  session : TelegramSession
  next : Option JsString
  deriving DecidableEq, Repr

inductive Phase where
  | idle
  /-- before `memoryService.consolidate` -/
  | consolidating (close : Close)
  /-- before the update of the status -/
  | marking (close : Close)
  | recalling (text : JsString)
  | inserting (text : JsString) (transcript : Transcript)
  /-- in `runTurn` -/
  | turning (text : JsString) (session : TelegramSession) (history : List ModelMessage)
  /-- before the update of the transcript -/
  | saving (turn : Turn) (session : TelegramSession)
  | replying (turn : Turn)
  | ended
  deriving DecidableEq, Repr

structure Chat where
  sessions : Sessions
  handlers : HandlerId → Phase
  /-- the transcript that a session was inserted with -/
  inserted : SessionId → Transcript
  /-- the turns that `runTurn` has returned from, oldest first -/
  completed : List Turn
  /-- the turns whose response the owner was sent -/
  answered : List Turn
  /-- the texts that were passed to the memory -/
  passed : List (SessionId × JsString)

inductive Action where
  /-- the flag is read, then the active session: one of them, or none if there is none -/
  | message (h : HandlerId) (enabled : Bool) (text : JsString) (active : Option SessionId) (now : Int)
  | endSession (h : HandlerId) (active : Option SessionId)
  | checkInactivity (h : HandlerId) (active : Option SessionId) (now : Int)
  | consolidate (h : HandlerId)
  | mark (h : HandlerId) (fate : Fate) (now : Int)
  /-- `none` is a recall that throws -/
  | recallMemories (h : HandlerId) (memories : Option (List MemoryEntry))
  | insert (h : HandlerId) (id : SessionId) (fate : Fate) (now : Int)
  /-- `none` is a turn that throws -/
  | turn (h : HandlerId) (response : Option JsString)
  | save (h : HandlerId) (fate : Fate) (now : Int)
  | reply (h : HandlerId) (sent : Bool)

namespace Chat

def set (s : Chat) (h : HandlerId) (phase : Phase) : Chat :=
  { s with handlers := fun k => if k = h then phase else s.handlers k }

/-- `getActiveDbSession`: `limit(1)` without an order gives any active row -/
def activeSession (s : Chat) : Option SessionId → Option (Option TelegramSession)
  | none => if s.sessions.rows.all fun row => row.status ≠ .active then some none else none
  | some id =>
    match s.sessions.get id with
    | some row => if row.status = .active then some (some row) else none
    | none => none

/-- `runTurn` is called with the session as it was read -/
def beginTurn (text : JsString) (session : TelegramSession) : Phase :=
  .turning text session (history session.transcript)

/-- after the read of a message -/
def onText (text : JsString) (now : Int) : Option TelegramSession → Phase
  | none => .recalling text
  | some session =>
    if isInactive session now || isTooLong session then .consolidating ⟨session, some text⟩
    else beginTurn text session

def onEndSession : Option TelegramSession → Phase
  | none => .ended
  | some session => .consolidating ⟨session, none⟩

def onCheckInactivity (now : Int) : Option TelegramSession → Phase
  | none => .ended
  | some session => if isInactive session now then .consolidating ⟨session, none⟩ else .ended

def afterMark (close : Close) : Phase :=
  match close.next with
  | some text => .recalling text
  | none => .ended

def markRow (s : Chat) (close : Close) (now : Int) : Chat :=
  let close' (row : TelegramSession) : TelegramSession :=
    { row with status := .consolidated, lastActivityAt := now }
  { s with sessions := s.sessions.modify close.session.id close' fun _ => rfl }

/-- the whole transcript is written, from the session as it was read -/
def saveRow (s : Chat) (turn : Turn) (session : TelegramSession) (now : Int) : Chat :=
  let updatedTranscript := session.transcript ++ turn.pair
  let save (row : TelegramSession) : TelegramSession :=
    { row with transcript := updatedTranscript, lastActivityAt := now }
  { s with sessions := s.sessions.modify session.id save fun _ => rfl }

/-- the text is passed unless it is blank; what the memory throws is logged -/
def pass (s : Chat) (session : TelegramSession) : Chat :=
  let fullTranscript := formatTranscriptForConsolidation session.transcript
  if fullTranscript.isBlank then s
  else { s with passed := (session.id, fullTranscript) :: s.passed }

def insertRow (s : Chat) (row : TelegramSession) : Option Chat :=
  (s.sessions.insert row).map fun sessions => { s with
    sessions := sessions
    inserted := fun id => if id = row.id then row.transcript else s.inserted id }

def step (s : Chat) : Action → Option Chat
  | .message h enabled text active now =>
    match s.handlers h with
    | .idle =>
      if (lit "/").units.isPrefixOf text.units || !enabled then some (s.set h .ended)
      else (s.activeSession active).map fun session => s.set h (onText text now session)
    | _ => none
  | .endSession h active =>
    match s.handlers h with
    | .idle => (s.activeSession active).map fun session => s.set h (onEndSession session)
    | _ => none
  | .checkInactivity h active now =>
    match s.handlers h with
    | .idle => (s.activeSession active).map fun session => s.set h (onCheckInactivity now session)
    | _ => none
  | .consolidate h =>
    match s.handlers h with
    | .consolidating close => some ((s.pass close.session).set h (.marking close))
    | _ => none
  | .mark h fate now =>
    match s.handlers h with
    | .marking close =>
      some ((if fate.applies then s.markRow close now else s).set h
        (if fate = .ok then afterMark close else .ended))
    | _ => none
  | .recallMemories h memories =>
    match s.handlers h with
    | .recalling text => some (s.set h (.inserting text (memoryContext memories)))
    | _ => none
  | .insert h id fate now =>
    match s.handlers h with
    | .inserting text transcript =>
      let row : TelegramSession := ⟨id, transcript, .active, now⟩
      (if fate.applies then s.insertRow row else some s).map fun s =>
        s.set h (if fate = .ok then beginTurn text row else .ended)
    | _ => none
  | .turn h response =>
    match s.handlers h with
    | .turning text session _ =>
      match response with
      | none => some (s.set h .ended)
      | some response =>
        let turn : Turn := ⟨h, session.id, text, response⟩
        some ({ s with completed := s.completed ++ [turn] }.set h (.saving turn session))
    | _ => none
  | .save h fate now =>
    match s.handlers h with
    | .saving turn session =>
      some ((if fate.applies then s.saveRow turn session now else s).set h
        (if fate = .ok then .replying turn else .ended))
    | _ => none
  | .reply h sent =>
    match s.handlers h with
    | .replying turn =>
      some ({ s with answered := if sent then s.answered ++ [turn] else s.answered }.set h .ended)
    | _ => none

def empty : Chat where
  sessions := .empty TelegramSession.id
  handlers := fun _ => .idle
  inserted := fun _ => []
  completed := []
  answered := []
  passed := []

end Chat

end Telegram
