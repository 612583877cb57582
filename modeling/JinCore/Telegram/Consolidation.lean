import JinCore.Memory.Store
import JinCore.Telegram.Sessions

/-!
# What a session leaves in the memory (`memory.service.ts`, `consolidation.service.ts`)

The handlers of the chat, with each step of `MemoryService.consolidate` in place of the one that passes
it a text.  A close consolidates the transcript of its session, and the compaction of a turn a part of
its history.

* `DistilledEntry`, `candidateInput`   what the model distils, and what is inserted for it;
* `Progress`          where a handler stands in `consolidate`;
* `Closing`           the chat, the memory, and the distillations so far;
* `Closing.step`      one step of one handler.
-/

namespace Telegram
open JsString Common

structure DistilledEntry where
  content : JsString
  tipo : Memory.MemoryEntryType
  deriving DecidableEq, Repr

def consolidationSource : JsString := lit "agent_reflection"

def embeddingModelId : JsString := lit "text-embedding-3-large:1024"

/-- the input of `MemoryStore.insert`, which nothing is sanitized in -/
def candidateInput (sessionId : SessionId) (candidate : DistilledEntry) (fecha : JsString) :
    Memory.InsertEntryInput where
  content := candidate.content
  tipo := candidate.tipo
  fuente := consolidationSource
  fecha := fecha
  modeloEmbedding := embeddingModelId
  sessionId := some sessionId

/-- where a handler stands in `consolidate` -/
inductive Progress where
  /-- before `distill` -/
  | idle
  /-- in the loop over the candidates, with those that are to come -/
  | storing (candidates rest : List DistilledEntry)
  /-- it has thrown, and what it threw is logged -/
  | failed
  deriving DecidableEq, Repr

/-- the candidates that a session and a text were distilled into -/
structure Distillation where
  sessionId : SessionId
  text : JsString
  candidates : List DistilledEntry
  deriving DecidableEq, Repr

structure Closing (ν : Type) where
  chat : Chat
  progress : HandlerId → Progress
  memory : Memory.MemoryStore ν
  distillations : List Distillation

inductive ClosingAction (ν : Type) where
  | chat (action : Action)
  /-- `distill`, which throws or gives its candidates -/
  | distill (h : HandlerId) (answer : Option (List DistilledEntry))
  /-- `compact`, with the part of the history that it consolidates -/
  | compact (h : HandlerId) (text : JsString) (answer : Option (List DistilledEntry))
  /-- `remember` of the next candidate: the embedding, if it is made, and if the row is stored -/
  | remember (h : HandlerId) (embedding : Option ν) (stored : Bool) (fecha : JsString)

namespace Closing
variable {ν : Type}

def setProgress (s : Closing ν) (h : HandlerId) (progress : Progress) : Closing ν :=
  { s with progress := fun k => if k = h then progress else s.progress k }

/-- the session that a handler consolidates for -/
def sessionOf : Phase → Option SessionId
  | .consolidating close => some close.session.id
  | .turning _ session _ => some session.id
  | _ => none

/-- `consolidate` has returned or thrown, or was not called -/
def isOver : Progress → Bool
  | .storing _ rest => rest.isEmpty
  | .failed => true
  | .idle => false

/-- the text of a close is consolidated unless it is blank -/
def fullTranscript (close : Close) : JsString :=
  formatTranscriptForConsolidation close.session.transcript

/-- the handler can go on in the chat -/
def canGoOn (s : Closing ν) : Action → Bool
  | .consolidate h =>
    match s.chat.handlers h with
    | .consolidating close => (fullTranscript close).isBlank || isOver (s.progress h)
    | _ => true
  | .turn h _ => s.progress h = .idle || isOver (s.progress h)
  | _ => true

/-- a handler that goes on after `consolidate` has left it -/
def afterChat (s : Closing ν) (chat : Chat) : Action → Closing ν
  | .consolidate h | .turn h _ => { s with chat := chat }.setProgress h .idle
  | _ => { s with chat := chat }

def onDistill (s : Closing ν) (h : HandlerId) (sessionId : SessionId) (text : JsString) :
    Option (List DistilledEntry) → Closing ν
  | none => s.setProgress h .failed
  | some candidates =>
    { s with distillations := ⟨sessionId, text, candidates⟩ :: s.distillations }.setProgress h
      (.storing candidates candidates)

/-- the row of the next candidate, or what throws before there is one -/
def onRemember (s : Closing ν) (h : HandlerId) (candidates rest : List DistilledEntry)
    (input : Memory.InsertEntryInput) (stored : Bool) : Option ν → Closing ν
  | none => s.setProgress h .failed
  | some embedding =>
    match s.memory.insert (δ := Unit) input embedding, stored with
    | some (memory, _), true => { s with memory := memory }.setProgress h (.storing candidates rest)
    | _, _ => s.setProgress h .failed

def step (s : Closing ν) : ClosingAction ν → Option (Closing ν)
  | .chat action =>
    if s.canGoOn action then (s.chat.step action).map fun chat => s.afterChat chat action else none
  | .distill h answer =>
    match s.chat.handlers h, s.progress h with
    | .consolidating close, .idle =>
      if (fullTranscript close).isBlank then none
      else some (s.onDistill h close.session.id (fullTranscript close) answer)
    | _, _ => none
  | .compact h text answer =>
    match s.chat.handlers h, s.progress h with
    | .turning _ session _, .idle => some (s.onDistill h session.id text answer)
    | _, _ => none
  | .remember h embedding stored fecha =>
    match sessionOf (s.chat.handlers h), s.progress h with
    | some sessionId, .storing candidates (candidate :: rest) =>
      some (s.onRemember h candidates rest (candidateInput sessionId candidate fecha) stored embedding)
    | _, _ => none

def empty (ν : Type) : Closing ν where
  chat := .empty
  progress := fun _ => .idle
  memory := .new ν
  distillations := []

/-- what the memory holds for a session -/
def entriesOf (s : Closing ν) (sessionId : SessionId) : List DistilledEntry :=
  (s.memory.memoryEntries.rows.filter fun row => row.sessionId = some sessionId).map fun row =>
    ⟨row.content, row.tipo⟩

end Closing

end Telegram
