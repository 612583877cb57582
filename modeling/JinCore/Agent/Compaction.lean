import JinCore.Agent.Turn
import JinCore.Js.Json

/-!
# The compaction of a history (`history-compaction.logic.ts`, `history-compaction.service.ts`)

Every turn ends in `finalizeTurn`: a history that is over its limit is summed up by the model, and
what was summed up is consolidated into memory by the model as well.

* `messageContentToText`, `estimateMessagesTokens`   how long a history is taken to be;
* `planHistoryCompaction`   which messages are summed up;
* `compact`, `finalize`     the summary, and the result of the turn with it;
* `finalize_calls`          the calls of the model that this makes;
* `finalize_ok`             it throws for no history of JSON values.
-/

namespace Agent
open JsString Common ModelProvider Security

structure HistoryCompactionConfig where
  maxHistoryTokens : Nat
  preserveLastTurns : Nat
  deriving DecidableEq, Repr

structure HistoryCompactionPlan where
  toCompact : List ModelMessage
  toPreserve : List ModelMessage
  deriving DecidableEq, Repr

/-! ## `JSON.stringify` of the content of a message -/

/-- an object of members whose values are JSON texts already -/
def jsonObject (members : List (JsString × JsString)) : JsString :=
  lit "\x7b" ++ joinWith (lit ",") (members.map fun kv => Json.quote kv.1 ++ lit ":" ++ kv.2)
    ++ lit "\x7d"

def jsonArray (items : List JsString) : JsString := lit "[" ++ joinWith (lit ",") items ++ lit "]"

/-- `none` is `undefined` -/
def jsonText : JsValue → Except JsString (Option JsString)
  | .string s => .ok (some (Json.quote s))
  | .json text => .ok (some text)
  | .undefined => .ok none
  | .unserializable message => .error message

def toolCallText (call : ModelToolCall) : JsString :=
  jsonObject [(lit "id", Json.quote call.id), (lit "name", Json.quote call.name),
    (lit "input", call.input)]

def blockText : ModelMessageContentBlock → Except JsString JsString
  | .text text => .ok (jsonObject [(lit "type", Json.quote (lit "text")), (lit "text", Json.quote text)])
  | .toolUse call => .ok (jsonObject [(lit "type", Json.quote (lit "tool_use")),
      (lit "toolCall", toolCallText call)])
  | .toolResult toolCallId output isError =>
    match jsonText output with
    | .error message => .error message
    | .ok text => .ok (jsonObject ([(lit "type", Json.quote (lit "tool_result")),
        (lit "toolCallId", Json.quote toolCallId)]
        -- a member that is `undefined` is left out
        ++ (text.map fun t => (lit "output", t)).toList
        ++ if isError then [(lit "isError", lit "true")] else []))

/-- the values of a list, or what the first one throws -/
def traverse {α β : Type} (f : α → Except JsString β) : List α → Except JsString (List β)
  | [] => .ok []
  | a :: as =>
    match f a with
    | .error message => .error message
    | .ok b =>
      match traverse f as with
      | .error message => .error message
      | .ok bs => .ok (b :: bs)

def messageContentToText (message : ModelMessage) : Except JsString JsString :=
  match message.content with
  | .text text => .ok text
  | .blocks blocks => (traverse blockText blocks).map jsonArray

/-! ## the plan -/

def charsPerTokenEstimate : Nat := 4

/-- rounded up -/
def estimateTokens (text : JsString) : Nat :=
  (text.units.length + (charsPerTokenEstimate - 1)) / charsPerTokenEstimate

def estimateMessagesTokens (messages : List ModelMessage) : Except JsString Nat :=
  (traverse messageContentToText messages).map fun texts => (texts.map estimateTokens).sum

def isTurnStart (message : ModelMessage) : Bool :=
  match message.role, message.content with
  | .user, .text _ => true
  | _, _ => false

def findTurnStartIndices (messages : List ModelMessage) : List Nat :=
  (List.range messages.length).filter fun index => messages[index]?.any isTurnStart

def planHistoryCompaction (messages : List ModelMessage) (config : HistoryCompactionConfig) :
    Except JsString (Option HistoryCompactionPlan) :=
  (estimateMessagesTokens messages).map fun tokens =>
    if tokens ≤ config.maxHistoryTokens then none
    else
      let turnStarts := findTurnStartIndices messages
      if turnStarts.length ≤ config.preserveLastTurns then none
      else
        match turnStarts[turnStarts.length - config.preserveLastTurns]? with
        | none | some 0 => none
        | some boundary => some ⟨messages.take boundary, messages.drop boundary⟩

/-! ## the summary -/

def roleLabel : Role → JsString
  | .user => lit "Usuario"
  | .assistant => lit "Jin"

def renderBlock : ModelMessageContentBlock → Except JsString JsString
  | .text text => .ok text
  | .toolUse call => .ok (lit "[llamó a la tool " ++ call.name ++ lit "]")
  | .toolResult _ output _ =>
    match output with
    | .string s => .ok (lit "[resultado de tool: " ++ s ++ lit "]")
    | output => (jsonText output).map fun text =>
        lit "[resultado de tool: " ++ text.getD (lit "undefined") ++ lit "]"

def renderMessage (message : ModelMessage) : Except JsString JsString :=
  match message.content with
  | .text text => .ok (roleLabel message.role ++ lit ": " ++ text)
  | .blocks blocks => (traverse renderBlock blocks).map fun rendered =>
      roleLabel message.role ++ lit ": " ++ joinWith (lit "\n") rendered

def renderMessagesAsTranscript (messages : List ModelMessage) : Except JsString JsString :=
  (traverse renderMessage messages).map (joinWith (lit "\n"))

def summaryPrefix : JsString := lit "[Resumen automático de turnos previos]\n"

/-- a call of the model: one of the loop, the one for the summary, and the one of the memory -/
inductive ModelCall where
  | chat (tools : List ModelToolDeclaration)
  | historyCompaction (transcript : JsString)
  | memoryConsolidation (sessionId transcript : JsString)
  deriving DecidableEq, Repr

/-- what `consolidate` throws is logged -/
def compact (sessionId : JsString) (plan : HistoryCompactionPlan) (reply : ModelReply) :
    Except JsString (List ModelCall × Option ModelMessage) :=
  (renderMessagesAsTranscript plan.toCompact).map fun transcript =>
    match reply with
    | .threw _ => ([.historyCompaction transcript], none)
    | .response response =>
      ([.historyCompaction transcript, .memoryConsolidation sessionId transcript],
        some ⟨.user, .text (summaryPrefix ++ response.content)⟩)

/-- what a turn returns, with its history if that was compacted -/
structure FinalizedTurn where
  result : AgentTurnResult
  compactedHistory : Option (List ModelMessage)
  deriving DecidableEq, Repr

/-- the rest of `finalizeTurn`: the calls it makes, and what it returns or throws -/
def finalize (config : HistoryCompactionConfig) (sessionId : JsString) (messages : List ModelMessage)
    (result : AgentTurnResult) (reply : ModelReply) :
    Except JsString (List ModelCall × FinalizedTurn) :=
  match planHistoryCompaction messages config with
  | .error message => .error message
  | .ok none => .ok ([], ⟨result, none⟩)
  | .ok (some plan) =>
    (compact sessionId plan reply).map fun compacted =>
      (compacted.1, ⟨result, compacted.2.map fun summary => summary :: plan.toPreserve⟩)

/-! ## the calls of the model -/

section
variable {config : HistoryCompactionConfig} {sessionId : JsString} {messages : List ModelMessage}
  {result : AgentTurnResult} {reply : ModelReply}

/-- no call, or one for the summary and, if that one answers, one of the memory about the same
messages -/
theorem finalize_calls {calls : List ModelCall} {turn : FinalizedTurn}
    (h : finalize config sessionId messages result reply = .ok (calls, turn)) :
    turn.result = result ∧ (calls = [] ∨ ∃ plan transcript,
      planHistoryCompaction messages config = .ok (some plan) ∧
      (calls = [.historyCompaction transcript] ∨
        calls = [.historyCompaction transcript, .memoryConsolidation sessionId transcript])) := by
  rw [finalize] at h
  cases hplan : planHistoryCompaction messages config with
  | error message =>
    rw [hplan] at h
    cases h
  | ok plan =>
    rw [hplan] at h
    cases plan with
    | none =>
      cases h
      exact ⟨rfl, Or.inl rfl⟩
    | some plan =>
      simp only [compact] at h
      cases htranscript : renderMessagesAsTranscript plan.toCompact with
      | error message =>
        rw [htranscript] at h
        cases h
      | ok transcript =>
        rw [htranscript] at h
        cases reply with
        | threw message =>
          cases h
          exact ⟨rfl, Or.inr ⟨plan, transcript, rfl, Or.inl rfl⟩⟩
        | response response =>
          cases h
          exact ⟨rfl, Or.inr ⟨plan, transcript, rfl, Or.inr rfl⟩⟩

end

/-! ## histories of JSON values -/

/-- `JSON.stringify` does not throw on the block -/
def JsonBlock : ModelMessageContentBlock → Prop
  | .toolResult _ (.unserializable _) _ => False
  | _ => True

def JsonMessage (message : ModelMessage) : Prop := ∀ b ∈ message.content.toBlocks, JsonBlock b

section
variable {α β : Type} {f : α → Except JsString β}

theorem traverse_ok {as : List α} (h : ∀ a ∈ as, ∃ b, f a = .ok b) : ∃ bs, traverse f as = .ok bs := by
  induction as with
  | nil => exact ⟨[], rfl⟩
  | cons a as ih =>
    obtain ⟨b, hb⟩ := h a List.mem_cons_self
    obtain ⟨bs, hbs⟩ := ih fun c hc => h c (List.mem_cons_of_mem _ hc)
    refine ⟨b :: bs, ?_⟩
    rw [traverse, hb, hbs]

end

theorem jsonText_ok {output : JsValue} {toolCallId : JsString} {isError : Bool}
    (h : JsonBlock (.toolResult toolCallId output isError)) : ∃ text, jsonText output = .ok text := by
  cases output with
  | string s => exact ⟨_, rfl⟩
  | json text => exact ⟨_, rfl⟩
  | undefined => exact ⟨_, rfl⟩
  | unserializable message => exact absurd h id

theorem blockText_ok {b : ModelMessageContentBlock} (h : JsonBlock b) :
    ∃ text, blockText b = .ok text := by
  cases b with
  | text text => exact ⟨_, rfl⟩
  | toolUse call => exact ⟨_, rfl⟩
  | toolResult toolCallId output isError =>
    obtain ⟨text, htext⟩ := jsonText_ok h
    rw [blockText, htext]
    exact ⟨_, rfl⟩

theorem renderBlock_ok {b : ModelMessageContentBlock} (h : JsonBlock b) :
    ∃ text, renderBlock b = .ok text := by
  cases b with
  | text text => exact ⟨_, rfl⟩
  | toolUse call => exact ⟨_, rfl⟩
  | toolResult toolCallId output isError =>
    cases output with
    | string s => exact ⟨_, rfl⟩
    | json text => exact ⟨_, rfl⟩
    | undefined => exact ⟨_, rfl⟩
    | unserializable message => exact absurd h id

theorem messageContentToText_ok {message : ModelMessage} (h : JsonMessage message) :
    ∃ text, messageContentToText message = .ok text := by
  obtain ⟨role, content⟩ := message
  cases content with
  | text text => exact ⟨_, rfl⟩
  | blocks blocks =>
    obtain ⟨texts, htexts⟩ : ∃ texts, traverse blockText blocks = .ok texts :=
      traverse_ok fun b hb => blockText_ok (h b hb)
    refine ⟨jsonArray texts, ?_⟩
    show (traverse blockText blocks).map jsonArray = _
    rw [htexts]
    rfl

theorem renderMessage_ok {message : ModelMessage} (h : JsonMessage message) :
    ∃ text, renderMessage message = .ok text := by
  obtain ⟨role, content⟩ := message
  cases content with
  | text text => exact ⟨_, rfl⟩
  | blocks blocks =>
    obtain ⟨texts, htexts⟩ : ∃ texts, traverse renderBlock blocks = .ok texts :=
      traverse_ok fun b hb => renderBlock_ok (h b hb)
    refine ⟨roleLabel role ++ lit ": " ++ joinWith (lit "\n") texts, ?_⟩
    show (traverse renderBlock blocks).map _ = _
    rw [htexts]
    rfl

theorem planHistoryCompaction_ok {messages : List ModelMessage} (config : HistoryCompactionConfig)
    (h : ∀ m ∈ messages, JsonMessage m) : ∃ plan, planHistoryCompaction messages config = .ok plan := by
  obtain ⟨texts, htexts⟩ := traverse_ok fun m hm => messageContentToText_ok (h m hm)
  rw [planHistoryCompaction, estimateMessagesTokens, htexts]
  exact ⟨_, rfl⟩

/-- what is summed up is a part of the history -/
theorem toCompact_subset {messages : List ModelMessage} {config : HistoryCompactionConfig}
    {plan : HistoryCompactionPlan} (h : planHistoryCompaction messages config = .ok (some plan)) :
    ∀ m ∈ plan.toCompact, m ∈ messages := by
  rw [planHistoryCompaction] at h
  cases htokens : estimateMessagesTokens messages with
  | error message =>
    rw [htokens] at h
    cases h
  | ok tokens =>
    rw [htokens] at h
    simp only [Except.map, Except.ok.injEq] at h
    split at h
    · cases h
    · split at h
      · cases h
      · split at h
        · cases h
        · cases h
        · cases h
          exact fun m hm => List.mem_of_mem_take hm

/-- **it throws for no history of JSON values** -/
theorem finalize_ok {messages : List ModelMessage} (config : HistoryCompactionConfig)
    (sessionId : JsString) (result : AgentTurnResult) (reply : ModelReply)
    (h : ∀ m ∈ messages, JsonMessage m) :
    ∃ calls turn, finalize config sessionId messages result reply = .ok (calls, turn) := by
  obtain ⟨plan, hplan⟩ := planHistoryCompaction_ok config h
  rw [finalize, hplan]
  cases plan with
  | none => exact ⟨_, _, rfl⟩
  | some plan =>
    obtain ⟨texts, htexts⟩ := traverse_ok fun m hm =>
      renderMessage_ok (h m (toCompact_subset hplan m hm))
    simp only [compact, renderMessagesAsTranscript, htexts]
    cases reply with
    | threw message => exact ⟨_, _, rfl⟩
    | response response => exact ⟨_, _, rfl⟩

end Agent
