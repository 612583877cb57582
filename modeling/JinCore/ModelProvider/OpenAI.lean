import JinCore.Lib.Precedence
import JinCore.ModelProvider.Types

/-!
# A conversation in the messages of OpenAI (`src/model-provider/openai.provider.ts`)

* `toOpenAIMessages`   the messages one by one; of a message with blocks the results go first, then
                       one assistant message with its texts and its calls;
* `Preserves`          texts, calls and results of the conversation are those of the messages, the
                       calls before their results where the conversation had them so;
* `translated_iff`     this holds exactly of conversations whose block messages give no text to the
                       user and do not answer their own calls.
-/

namespace ModelProvider
open JsString Precedence

/-- `{ id, type: 'function', function: { name, arguments } }` -/
structure FunctionToolCall where
  id : JsString
  name : JsString
  arguments : JsString
  deriving DecidableEq, Repr

/-- a null content and a missing one are `none`; without `tool_calls` the list is empty -/
inductive OpenAIMessage where
  | user (content : JsString)
  | assistant (content : Option JsString) (toolCalls : List FunctionToolCall)
  | tool (toolCallId : JsString) (content : Option JsString)
  deriving DecidableEq, Repr

def nullJson : JsString := lit "null"
def emptyObjectJson : JsString := lit "\x7b\x7d"

/-- `JSON.stringify(input ?? {})`, of an input given by its JSON text; an input that is not there
is a null one -/
def functionArguments (input : JsString) : JsString :=
  if input = nullJson then emptyObjectJson else input

/-- the output as it is when it is a string, and its JSON text otherwise -/
def outputContent : JsValue → Except JsString (Option JsString)
  | .string s => .ok (some s)
  | .json text => .ok (some text)
  | .undefined => .ok none
  | .unserializable message => .error message

structure Parts where
  textParts : List JsString
  toolCalls : List FunctionToolCall
  toolResultMessages : List OpenAIMessage

def addBlock (parts : Parts) : ModelMessageContentBlock → Except JsString Parts
  | .text text => .ok { parts with textParts := parts.textParts ++ [text] }
  | .toolUse toolCall =>
    .ok { parts with
      toolCalls := parts.toolCalls ++
        [⟨toolCall.id, toolCall.name, functionArguments toolCall.input⟩] }
  | .toolResult toolCallId output _ => do
    let content ← outputContent output
    pure { parts with
      toolResultMessages := parts.toolResultMessages ++ [.tool toolCallId content] }

/-- `textParts.join('')` -/
def joinTexts (texts : List JsString) : JsString := ⟨texts.flatMap units⟩

def pushMessage (result : List OpenAIMessage) (message : ModelMessage) :
    Except JsString (List OpenAIMessage) :=
  match message.content with
  | .text text =>
    .ok (result ++ [if message.role = .assistant then .assistant (some text) [] else .user text])
  | .blocks blocks => do
    let parts ← blocks.foldlM addBlock ⟨[], [], []⟩
    -- the results answer calls of an earlier turn, so they go first
    let result := result ++ parts.toolResultMessages
    if parts.textParts ≠ [] ∨ parts.toolCalls ≠ [] then
      pure (result ++ [.assistant
        (if parts.textParts ≠ [] then some (joinTexts parts.textParts) else none) parts.toolCalls])
    else pure result

def toOpenAIMessages (messages : List ModelMessage) : Except JsString (List OpenAIMessage) :=
  messages.foldlM pushMessage []

/-! ## what a conversation says, calls and answers -/

def blockText : ModelMessageContentBlock → Option JsString
  | .text text => some text
  | _ => none

section Blocks
variable (blocks : List ModelMessageContentBlock)

@[simp] theorem blockTexts_text (text : JsString) :
    (.text text :: blocks : List _).filterMap blockText = text :: blocks.filterMap blockText := rfl
@[simp] theorem blockTexts_toolUse (call : ModelToolCall) :
    (.toolUse call :: blocks : List _).filterMap blockText = blocks.filterMap blockText := rfl
@[simp] theorem blockTexts_toolResult (id : JsString) (output : JsValue) (isError : Bool) :
    (.toolResult id output isError :: blocks : List _).filterMap blockText
      = blocks.filterMap blockText := rfl

end Blocks

def ModelMessage.blockTexts (message : ModelMessage) : List JsString :=
  message.content.toBlocks.filterMap blockText

/-- the role of a message and what it says: its string, or its text blocks joined -/
def ModelMessage.said (message : ModelMessage) : Option (Role × JsString) :=
  match message.content with
  | .text text => some (message.role, text)
  | .blocks _ =>
    if message.blockTexts = [] then none else some (message.role, joinTexts message.blockTexts)

def OpenAIMessage.said : OpenAIMessage → Option (Role × JsString)
  | .user content => some (.user, content)
  | .assistant content _ => content.map (Role.assistant, ·)
  | .tool _ _ => none

/-- a call with its input as it is encoded, or a result with what its output is encoded to -/
abbrev ToolEvent := FunctionToolCall ⊕ (JsString × Except JsString (Option JsString))

def blockEvent : ModelMessageContentBlock → Option ToolEvent
  | .text _ => none
  | .toolUse toolCall => some (.inl ⟨toolCall.id, toolCall.name, toolCall.input⟩)
  | .toolResult toolCallId output _ => some (.inr (toolCallId, outputContent output))

section Blocks
variable (blocks : List ModelMessageContentBlock)

@[simp] theorem blockEvents_text (text : JsString) :
    (.text text :: blocks : List _).filterMap blockEvent = blocks.filterMap blockEvent := rfl
@[simp] theorem blockEvents_toolUse (call : ModelToolCall) :
    (.toolUse call :: blocks : List _).filterMap blockEvent
      = .inl ⟨call.id, call.name, call.input⟩ :: blocks.filterMap blockEvent := rfl
@[simp] theorem blockEvents_toolResult (id : JsString) (output : JsValue) (isError : Bool) :
    (.toolResult id output isError :: blocks : List _).filterMap blockEvent
      = .inr (id, outputContent output) :: blocks.filterMap blockEvent := rfl

end Blocks

def ModelMessage.toolEvents (message : ModelMessage) : List ToolEvent :=
  message.content.toBlocks.filterMap blockEvent

def OpenAIMessage.toolEvents : OpenAIMessage → List ToolEvent
  | .user _ => []
  | .assistant _ toolCalls => toolCalls.map .inl
  | .tool toolCallId content => [.inr (toolCallId, .ok content)]

/-- the result answers the call -/
def Answers (call : FunctionToolCall) (result : JsString × Except JsString (Option JsString)) :
    Prop :=
  call.id = result.1

/-- the messages carry the conversation: the texts of each message under its role and in order,
every call once, every result once, and a call before its result where it came before it -/
structure Preserves (messages : List ModelMessage) (sent : List OpenAIMessage) : Prop where
  texts : sent.filterMap OpenAIMessage.said = messages.filterMap ModelMessage.said
  calls : lefts (sent.flatMap OpenAIMessage.toolEvents)
    = lefts (messages.flatMap ModelMessage.toolEvents)
  results : rights (sent.flatMap OpenAIMessage.toolEvents)
    = rights (messages.flatMap ModelMessage.toolEvents)
  order : Keeps Answers (messages.flatMap ModelMessage.toolEvents)
    (sent.flatMap OpenAIMessage.toolEvents)

/-- the blocks of the message hold no text of the user, no call without an input, no output that
cannot be encoded, and no result after the call it answers -/
structure Translatable (message : ModelMessage) : Prop where
  texts : message.role = .user → message.blockTexts = []
  inputs : ∀ call ∈ lefts message.toolEvents, call.arguments ≠ nullJson
  outputs : ∀ result ∈ rights message.toolEvents, ∃ content, result.2 = .ok content
  order : ∀ p call q result s,
    message.toolEvents = p ++ .inl call :: (q ++ .inr result :: s) → ¬ Answers call result

/-! ## one message -/

def sentCall (call : FunctionToolCall) : FunctionToolCall :=
  { call with arguments := functionArguments call.arguments }

theorem sentCall_eq_iff (call : FunctionToolCall) :
    sentCall call = call ↔ call.arguments ≠ nullJson := by
  obtain ⟨id, name, input⟩ := call
  simp only [sentCall, FunctionToolCall.mk.injEq, true_and, functionArguments]
  split
  next h =>
    subst h
    exact ⟨fun h => absurd h (by decide), fun h => absurd rfl h⟩
  next h => exact ⟨fun _ => h, fun _ => rfl⟩

theorem map_sentCall_iff (calls : List FunctionToolCall) :
    calls.map sentCall = calls ↔ ∀ call ∈ calls, call.arguments ≠ nullJson := by
  have h : (calls.map sentCall = calls) = (calls.map sentCall = calls.map id) := by
    rw [List.map_id]
  rw [h, List.map_inj_left]
  exact forall₂_congr fun call _ => sentCall_eq_iff call

def encoded (c : JsString × Option JsString) : JsString × Except JsString (Option JsString) :=
  (c.1, .ok c.2)

def toolMessage (c : JsString × Option JsString) : OpenAIMessage := .tool c.1 c.2

theorem encoded_inj {c d : JsString × Option JsString} (h : encoded c = encoded d) : c = d := by
  simp only [encoded, Prod.mk.injEq, Except.ok.injEq] at h
  exact Prod.ext h.1 h.2

def decoded (r : JsString × Except JsString (Option JsString)) : JsString × Option JsString :=
  (r.1, match r.2 with
    | .ok content => content
    | .error _ => none)

/-- every output of the message can be encoded -/
def ModelMessage.Encodable (message : ModelMessage) : Prop :=
  ∀ result ∈ rights message.toolEvents, ∃ content, result.2 = .ok content

theorem encoded_decoded {r : JsString × Except JsString (Option JsString)}
    (h : ∃ content, r.2 = .ok content) : encoded (decoded r) = r := by
  obtain ⟨id, content⟩ := r
  obtain ⟨c, rfl⟩ := h
  rfl

theorem decoded_encoded (c : JsString × Option JsString) : decoded (encoded c) = c := rfl

theorem eq_map_encoded_iff (rs : List (JsString × Except JsString (Option JsString)))
    (cs : List (JsString × Option JsString)) :
    rs = cs.map encoded ↔ (∀ r ∈ rs, ∃ content, r.2 = .ok content) ∧ cs = rs.map decoded := by
  constructor
  · rintro rfl
    constructor
    · intro r hr
      obtain ⟨c, -, rfl⟩ := List.mem_map.mp hr
      exact ⟨c.2, rfl⟩
    · rw [List.map_map]
      exact (List.map_id cs).symm.trans (List.map_congr_left fun c _ => decoded_encoded c)
  · rintro ⟨h, rfl⟩
    rw [List.map_map]
    exact (List.map_id rs).symm.trans
      (List.map_congr_left fun r hr => (encoded_decoded (h r hr)).symm)

theorem addBlocks_iff (blocks : List ModelMessageContentBlock) (parts parts' : Parts) :
    blocks.foldlM addBlock parts = .ok parts' ↔
      ∃ cs : List (JsString × Option JsString),
        rights (blocks.filterMap blockEvent) = cs.map encoded ∧
        parts' = ⟨parts.textParts ++ blocks.filterMap blockText,
          parts.toolCalls ++ (lefts (blocks.filterMap blockEvent)).map sentCall,
          parts.toolResultMessages ++ cs.map toolMessage⟩ := by
  induction blocks generalizing parts with
  | nil =>
    show Except.ok parts = .ok parts' ↔ _
    constructor
    · intro h
      rw [Except.ok.injEq] at h
      subst h
      exact ⟨[], rfl, by simp [lefts]⟩
    · rintro ⟨cs, hcs, rfl⟩
      obtain rfl : cs = [] := List.map_eq_nil_iff.mp hcs.symm
      simp [lefts]
  | cons block blocks ih =>
    rw [List.foldlM_cons]
    cases block with
    | text text =>
      show blocks.foldlM addBlock { parts with textParts := parts.textParts ++ [text] } = _ ↔ _
      rw [ih]
      simp
    | toolUse call =>
      show blocks.foldlM addBlock { parts with toolCalls := parts.toolCalls ++
        [⟨call.id, call.name, functionArguments call.input⟩] } = _ ↔ _
      rw [ih]
      simp [sentCall]
    | toolResult id output isError =>
      cases h : outputContent output with
      | error message =>
        have hb : addBlock parts (.toolResult id output isError) = .error message := by
          rw [addBlock, h]
          rfl
        rw [hb]
        constructor
        · exact fun h => nomatch h
        · rintro ⟨cs, hcs, -⟩
          rw [blockEvents_toolResult, rights_inr_cons, h] at hcs
          cases cs with
          | nil => exact absurd hcs (by simp)
          | cons c cs => simp [encoded] at hcs
      | ok content =>
        have hb : addBlock parts (.toolResult id output isError) = .ok { parts with
            toolResultMessages := parts.toolResultMessages ++ [.tool id content] } := by
          rw [addBlock, h]
          rfl
        rw [hb]
        show blocks.foldlM addBlock { parts with
          toolResultMessages := parts.toolResultMessages ++ [.tool id content] } = _ ↔ _
        rw [ih, blockEvents_toolResult, rights_inr_cons, lefts_inr_cons, h]
        constructor
        · rintro ⟨cs, hcs, rfl⟩
          exact ⟨(id, content) :: cs, by rw [hcs]; rfl, by simp [toolMessage]⟩
        · rintro ⟨cs, hcs, rfl⟩
          cases cs with
          | nil => exact absurd hcs (by simp)
          | cons c cs =>
            rw [List.map_cons, List.cons.injEq] at hcs
            obtain rfl : (id, content) = c := encoded_inj hcs.1
            exact ⟨cs, hcs.2, by simp [toolMessage]⟩

/-- what a message is turned into: its results, then its texts and calls -/
def sentMessages (message : ModelMessage) : List OpenAIMessage :=
  match message.content with
  | .text text => [if message.role = .assistant then .assistant (some text) [] else .user text]
  | .blocks _ =>
    ((rights message.toolEvents).map decoded).map toolMessage ++
      if message.blockTexts ≠ [] ∨ lefts message.toolEvents ≠ [] then
        [.assistant (if message.blockTexts ≠ [] then some (joinTexts message.blockTexts) else none)
          ((lefts message.toolEvents).map sentCall)]
      else []

theorem pushBlocks_eq (result : List OpenAIMessage) (role : Role)
    (blocks : List ModelMessageContentBlock) :
    pushMessage result ⟨role, .blocks blocks⟩
      = (blocks.foldlM addBlock ⟨[], [], []⟩).bind fun parts =>
        .ok (result ++ parts.toolResultMessages ++
          if parts.textParts ≠ [] ∨ parts.toolCalls ≠ [] then
            [.assistant (if parts.textParts ≠ [] then some (joinTexts parts.textParts) else none)
              parts.toolCalls]
          else []) := by
  show (blocks.foldlM addBlock ⟨[], [], []⟩).bind _ = _
  congr 1
  funext parts
  split
  · rfl
  · exact congrArg Except.ok (List.append_nil _).symm

/-- one message: it fails on an output that cannot be encoded, and else adds its own messages -/
theorem pushMessage_iff (result sent : List OpenAIMessage) (message : ModelMessage) :
    pushMessage result message = .ok sent ↔
      message.Encodable ∧ sent = result ++ sentMessages message := by
  obtain ⟨role, content⟩ := message
  cases content with
  | text text =>
    constructor
    · intro h
      exact ⟨fun r hr => (nomatch hr), (Except.ok.inj h).symm⟩
    · rintro ⟨-, rfl⟩
      rfl
  | blocks blocks =>
    rw [pushBlocks_eq]
    constructor
    · intro h
      cases hb : blocks.foldlM addBlock ⟨[], [], []⟩ with
      | error message =>
        rw [hb] at h
        cases h
      | ok parts =>
        rw [hb] at h
        obtain ⟨cs, hcs, rfl⟩ := (addBlocks_iff blocks _ _).mp hb
        obtain ⟨henc, rfl⟩ := (eq_map_encoded_iff _ _).mp hcs
        refine ⟨henc, (Except.ok.inj h).symm.trans ?_⟩
        simp [sentMessages, ModelMessage.blockTexts, ModelMessage.toolEvents, Content.toBlocks]
    · rintro ⟨henc, rfl⟩
      have hcs := (eq_map_encoded_iff _ _).mpr ⟨henc, rfl⟩
      rw [(addBlocks_iff blocks ⟨[], [], []⟩ _).mpr ⟨_, hcs, rfl⟩]
      simp [Except.bind, sentMessages, ModelMessage.blockTexts, ModelMessage.toolEvents,
        Content.toBlocks]

/-! ## a whole conversation -/

theorem pushMessages_iff (messages : List ModelMessage) (result sent : List OpenAIMessage) :
    messages.foldlM pushMessage result = .ok sent ↔
      (∀ message ∈ messages, message.Encodable) ∧
        sent = result ++ messages.flatMap sentMessages := by
  induction messages generalizing result with
  | nil =>
    show Except.ok result = .ok sent ↔ _
    rw [List.flatMap_nil, List.append_nil, Except.ok.injEq]
    exact ⟨fun h => ⟨fun m hm => (nomatch hm), h.symm⟩, fun h => h.2.symm⟩
  | cons message messages ih =>
    rw [List.foldlM_cons, List.forall_mem_cons, List.flatMap_cons, ← List.append_assoc]
    cases h : pushMessage result message with
    | error e =>
      constructor
      · intro he
        cases he
      · rintro ⟨⟨henc, -⟩, -⟩
        have hok := (pushMessage_iff result _ message).mpr ⟨henc, rfl⟩
        rw [h] at hok
        cases hok
    | ok result' =>
      obtain ⟨henc, rfl⟩ := (pushMessage_iff result result' message).mp h
      show messages.foldlM pushMessage (result ++ sentMessages message) = .ok sent ↔ _
      rw [ih]
      exact ⟨fun h => ⟨⟨henc, h.1⟩, h.2⟩, fun h => ⟨h.1.2, h.2⟩⟩

theorem toOpenAIMessages_iff (messages : List ModelMessage) (sent : List OpenAIMessage) :
    toOpenAIMessages messages = .ok sent ↔
      (∀ message ∈ messages, message.Encodable) ∧ sent = messages.flatMap sentMessages :=
  pushMessages_iff messages [] sent

/-! ### texts -/

/-- what a message says once it is sent: the text of blocks has become the assistant's -/
def ModelMessage.sentSaid (message : ModelMessage) : Option (Role × JsString) :=
  match message.content with
  | .text text => some (message.role, text)
  | .blocks _ =>
    if message.blockTexts = [] then none else some (.assistant, joinTexts message.blockTexts)

theorem said_toolMessages (cs : List (JsString × Option JsString)) :
    (cs.map toolMessage).filterMap OpenAIMessage.said = [] := by
  rw [List.filterMap_map]
  exact List.filterMap_eq_nil_iff.mpr fun c _ => rfl

theorem said_sentMessages (message : ModelMessage) :
    (sentMessages message).filterMap OpenAIMessage.said = message.sentSaid.toList := by
  obtain ⟨role, content⟩ := message
  cases content with
  | text text => cases role <;> rfl
  | blocks blocks =>
    rw [sentMessages, ModelMessage.sentSaid]
    show List.filterMap _ (_ ++ _) = _
    rw [List.filterMap_append, said_toolMessages, List.nil_append]
    by_cases ht : ModelMessage.blockTexts ⟨role, .blocks blocks⟩ = []
    · rw [if_pos ht]
      split
      · rw [if_neg (not_not.mpr ht)]
        rfl
      · rfl
    · rw [if_neg ht, if_pos (.inl ht), if_pos ht]
      rfl

theorem said_sent (messages : List ModelMessage) :
    (messages.flatMap sentMessages).filterMap OpenAIMessage.said
      = messages.filterMap ModelMessage.sentSaid := by
  induction messages with
  | nil => rfl
  | cons message messages ih =>
    rw [List.flatMap_cons, List.filterMap_append, said_sentMessages, ih]
    cases h : message.sentSaid with
    | none => rw [List.filterMap_cons_none h, Option.toList_none, List.nil_append]
    | some said => rw [List.filterMap_cons_some h, Option.toList_some, List.singleton_append]

theorem sentSaid_isSome (message : ModelMessage) :
    message.sentSaid.isSome = message.said.isSome := by
  obtain ⟨role, content⟩ := message
  cases content with
  | text text => rfl
  | blocks blocks =>
    rw [ModelMessage.sentSaid, ModelMessage.said]
    show (if _ = [] then none else some (Role.assistant, _)).isSome
      = (if _ = [] then none else some (role, _)).isSome
    split <;> rfl

theorem sentSaid_eq_iff (message : ModelMessage) :
    message.sentSaid = message.said ↔ (message.role = .user → message.blockTexts = []) := by
  obtain ⟨role, content⟩ := message
  cases content with
  | text text => exact ⟨fun _ _ => rfl, fun _ => rfl⟩
  | blocks blocks =>
    rw [ModelMessage.sentSaid, ModelMessage.said]
    show (if _ = [] then none else some (Role.assistant, _))
      = (if _ = [] then none else some (role, _)) ↔ _
    split
    next h => exact ⟨fun _ _ => h, fun _ => rfl⟩
    next h =>
      rw [Option.some.injEq, Prod.mk.injEq]
      cases role with
      | user => exact ⟨fun h => absurd h.1 (by decide), fun h' => absurd (h' rfl) h⟩
      | assistant => exact ⟨fun _ h => (nomatch h), fun _ => ⟨rfl, rfl⟩⟩

/-- two selections that keep the same elements agree only where they turn each into the same -/
theorem filterMap_eq_iff {α β : Type} (f g : α → Option β)
    (hfg : ∀ a, (f a).isSome = (g a).isSome) (as : List α) :
    as.filterMap f = as.filterMap g ↔ ∀ a ∈ as, f a = g a := by
  induction as with
  | nil => exact ⟨fun _ a ha => (nomatch ha), fun _ => rfl⟩
  | cons a as ih =>
    rw [List.forall_mem_cons, ← ih]
    have h := hfg a
    cases hf : f a with
    | none =>
      rw [hf, Option.isSome_none] at h
      have hg : g a = none := Option.isSome_eq_false_iff.mp h.symm |> Option.isNone_iff_eq_none.mp
      rw [List.filterMap_cons_none hf, List.filterMap_cons_none hg, hg, eq_self, true_and]
    | some b =>
      rw [hf, Option.isSome_some] at h
      obtain ⟨c, hg⟩ := Option.isSome_iff_exists.mp h.symm
      rw [List.filterMap_cons_some hf, List.filterMap_cons_some hg, List.cons.injEq, hg,
        Option.some.injEq]

theorem texts_iff (messages : List ModelMessage) :
    (messages.flatMap sentMessages).filterMap OpenAIMessage.said
        = messages.filterMap ModelMessage.said ↔
      ∀ message ∈ messages, message.role = .user → message.blockTexts = [] := by
  rw [said_sent, filterMap_eq_iff _ _ sentSaid_isSome]
  exact forall₂_congr fun message _ => sentSaid_eq_iff message

/-! ### calls and results -/

theorem toolEvents_toolMessages (cs : List (JsString × Option JsString)) :
    (cs.map toolMessage).flatMap OpenAIMessage.toolEvents = (cs.map encoded).map .inr := by
  induction cs with
  | nil => rfl
  | cons c cs ih =>
    rw [List.map_cons, List.flatMap_cons, ih]
    rfl

/-- the events of a sent message: its results, then its calls as they are encoded -/
theorem toolEvents_sentMessages {message : ModelMessage} (h : message.Encodable) :
    (sentMessages message).flatMap OpenAIMessage.toolEvents
      = (rights message.toolEvents).map .inr
        ++ ((lefts message.toolEvents).map sentCall).map .inl := by
  obtain ⟨role, content⟩ := message
  cases content with
  | text text => cases role <;> rfl
  | blocks blocks =>
    rw [sentMessages]
    show List.flatMap _ (_ ++ _) = _
    rw [List.flatMap_append, toolEvents_toolMessages, ← (eq_map_encoded_iff _ _).mpr ⟨h, rfl⟩]
    congr 1
    split
    · rw [List.flatMap_singleton]
      rfl
    next hm =>
      rw [not_or, not_not, not_not] at hm
      rw [hm.2]
      rfl

section Sent
variable {messages : List ModelMessage} (h : ∀ message ∈ messages, message.Encodable)
include h

theorem toolEvents_sent :
    (messages.flatMap sentMessages).flatMap OpenAIMessage.toolEvents
      = messages.flatMap fun message => (rights message.toolEvents).map .inr
        ++ ((lefts message.toolEvents).map sentCall).map .inl := by
  rw [List.flatMap_assoc]
  exact List.flatMap_congr fun message hm => toolEvents_sentMessages (h message hm)

theorem calls_sent :
    lefts ((messages.flatMap sentMessages).flatMap OpenAIMessage.toolEvents)
      = (lefts (messages.flatMap ModelMessage.toolEvents)).map sentCall := by
  rw [toolEvents_sent h, lefts_flatMap, lefts_flatMap, List.map_flatMap]
  refine List.flatMap_congr fun message _ => ?_
  rw [lefts_append, lefts_map_inr, lefts_map_inl, List.nil_append]

theorem results_sent :
    rights ((messages.flatMap sentMessages).flatMap OpenAIMessage.toolEvents)
      = rights (messages.flatMap ModelMessage.toolEvents) := by
  rw [toolEvents_sent h, rights_flatMap, rights_flatMap]
  refine List.flatMap_congr fun message _ => ?_
  rw [rights_append, rights_map_inr, rights_map_inl, List.append_nil]

theorem calls_iff :
    lefts ((messages.flatMap sentMessages).flatMap OpenAIMessage.toolEvents)
        = lefts (messages.flatMap ModelMessage.toolEvents) ↔
      ∀ message ∈ messages, ∀ call ∈ lefts message.toolEvents, call.arguments ≠ nullJson := by
  rw [calls_sent h, map_sentCall_iff, lefts_flatMap]
  constructor
  · intro hc message hm call hcall
    exact hc call (List.mem_flatMap.mpr ⟨message, hm, hcall⟩)
  · intro hc call hcall
    obtain ⟨message, hm, hcall⟩ := List.mem_flatMap.mp hcall
    exact hc message hm call hcall

/-- where every call has an input, the results of each message go before its calls and nothing else
changes -/
theorem order_iff
    (hc : ∀ message ∈ messages, ∀ call ∈ lefts message.toolEvents, call.arguments ≠ nullJson) :
    Keeps Answers (messages.flatMap ModelMessage.toolEvents)
        ((messages.flatMap sentMessages).flatMap OpenAIMessage.toolEvents) ↔
      ∀ message ∈ messages, ∀ p call q result s,
        message.toolEvents = p ++ .inl call :: (q ++ .inr result :: s) →
          ¬ Answers call result := by
  have he : (messages.flatMap sentMessages).flatMap OpenAIMessage.toolEvents
      = messages.flatMap fun message => rightsFirst message.toolEvents := by
    rw [toolEvents_sent h]
    refine List.flatMap_congr fun message hm => ?_
    rw [rightsFirst, (map_sentCall_iff _).mpr (hc message hm)]
  rw [he, keeps_flatMap_rightsFirst]
  exact forall₂_congr fun message _ => keeps_rightsFirst

end Sent

/-- **a conversation is carried over, whatever its messages, exactly when no message of the user
has a text among blocks, no call is without an input, every output can be encoded and no message
holds a call before the result that answers it** -/
theorem translated_iff (messages : List ModelMessage) :
    (∃ sent, toOpenAIMessages messages = .ok sent ∧ Preserves messages sent) ↔
      ∀ message ∈ messages, Translatable message := by
  constructor
  · rintro ⟨sent, hsent, hp⟩
    obtain ⟨henc, rfl⟩ := (toOpenAIMessages_iff messages sent).mp hsent
    have hc := (calls_iff henc).mp hp.calls
    intro message hm
    exact ⟨(texts_iff messages).mp hp.texts message hm, hc message hm, henc message hm,
      (order_iff henc hc).mp hp.order message hm⟩
  · intro h
    have henc : ∀ message ∈ messages, message.Encodable := fun message hm => (h message hm).outputs
    have hc : ∀ message ∈ messages, ∀ call ∈ lefts message.toolEvents, call.arguments ≠ nullJson :=
      fun message hm => (h message hm).inputs
    refine ⟨messages.flatMap sentMessages, (toOpenAIMessages_iff messages _).mpr ⟨henc, rfl⟩, ?_⟩
    exact ⟨(texts_iff messages).mpr fun message hm => (h message hm).texts,
      (calls_iff henc).mpr hc, results_sent henc,
      (order_iff henc hc).mpr fun message hm => (h message hm).order⟩

/-- a question of the user with a text block: it is sent as something the assistant said -/
def askedInBlocks : List ModelMessage := [⟨.user, .blocks [.text (lit "borra todo")]⟩]

theorem user_text_changes_role :
    toOpenAIMessages askedInBlocks = .ok [.assistant (some (lit "borra todo")) []] ∧
      ¬ ∃ sent, toOpenAIMessages askedInBlocks = .ok sent ∧ Preserves askedInBlocks sent := by
  have hsent : toOpenAIMessages askedInBlocks = .ok [.assistant (some (lit "borra todo")) []] := by
    decide
  refine ⟨hsent, ?_⟩
  rintro ⟨sent, hs, hp⟩
  rw [hsent, Except.ok.injEq] at hs
  subst hs
  exact absurd hp.texts (by decide)

end ModelProvider
