import JinCore.ModelProvider.OpenAI

/-!
# What Gemini is sent (`google.provider.ts`)

A response names the function it answers, which a tool result does not, so the names are looked up in the calls of the
same request.

* `buildToolCallIdToNameMap`   the names, the last call of an id wins;
* `toGeminiContents`           the conversation, block by block;
* `NamesAgree`, `map_of_call`  where the calls of one id have one name, it is the name that is found.
-/

namespace ModelProvider
open JsString

/-- the names by the ids of the calls -/
abbrev NameMap := JsString → Option JsString

def addName (map : NameMap) : ModelMessageContentBlock → NameMap
  | .toolUse toolCall => fun id => if id = toolCall.id then some toolCall.name else map id
  | _ => map

def buildToolCallIdToNameMap (messages : List ModelMessage) : NameMap :=
  messages.foldl (fun map message => message.content.toBlocks.foldl addName map) fun _ => none

/-- an `args` is the JSON text of an input, and a response holds its output as an output or as an error -/
inductive GeminiPart where
  | text (text : JsString)
  | functionCall (id name args : JsString)
  | functionResponse (id name : JsString) (isError : Bool) (output : JsValue)
  deriving DecidableEq, Repr

/-- the role of the assistant is called `model` -/
structure GeminiContent where
  role : Role
  parts : List GeminiPart
  deriving DecidableEq, Repr

def toGeminiPart (toolCallIdToName : NameMap) : ModelMessageContentBlock → GeminiPart
  | .text text => .text text
  | .toolUse toolCall => .functionCall toolCall.id toolCall.name (functionArguments toolCall.input)
  | .toolResult toolCallId output isError =>
    .functionResponse toolCallId ((toolCallIdToName toolCallId).getD toolCallId) isError output

def toGeminiParts (toolCallIdToName : NameMap) : Content → List GeminiPart
  | .text text => [.text text]
  | .blocks blocks => blocks.map (toGeminiPart toolCallIdToName)

def toGeminiContent (toolCallIdToName : NameMap) (message : ModelMessage) : GeminiContent :=
  ⟨message.role, toGeminiParts toolCallIdToName message.content⟩

def toGeminiContents (messages : List ModelMessage) : List GeminiContent :=
  messages.map (toGeminiContent (buildToolCallIdToNameMap messages))

/-! ## the names -/

def blockCall : ModelMessageContentBlock → Option ModelToolCall
  | .toolUse toolCall => some toolCall
  | _ => none

/-- the calls of a conversation, in order -/
def callsOf (messages : List ModelMessage) : List ModelToolCall :=
  messages.flatMap fun message => message.content.toBlocks.filterMap blockCall

/-- calls with one id have one name -/
def NamesAgree (messages : List ModelMessage) : Prop :=
  ∀ call ∈ callsOf messages, ∀ call' ∈ callsOf messages, call.id = call'.id → call.name = call'.name

section
variable {map : NameMap} {call : ModelToolCall}

/-- the map knows the name of the call -/
theorem addName_of_call {block : ModelMessageContentBlock}
    (hagree : ∀ call', blockCall block = some call' → call'.id = call.id → call'.name = call.name)
    (h : blockCall block = some call ∨ map call.id = some call.name) : addName map block call.id = some call.name := by
  cases block with
  | toolUse toolCall =>
    show (if call.id = toolCall.id then some toolCall.name else map call.id) = _
    split
    next hid => rw [hagree toolCall rfl hid.symm]
    next hid =>
      refine h.resolve_left fun heq => hid ?_
      cases heq
      rfl
  | text | toolResult => exact h.resolve_left fun heq => by cases heq

theorem addNames_of_call {blocks : List ModelMessageContentBlock}
    (hagree : ∀ call' ∈ blocks.filterMap blockCall, call'.id = call.id → call'.name = call.name)
    (h : call ∈ blocks.filterMap blockCall ∨ map call.id = some call.name) :
    blocks.foldl addName map call.id = some call.name := by
  induction blocks generalizing map with
  | nil => exact h.resolve_left List.not_mem_nil
  | cons block blocks ih =>
    rw [List.foldl_cons]
    have hhead : ∀ call', blockCall block = some call' → call'.id = call.id → call'.name = call.name :=
      fun call' hcall' => hagree call' (List.mem_filterMap.mpr ⟨block, List.mem_cons_self, hcall'⟩)
    have htail : ∀ call' ∈ blocks.filterMap blockCall, call'.id = call.id → call'.name = call.name := by
      intro call' hmem
      obtain ⟨block', hblock', heq⟩ := List.mem_filterMap.mp hmem
      exact hagree call' (List.mem_filterMap.mpr ⟨block', List.mem_cons_of_mem _ hblock', heq⟩)
    refine ih htail ?_
    rcases h with hmem | hmap
    · obtain ⟨block', hblock', heq⟩ := List.mem_filterMap.mp hmem
      rcases List.mem_cons.mp hblock' with rfl | hblock'
      · exact Or.inr (addName_of_call hhead (Or.inl heq))
      · exact Or.inl (List.mem_filterMap.mpr ⟨block', hblock', heq⟩)
    · exact Or.inr (addName_of_call hhead (Or.inr hmap))

theorem foldNames_of_call {messages : List ModelMessage}
    (hagree : ∀ call' ∈ callsOf messages, call'.id = call.id → call'.name = call.name)
    (h : call ∈ callsOf messages ∨ map call.id = some call.name) :
    messages.foldl (fun map message => message.content.toBlocks.foldl addName map) map call.id = some call.name := by
  induction messages generalizing map with
  | nil => exact h.resolve_left List.not_mem_nil
  | cons message messages ih =>
    rw [callsOf, List.flatMap_cons, ← callsOf] at hagree h
    rw [List.foldl_cons]
    have hhead : ∀ call' ∈ message.content.toBlocks.filterMap blockCall, call'.id = call.id → call'.name = call.name :=
      fun call' hmem => hagree call' (List.mem_append_left _ hmem)
    refine ih (fun call' hmem => hagree call' (List.mem_append_right _ hmem)) ?_
    rw [List.mem_append, or_assoc] at h
    rcases h with hmem | hmem | hmap
    · exact Or.inr (addNames_of_call hhead (Or.inl hmem))
    · exact Or.inl hmem
    · exact Or.inr (addNames_of_call hhead (Or.inr hmap))

theorem map_of_call {messages : List ModelMessage} (hagree : NamesAgree messages) (h : call ∈ callsOf messages) :
    buildToolCallIdToNameMap messages call.id = some call.name :=
  foldNames_of_call (fun call' hmem => hagree call' hmem call h) (Or.inl h)

end

end ModelProvider
