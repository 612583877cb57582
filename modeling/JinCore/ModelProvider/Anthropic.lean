import JinCore.ModelProvider.ChatPreference
import JinCore.ModelProvider.OpenAI
import JinCore.ModelProvider.Router

/-!
# What Anthropic is sent (`anthropic.provider.ts`, `sampling.ts`)

* `anthropicThinkingParams`   what becomes of an effort, for each generation of models;
* `toAnthropicMessages`       the conversation, block by block;
* `buildCreateParams`         the parameters of a call;
* `Accepted`                  what the interface wants of them;
* `buildCreateParams_accepted`   whatever the model, the effort and the limit.
-/

namespace ModelProvider
open JsString

/-! ## sampling and thinking -/

def noSamplingPrefixes : List JsString :=
  [lit "claude-fable-5", lit "claude-mythos-5", lit "claude-opus-5", lit "claude-opus-4-8", lit "claude-opus-4-7",
    lit "claude-sonnet-5"]

def anthropicModelAcceptsSampling (modelId : JsString) : Bool :=
  !(noSamplingPrefixes.any fun p => p.units.isPrefixOf modelId.units)

/-- `thinking`, and with it `output_config` -/
inductive AnthropicThinking where
  | disabled
  | adaptive (effort : ModelEffort)
  | enabled (budgetTokens : Int)
  deriving DecidableEq, Repr

def anthropicThinkingParams (modelId : JsString) (effort : Option ModelEffort) (maxOutputTokens : Nat) :
    Option AnthropicThinking :=
  match effort with
  | none => none
  | some effort =>
    if anthropicModelAcceptsSampling modelId = false then
      if effort = .low ∧ hasThinkingAlwaysOn modelId = false then some .disabled else some (.adaptive effort)
    else if effort = .low then none
    else
      let desiredBudget : Int := if effort = .high then 8192 else 2048
      let budgetTokens := min desiredBudget (maxOutputTokens - 512)
      if budgetTokens < 1024 then none else some (.enabled budgetTokens)

/-! ## messages -/

/-- an input is its JSON text; `is_error` is sent where it is true -/
inductive AnthropicBlock where
  | text (text : JsString)
  | toolUse (id name input : JsString)
  | toolResult (toolUseId : JsString) (content : Option JsString) (isError : Bool)
  deriving DecidableEq, Repr

inductive AnthropicContent where
  | text (text : JsString)
  | blocks (blocks : List AnthropicBlock)
  deriving DecidableEq, Repr

structure AnthropicMessage where
  role : Role
  content : AnthropicContent
  deriving DecidableEq, Repr

def toAnthropicBlock : ModelMessageContentBlock → Except JsString AnthropicBlock
  | .text text => .ok (.text text)
  | .toolUse toolCall => .ok (.toolUse toolCall.id toolCall.name toolCall.input)
  | .toolResult toolCallId output isError => do
    let content ← outputContent output
    pure (.toolResult toolCallId content isError)

def toAnthropicContent : Content → Except JsString AnthropicContent
  | .text text => .ok (.text text)
  | .blocks blocks => do
    let sent ← blocks.mapM toAnthropicBlock
    pure (.blocks sent)

def toAnthropicMessage (message : ModelMessage) : Except JsString AnthropicMessage := do
  let content ← toAnthropicContent message.content
  pure ⟨message.role, content⟩

def toAnthropicMessages (messages : List ModelMessage) : Except JsString (List AnthropicMessage) :=
  messages.mapM toAnthropicMessage

/-! ## a call -/

structure ModelCompletionRequest where
  systemPrompt : Option JsString
  messages : List ModelMessage
  maxOutputTokens : Nat
  temperature : Rat
  tools : Option (List ModelToolDeclaration)
  effort : Option ModelEffort

structure AnthropicParams where
  model : JsString
  maxTokens : Nat
  temperature : Option Rat
  system : Option JsString
  messages : List AnthropicMessage
  tools : Option (List ModelToolDeclaration)
  thinking : Option AnthropicThinking

def AnthropicThinking.isEnabled : AnthropicThinking → Bool
  | .enabled _ => true
  | _ => false

def buildCreateParams (modelId : JsString) (request : ModelCompletionRequest) : Except JsString AnthropicParams := do
  let maxTokens := anthropicMaxTokens modelId request.maxOutputTokens
  let thinking := anthropicThinkingParams modelId request.effort maxTokens
  let messages ← toAnthropicMessages request.messages
  pure
    { model := modelId
      maxTokens := maxTokens
      temperature :=
        if anthropicModelAcceptsSampling modelId = true ∧ thinking.any AnthropicThinking.isEnabled = false then
          some request.temperature
        else none
      system := request.systemPrompt
      messages := messages
      tools := request.tools
      thinking := thinking }

/-- the rules that `sampling.ts` quotes: a model of the new generation takes no temperature, and no budget; one that
always thinks does not let it be turned off, and needs room; a budget excludes a temperature, is 1024 at least and
leaves room for the answer -/
structure Accepted (p : AnthropicParams) : Prop where
  sampling : p.temperature ≠ none → anthropicModelAcceptsSampling p.model = true
  adaptive : ∀ effort, p.thinking = some (.adaptive effort) → anthropicModelAcceptsSampling p.model = false
  disabled : p.thinking = some .disabled → hasThinkingAlwaysOn p.model = false
  always : hasThinkingAlwaysOn p.model = true → alwaysOnThinkingMinMaxTokens ≤ p.maxTokens
  enabled : ∀ budget, p.thinking = some (.enabled budget) → p.temperature = none ∧
    anthropicModelAcceptsSampling p.model = true ∧ hasThinkingAlwaysOn p.model = false ∧
    1024 ≤ budget ∧ budget + 512 ≤ p.maxTokens

/-- a model that always thinks is of the generation without sampling -/
theorem not_acceptsSampling_of_alwaysOn {modelId : JsString} (h : hasThinkingAlwaysOn modelId = true) :
    anthropicModelAcceptsSampling modelId = false := by
  unfold hasThinkingAlwaysOn at h
  unfold anthropicModelAcceptsSampling
  obtain ⟨long, hlong, hprefix⟩ := List.any_eq_true.mp h
  have hshort : ∀ long ∈ alwaysOnThinkingPrefixes, ∃ short ∈ noSamplingPrefixes, short.units <+: long.units := by
    simp only [alwaysOnThinkingPrefixes, List.forall_mem_cons, List.not_mem_nil, false_imp_iff, implies_true, and_true]
    exact ⟨⟨lit "claude-opus-5", by decide, by decide⟩, ⟨lit "claude-sonnet-5", by decide, by decide⟩⟩
  obtain ⟨short, hmem, hshort⟩ := hshort long hlong
  have hany : noSamplingPrefixes.any (fun p => p.units.isPrefixOf modelId.units) = true :=
    List.any_eq_true.mpr
      ⟨short, hmem, List.isPrefixOf_iff_prefix.mpr (hshort.trans (List.isPrefixOf_iff_prefix.mp hprefix))⟩
  rw [hany]
  rfl

section
variable {modelId : JsString} {effort : Option ModelEffort} {maxTokens : Nat}

/-- what becomes of an effort -/
theorem thinkingParams_cases (modelId : JsString) (effort : Option ModelEffort) (maxTokens : Nat) :
    anthropicThinkingParams modelId effort maxTokens = none ∨
    (anthropicThinkingParams modelId effort maxTokens = some .disabled ∧
      anthropicModelAcceptsSampling modelId = false ∧ hasThinkingAlwaysOn modelId = false) ∨
    (∃ e, anthropicThinkingParams modelId effort maxTokens = some (.adaptive e) ∧
      anthropicModelAcceptsSampling modelId = false) ∨
    ∃ budget, anthropicThinkingParams modelId effort maxTokens = some (.enabled budget) ∧
      anthropicModelAcceptsSampling modelId = true ∧ 1024 ≤ budget ∧ budget + 512 ≤ maxTokens := by
  cases effort with
  | none => exact Or.inl rfl
  | some effort =>
    unfold anthropicThinkingParams
    dsimp only
    split
    next hnew =>
      split
      next hlow => exact Or.inr (Or.inl ⟨rfl, hnew, hlow.2⟩)
      next => exact Or.inr (Or.inr (Or.inl ⟨effort, rfl, hnew⟩))
    next hold =>
      rw [Bool.not_eq_false] at hold
      split
      next => exact Or.inl rfl
      next =>
        generalize (if effort = ModelEffort.high then (8192 : Int) else 2048) = desiredBudget
        split
        next => exact Or.inl rfl
        next hbudget =>
          refine Or.inr (Or.inr (Or.inr ⟨_, rfl, hold, Int.not_lt.mp hbudget, ?_⟩))
          omega

end

theorem buildCreateParams_accepted {modelId : JsString} {request : ModelCompletionRequest} {p : AnthropicParams}
    (h : buildCreateParams modelId request = .ok p) : p.model = modelId ∧ Accepted p := by
  obtain ⟨messages, -, hp⟩ := Common.bind_eq_ok.mp h
  cases hp
  refine ⟨rfl, ?_⟩
  have hcases := thinkingParams_cases modelId request.effort (anthropicMaxTokens modelId request.maxOutputTokens)
  constructor
  · intro htemperature
    by_contra hno
    exact htemperature (if_neg fun hboth => hno hboth.1)
  · intro effort heffort
    dsimp only at heffort
    rw [heffort] at hcases
    rcases hcases with hcase | hcase | hcase | ⟨_, hcase, -⟩
    · cases hcase
    · cases hcase.1
    · obtain ⟨-, -, hnew⟩ := hcase
      exact hnew
    · cases hcase
  · intro hdisabled
    dsimp only at hdisabled
    rw [hdisabled] at hcases
    rcases hcases with hcase | hcase | ⟨_, hcase, -⟩ | ⟨_, hcase, -⟩
    · cases hcase
    · exact hcase.2.2
    · cases hcase
    · cases hcase
  · intro hthinks
    show _ ≤ anthropicMaxTokens modelId request.maxOutputTokens
    unfold anthropicMaxTokens
    rw [if_pos hthinks]
    exact Nat.le_max_right _ _
  · intro budget hbudget
    dsimp only at hbudget
    rw [hbudget] at hcases
    rcases hcases with hcase | hcase | ⟨_, hcase, -⟩ | ⟨_, hcase, hsampling, hrange⟩
    · cases hcase
    · cases hcase.1
    · cases hcase
    · cases hcase
      refine ⟨?_, hsampling, ?_, hrange⟩
      · dsimp only
        rw [hbudget]
        exact if_neg fun hboth => Bool.noConfusion hboth.2
      · cases hthinks : hasThinkingAlwaysOn modelId with
        | false => rfl
        | true =>
          rw [not_acceptsSampling_of_alwaysOn hthinks] at hsampling
          cases hsampling

/-- a request of the chat to a model of the generation before -/
def haikuRequest : ModelCompletionRequest := ⟨none, [⟨.user, .text (lit "hola")⟩], 8000, 7 / 10, none, some .high⟩

theorem buildCreateParams_accepted_haiku : ∃ p, buildCreateParams (lit "claude-haiku-4-5") haikuRequest = .ok p ∧
    p.thinking = some (.enabled 7488) ∧ p.model = lit "claude-haiku-4-5" ∧ Accepted p :=
  ⟨_, rfl, by decide, @buildCreateParams_accepted _ haikuRequest _ rfl⟩

end ModelProvider
