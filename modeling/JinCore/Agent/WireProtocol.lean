import JinCore.Agent.TurnProtocol
import JinCore.ModelProvider.Anthropic
import JinCore.ModelProvider.Google

/-!
# What the three vendors are sent in a turn (`agent.service.ts` and the providers)

A vendor refuses a conversation in which a call is not followed by its result.

* `requests`           the messages of every call of the model in a turn;
* `requests_rounds`    the history, the objective, and rounds of calls with their results;
* `WireProtocol`       what becomes of a round in the messages of each vendor;
* `wire_protocol`.
-/

namespace Agent
open JsString Common Tools Hitl ModelProvider

/-! ## the requests of a turn -/

section
variable (service : AgentService) (input : AgentTurnInput) (nonce : Security.SessionNonce)
  (world : CallId → CallReply) (replies : Nat → ModelReply)

/-- the messages that the model gets each time that the loop asks it -/
def requestsLoop : Nat → TurnState → List (List ModelMessage)
  | 0, _ => []
  | n + 1, s =>
    s.messages ::
      match replies s.iterationsUsed with
      | .threw _ => []
      | .response response =>
        if isFinal response then []
        else requestsLoop n (respond service input nonce world response.toolCalls ((s.ask input).meet response.modelId))

def requests : List (List ModelMessage) :=
  requestsLoop service input nonce world replies service.config.maxIterationsPerTurn (.init input)

end

/-- a call and the text it is answered with -/
structure RoundCall where
  call : ModelToolCall
  output : JsString
  isError : Bool

def RoundCall.block (r : RoundCall) : ModelMessageContentBlock := buildToolResultBlock r.call.id r.output r.isError

def modelRound (round : List RoundCall) : List ModelMessage :=
  [toolUseMessage (round.map RoundCall.call), toolResultMessage (round.map RoundCall.block)]

section
variable {service : AgentService} {input : AgentTurnInput} {nonce : Security.SessionNonce}
  {world : CallId → CallReply} {replies : Nat → ModelReply}

theorem round_of_calls (calls : List ModelToolCall) :
    ∀ s, ∃ round : List RoundCall, round.map RoundCall.call = calls ∧
      round.map RoundCall.block = (handleToolCalls service input nonce world calls s).2 := by
  induction calls with
  | nil => exact fun _ => ⟨[], rfl, rfl⟩
  | cons call calls ih =>
    intro s
    obtain ⟨output, isError, hblock⟩ :=
      @handleToolCall_settles service input nonce world call s
    obtain ⟨round, hcalls, hblocks⟩ := ih (handleToolCall service input nonce world call s).1
    refine ⟨⟨call, output, isError⟩ :: round, ?_, ?_⟩
    · rw [List.map_cons, hcalls]
    · rw [List.map_cons, hblocks]
      show buildToolResultBlock call.id output isError :: _ = _
      rw [← hblock]
      rfl

theorem messages_respond (calls : List ModelToolCall) (s : TurnState) :
    ∃ round : List RoundCall, round.map RoundCall.call = calls ∧
      (respond service input nonce world calls s).messages = s.messages ++ modelRound round := by
  obtain ⟨round, hcalls, hblocks⟩ := @round_of_calls service input nonce world calls (s.push (toolUseMessage calls))
  obtain ⟨-, -, -, -, hmessages⟩ := @round_handleToolCalls service input nonce world calls (s.push (toolUseMessage calls))
  refine ⟨round, hcalls, ?_⟩
  show (handleToolCalls service input nonce world calls (s.push (toolUseMessage calls))).1.messages ++ [_] = _
  rw [hmessages, modelRound, hcalls, hblocks]
  exact List.append_assoc _ _ _

theorem calls_ne_of_not_final {response : ModelCompletionResponse} (h : ¬ isFinal response = true) :
    response.toolCalls ≠ [] := by
  intro hnil
  apply h
  unfold isFinal
  rw [hnil]
  simp

theorem requestsLoop_rounds (n : Nat) : ∀ s, ∀ messages ∈ requestsLoop service input nonce world replies n s,
    ∃ rounds : List (List RoundCall), (∀ round ∈ rounds, round ≠ []) ∧
      messages = s.messages ++ rounds.flatMap modelRound := by
  induction n with
  | zero => exact fun _ _ h => absurd h List.not_mem_nil
  | succ n ih =>
    intro s messages h
    unfold requestsLoop at h
    rcases List.mem_cons.mp h with rfl | h
    · exact ⟨[], fun _ h => absurd h List.not_mem_nil, (List.append_nil _).symm⟩
    · cases hreply : replies s.iterationsUsed with
      | threw message =>
        rw [hreply] at h
        exact absurd h List.not_mem_nil
      | response response =>
        rw [hreply] at h
        dsimp only at h
        split at h
        next => exact absurd h List.not_mem_nil
        next hfinal =>
          obtain ⟨round, hcalls, hmessages⟩ := @messages_respond service input nonce world response.toolCalls ((s.ask input).meet response.modelId)
          obtain ⟨rounds, hne, rfl⟩ := ih _ messages h
          refine ⟨round :: rounds, List.forall_mem_cons.mpr ⟨?_, hne⟩, ?_⟩
          · rintro rfl
            exact calls_ne_of_not_final hfinal hcalls.symm
          · rw [hmessages, List.flatMap_cons, List.append_assoc]
            rfl

theorem requests_rounds {messages : List ModelMessage} (h : messages ∈ requests service input nonce world replies) :
    ∃ rounds : List (List RoundCall), (∀ round ∈ rounds, round ≠ []) ∧
      messages = input.history ++ [⟨.user, .text input.objective⟩] ++ rounds.flatMap modelRound :=
  requestsLoop_rounds _ _ messages h

end

/-! ## the rounds of a vendor -/

def anthropicRound (round : List RoundCall) : List AnthropicMessage :=
  [⟨.assistant, .blocks (round.map fun r => .toolUse r.call.id r.call.name r.call.input)⟩,
    ⟨.user, .blocks (round.map fun r => .toolResult r.call.id (some r.output) r.isError)⟩]

def geminiRound (round : List RoundCall) : List GeminiContent :=
  [⟨.assistant, round.map fun r => .functionCall r.call.id r.call.name (functionArguments r.call.input)⟩,
    ⟨.user, round.map fun r => .functionResponse r.call.id r.call.name r.isError (.string r.output)⟩]

def openAIRound (round : List RoundCall) : List OpenAIMessage :=
  .assistant none (round.map fun r => ⟨r.call.id, r.call.name, functionArguments r.call.input⟩) ::
    round.map fun r => .tool r.call.id (some r.output)

/-- every request of a turn: after the history and the objective come rounds, and in the messages of each vendor the
results of a round follow its calls, one each, with the id (for Gemini, and the name) of its call -/
structure WireProtocol (history : List ModelMessage) (objective : JsString) (messages : List ModelMessage)
    (rounds : List (List RoundCall)) : Prop where
  split : messages = history ++ [⟨.user, .text objective⟩] ++ rounds.flatMap modelRound
  anthropic : ∀ sent, toAnthropicMessages history = .ok sent →
    toAnthropicMessages messages = .ok (sent ++ [⟨.user, .text objective⟩] ++ rounds.flatMap anthropicRound)
  openAI : ∀ sent, toOpenAIMessages history = .ok sent →
    toOpenAIMessages messages = .ok (sent ++ [.user objective] ++ rounds.flatMap openAIRound)
  gemini : NamesAgree messages → ∃ sent, sent.length = history.length ∧
    toGeminiContents messages = sent ++ [⟨.user, [.text objective]⟩] ++ rounds.flatMap geminiRound

section
variable {round : List RoundCall} {rounds : List (List RoundCall)}

/-! ### Anthropic -/

theorem mapM_blocks {f : RoundCall → ModelMessageContentBlock} {g : RoundCall → AnthropicBlock}
    (h : ∀ r, toAnthropicBlock (f r) = .ok (g r)) (round : List RoundCall) :
    (round.map f).mapM toAnthropicBlock = .ok (round.map g) := by
  induction round with
  | nil => rfl
  | cons r round ih =>
    rw [List.map_cons, List.mapM_cons, h, ih]
    rfl

theorem anthropic_modelRound (round : List RoundCall) :
    toAnthropicMessages (modelRound round) = .ok (anthropicRound round) := by
  have hcalls : toAnthropicMessage (toolUseMessage (round.map RoundCall.call)) =
      .ok ⟨.assistant, .blocks (round.map fun r => .toolUse r.call.id r.call.name r.call.input)⟩ := by
    unfold toAnthropicMessage toAnthropicContent toolUseMessage
    dsimp only
    rw [List.map_map, mapM_blocks (g := fun r => .toolUse r.call.id r.call.name r.call.input) fun _ => rfl]
    rfl
  have hresults : toAnthropicMessage (toolResultMessage (round.map RoundCall.block)) =
      .ok ⟨.user, .blocks (round.map fun r => .toolResult r.call.id (some r.output) r.isError)⟩ := by
    unfold toAnthropicMessage toAnthropicContent toolResultMessage
    dsimp only
    rw [mapM_blocks (g := fun r => .toolResult r.call.id (some r.output) r.isError) fun _ => rfl]
    rfl
  unfold toAnthropicMessages modelRound
  rw [List.mapM_cons, hcalls, List.mapM_cons, hresults]
  rfl

theorem anthropic_append {xs ys : List ModelMessage} {sent sent' : List AnthropicMessage}
    (hxs : toAnthropicMessages xs = .ok sent) (hys : toAnthropicMessages ys = .ok sent') :
    toAnthropicMessages (xs ++ ys) = .ok (sent ++ sent') := by
  unfold toAnthropicMessages at *
  rw [List.mapM_append, hxs, hys]
  rfl

theorem anthropic_rounds (rounds : List (List RoundCall)) :
    toAnthropicMessages (rounds.flatMap modelRound) = .ok (rounds.flatMap anthropicRound) := by
  induction rounds with
  | nil => rfl
  | cons round rounds ih =>
    rw [List.flatMap_cons, List.flatMap_cons]
    exact anthropic_append (anthropic_modelRound round) ih

/-! ### OpenAI -/

theorem openAI_append {xs ys : List ModelMessage} {sent : List OpenAIMessage} (hxs : toOpenAIMessages xs = .ok sent)
    (hys : ∀ message ∈ ys, message.Encodable) : toOpenAIMessages (xs ++ ys) = .ok (sent ++ ys.flatMap sentMessages) := by
  obtain ⟨hencodable, rfl⟩ := (toOpenAIMessages_iff xs sent).mp hxs
  refine (toOpenAIMessages_iff _ _).mpr ⟨fun message hmem => ?_, List.flatMap_append.symm⟩
  exact (List.mem_append.mp hmem).elim (hencodable message) (hys message)

theorem rights_calls (calls : List ModelToolCall) :
    Precedence.rights ((calls.map ModelMessageContentBlock.toolUse).filterMap blockEvent) = [] := by
  induction calls with
  | nil => rfl
  | cons call calls ih =>
    rw [List.map_cons, blockEvents_toolUse, Precedence.rights_inl_cons, ih]

theorem rights_blocks (round : List RoundCall) :
    Precedence.rights ((round.map RoundCall.block).filterMap blockEvent) =
      round.map fun r => (r.call.id, .ok (some r.output)) := by
  induction round with
  | nil => rfl
  | cons r round ih =>
    rw [List.map_cons, RoundCall.block, buildToolResultBlock, blockEvents_toolResult, Precedence.rights_inr_cons, ih]
    rfl

theorem encodable_modelRound (round : List RoundCall) : ∀ message ∈ modelRound round, message.Encodable := by
  intro message hmem result hresult
  rcases List.mem_cons.mp hmem with rfl | hmem
  · have hnone := rights_calls (round.map RoundCall.call)
    unfold ModelMessage.toolEvents toolUseMessage Content.toBlocks at hresult
    dsimp only at hresult
    rw [hnone] at hresult
    cases hresult
  · rw [List.mem_singleton] at hmem
    rw [hmem] at hresult
    unfold ModelMessage.toolEvents toolResultMessage Content.toBlocks at hresult
    dsimp only at hresult
    rw [rights_blocks] at hresult
    obtain ⟨r, -, rfl⟩ := List.mem_map.mp hresult
    exact ⟨_, rfl⟩

theorem texts_calls (calls : List ModelToolCall) :
    (calls.map ModelMessageContentBlock.toolUse).filterMap ModelProvider.blockText = [] := by
  rw [List.filterMap_map]
  exact List.filterMap_eq_nil_iff.mpr fun _ _ => rfl

theorem lefts_calls (calls : List ModelToolCall) :
    Precedence.lefts ((calls.map ModelMessageContentBlock.toolUse).filterMap blockEvent) =
      calls.map fun call => ⟨call.id, call.name, call.input⟩ := by
  induction calls with
  | nil => rfl
  | cons call calls ih =>
    rw [List.map_cons, blockEvents_toolUse, Precedence.lefts_inl_cons, ih]
    rfl

theorem texts_blocks (round : List RoundCall) : (round.map RoundCall.block).filterMap ModelProvider.blockText = [] := by
  rw [List.filterMap_map]
  exact List.filterMap_eq_nil_iff.mpr fun _ _ => rfl

theorem lefts_blocks (round : List RoundCall) :
    Precedence.lefts ((round.map RoundCall.block).filterMap blockEvent) = [] := by
  induction round with
  | nil => rfl
  | cons r round ih =>
    rw [List.map_cons, RoundCall.block, buildToolResultBlock, blockEvents_toolResult, Precedence.lefts_inr_cons, ih]

/-- the calls make one message, and each result one -/
theorem sent_modelRound (h : round ≠ []) : (modelRound round).flatMap sentMessages = openAIRound round := by
  have hcalls : sentMessages (toolUseMessage (round.map RoundCall.call)) =
      [.assistant none (round.map fun r => ⟨r.call.id, r.call.name, functionArguments r.call.input⟩)] := by
    unfold sentMessages toolUseMessage ModelMessage.blockTexts ModelMessage.toolEvents Content.toBlocks
    dsimp only
    rw [rights_calls, texts_calls, lefts_calls, if_pos, if_neg]
    · rw [List.map_map, List.map_map, List.map_map]
      rfl
    · exact fun hne => hne rfl
    · exact Or.inr fun hnil => h (List.map_eq_nil_iff.mp (List.map_eq_nil_iff.mp hnil))
  have hresults : sentMessages (toolResultMessage (round.map RoundCall.block)) =
      round.map fun r => .tool r.call.id (some r.output) := by
    unfold sentMessages toolResultMessage ModelMessage.blockTexts ModelMessage.toolEvents Content.toBlocks
    dsimp only
    rw [rights_blocks, texts_blocks, lefts_blocks, List.map_map, List.map_map, if_neg]
    · exact List.append_nil _
    · rintro (hne | hne) <;> exact hne rfl
  unfold modelRound openAIRound
  rw [List.flatMap_cons, List.flatMap_cons, List.flatMap_nil, hcalls, hresults, List.append_nil]
  rfl

theorem sent_rounds (hne : ∀ round ∈ rounds, round ≠ []) :
    (rounds.flatMap modelRound).flatMap sentMessages = rounds.flatMap openAIRound := by
  rw [List.flatMap_assoc]
  exact List.flatMap_congr fun round hround => sent_modelRound (hne round hround)

/-! ### Gemini -/

theorem callsOf_append (xs ys : List ModelMessage) : callsOf (xs ++ ys) = callsOf xs ++ callsOf ys := List.flatMap_append

theorem callsOf_modelRound (round : List RoundCall) : ∀ r ∈ round, r.call ∈ callsOf (modelRound round) := by
  intro r hr
  refine List.mem_flatMap.mpr ⟨_, List.mem_cons_self, List.mem_filterMap.mpr ⟨.toolUse r.call, ?_, rfl⟩⟩
  exact List.mem_map.mpr ⟨r.call, List.mem_map.mpr ⟨r, hr, rfl⟩, rfl⟩

theorem gemini_modelRound {map : NameMap} (h : ∀ r ∈ round, map r.call.id = some r.call.name) :
    (modelRound round).map (toGeminiContent map) = geminiRound round := by
  have hresults : (round.map RoundCall.block).map (toGeminiPart map) =
      round.map fun r => .functionResponse r.call.id r.call.name r.isError (.string r.output) := by
    rw [List.map_map]
    refine List.map_congr_left fun r hr => ?_
    show GeminiPart.functionResponse r.call.id ((map r.call.id).getD r.call.id) r.isError (.string r.output) = _
    rw [h r hr]
    rfl
  unfold modelRound geminiRound
  rw [List.map_cons, List.map_cons, List.map_nil]
  unfold toGeminiContent toolUseMessage toolResultMessage toGeminiParts
  dsimp only
  rw [hresults, List.map_map, List.map_map]
  rfl

theorem gemini_rounds {messages : List ModelMessage} (hagree : NamesAgree messages)
    (h : ∀ round ∈ rounds, ∀ r ∈ round, r.call ∈ callsOf messages) :
    (rounds.flatMap modelRound).map (toGeminiContent (buildToolCallIdToNameMap messages)) =
      rounds.flatMap geminiRound := by
  rw [List.map_flatMap]
  exact List.flatMap_congr fun round hround =>
    gemini_modelRound fun r hr => map_of_call hagree (h round hround r hr)

end

/-! ## every turn -/

section
variable (service : AgentService) (input : AgentTurnInput) (nonce : Security.SessionNonce)
  (world : CallId → CallReply) (replies : Nat → ModelReply)

/-- whatever the model answers and whatever becomes of its calls, and whichever vendor a request goes to -/
theorem wire_protocol {messages : List ModelMessage} (h : messages ∈ requests service input nonce world replies) :
    ∃ rounds, WireProtocol input.history input.objective messages rounds := by
  obtain ⟨rounds, hne, hmessages⟩ := requests_rounds h
  refine ⟨rounds, hmessages, fun sent hsent => ?_, fun sent hsent => ?_, fun hagree => ?_⟩
  · rw [hmessages]
    exact anthropic_append (anthropic_append hsent rfl) (anthropic_rounds rounds)
  · have hobjective : toOpenAIMessages (input.history ++ [⟨.user, .text input.objective⟩]) =
        .ok (sent ++ [.user input.objective]) := by
      refine openAI_append hsent fun message hmem result hresult => ?_
      rw [List.mem_singleton.mp hmem] at hresult
      cases hresult
    rw [hmessages, ← sent_rounds hne]
    refine openAI_append hobjective fun message hmem => ?_
    obtain ⟨round, -, hmem⟩ := List.mem_flatMap.mp hmem
    exact encodable_modelRound round message hmem
  · have hrounds : (rounds.flatMap modelRound).map (toGeminiContent (buildToolCallIdToNameMap messages)) =
        rounds.flatMap geminiRound := by
      refine gemini_rounds hagree fun round hround r hr => ?_
      obtain ⟨message, hmessage, hcall⟩ := List.mem_flatMap.mp (callsOf_modelRound round r hr)
      rw [hmessages, callsOf_append]
      exact List.mem_append_right _
        (List.mem_flatMap.mpr ⟨message, List.mem_flatMap.mpr ⟨round, hround, hmessage⟩, hcall⟩)
    refine ⟨input.history.map (toGeminiContent (buildToolCallIdToNameMap messages)), List.length_map _, ?_⟩
    unfold toGeminiContents
    generalize buildToolCallIdToNameMap messages = map at hrounds ⊢
    rw [hmessages, List.map_append, List.map_append, hrounds]
    rfl

end

/-- the messages of the second request of a turn whose first answer is a call -/
def secondRequest : Option (List ModelMessage) :=
  (requests sampleService sampleInput sampleNonce (fun _ => returningReply (.string (lit "")))
    (repliesOf ⟨lit "a", declarePlanToolName, lit "\x7b\x7d"⟩))[1]?

theorem wire_protocol_secondRequest : ∃ messages, secondRequest = some messages ∧ messages.length = 3 ∧
    ∃ rounds, WireProtocol sampleInput.history sampleInput.objective messages rounds :=
  ⟨_, rfl, rfl, wire_protocol sampleService sampleInput sampleNonce (fun _ => returningReply (.string (lit "")))
    (repliesOf ⟨lit "a", declarePlanToolName, lit "\x7b\x7d"⟩) (List.mem_cons_of_mem _ List.mem_cons_self)⟩

end Agent
