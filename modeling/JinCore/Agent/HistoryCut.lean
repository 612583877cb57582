import JinCore.Agent.TurnProtocol

/-!
# Where a history is cut (`history-compaction.logic.ts`)

A turn starts with a message of the user whose content is a string; the results of the tools are
messages of the user as well, but lists of blocks.

* `turnStarts_cons`, `turnStarts_get`  the indices that `findTurnStartIndices` returns;
* `Answered`                           every call of a tool has its result in the next message;
* `answered_cut`                       a cut before a turn start keeps this on both sides;
* `answered_turn`                      it holds of the messages that `runTurn` builds;
* `cut_between_turns`.
-/

namespace Agent
open JsString Common ModelProvider

/-! ## the turn starts -/

theorem turnStarts_cons (message : ModelMessage) (messages : List ModelMessage) :
    findTurnStartIndices (message :: messages)
      = (if isTurnStart message then [0] else []) ++ (findTurnStartIndices messages).map (· + 1) := by
  rw [findTurnStartIndices, List.length_cons, List.range_succ_eq_map, List.filter_cons,
    List.filter_map]
  cases hstart : isTurnStart message with
  | true => simp [findTurnStartIndices, Function.comp_def, hstart]
  | false => simp [findTurnStartIndices, Function.comp_def, hstart]

theorem length_turnStarts (messages : List ModelMessage) :
    (findTurnStartIndices messages).length = messages.countP isTurnStart := by
  induction messages with
  | nil => rfl
  | cons message messages ih =>
    rw [turnStarts_cons, List.length_append, List.length_map, ih, List.countP_cons]
    cases isTurnStart message with
    | true => simp [Nat.add_comm]
    | false => simp

/-- the `k`-th turn start has `k` of them before it -/
theorem turnStarts_get {messages : List ModelMessage} {k i : Nat}
    (h : (findTurnStartIndices messages)[k]? = some i) :
    (∃ message rest, messages.drop i = message :: rest ∧ isTurnStart message = true) ∧
      (messages.take i).countP isTurnStart = k := by
  induction messages generalizing k i with
  | nil => simp [findTurnStartIndices] at h
  | cons message messages ih =>
    rw [turnStarts_cons] at h
    -- an index after the first message is one of the rest
    have hlater {j : Nat} (hj : ((findTurnStartIndices messages).map (· + 1))[j]? = some i) :
        ∃ i', i = i' + 1 ∧ (findTurnStartIndices messages)[j]? = some i' := by
      rw [List.getElem?_map, Option.map_eq_some_iff] at hj
      obtain ⟨i', hi', rfl⟩ := hj
      exact ⟨i', rfl, hi'⟩
    cases hstart : isTurnStart message with
    | true =>
      rw [hstart] at h
      cases k with
      | zero =>
        have hi : 0 = i := by simpa using h
        rw [← hi]
        exact ⟨⟨message, messages, rfl, hstart⟩, rfl⟩
      | succ k =>
        obtain ⟨i', rfl, hi'⟩ := hlater (j := k) (by simpa using h)
        obtain ⟨hdrop, htake⟩ := ih hi'
        refine ⟨hdrop, ?_⟩
        rw [List.take_succ_cons, List.countP_cons_of_pos hstart, htake]
    | false =>
      rw [hstart] at h
      obtain ⟨i', rfl, hi'⟩ := hlater (j := k) (by simpa using h)
      obtain ⟨hdrop, htake⟩ := ih hi'
      refine ⟨hdrop, ?_⟩
      rw [List.take_succ_cons, List.countP_cons_of_neg (by simp [hstart]), htake]

/-! ## calls and their results -/

def ModelMessageContentBlock.toolCall? : ModelMessageContentBlock → Option ModelToolCall
  | .toolUse call => some call
  | _ => none

def toolCallsOf (message : ModelMessage) : List ModelToolCall :=
  message.content.toBlocks.filterMap ModelMessageContentBlock.toolCall?

/-- the second message has a result for every call of the first -/
def Answers (message message' : ModelMessage) : Prop :=
  ∀ call ∈ toolCallsOf message,
    ∃ output isError, .toolResult call.id output isError ∈ message'.content.toBlocks

/-- a message of tool calls is followed by the message of their results -/
def Answered (messages : List ModelMessage) : Prop :=
  ∀ i message, messages[i]? = some message → toolCallsOf message ≠ [] →
    ∃ message', messages[i + 1]? = some message' ∧ Answers message message'

theorem isTurnStart_iff {message : ModelMessage} :
    isTurnStart message = true ↔ ∃ text, message = ⟨.user, .text text⟩ := by
  obtain ⟨role, content⟩ := message
  cases role with
  | user =>
    cases content with
    | text text => simp [isTurnStart]
    | blocks blocks => simp [isTurnStart]
  | assistant => simp [isTurnStart]

/-- a turn start answers no call -/
theorem not_answers_turnStart {message message' : ModelMessage} (hcalls : toolCallsOf message ≠ [])
    (hstart : isTurnStart message' = true) : ¬ Answers message message' := by
  intro h
  obtain ⟨text, rfl⟩ := isTurnStart_iff.mp hstart
  obtain ⟨call, hcall⟩ := List.exists_mem_of_ne_nil _ hcalls
  obtain ⟨output, isError, hmem⟩ := h call hcall
  cases hmem

section
variable {messages built : List ModelMessage} {boundary : Nat}

theorem answered_cut (h : Answered messages) {message : ModelMessage} {rest : List ModelMessage}
    (hdrop : messages.drop boundary = message :: rest) (hstart : isTurnStart message = true) :
    Answered (messages.take boundary) ∧ Answered (messages.drop boundary) := by
  have hat : messages[boundary]? = some message := by
    have hzero := congrArg (·[0]?) hdrop
    simpa using hzero
  constructor
  · intro i called hi hcalls
    rw [List.getElem?_take] at hi
    have hlt : i < boundary := by
      by_contra hge
      rw [if_neg hge] at hi
      cases hi
    rw [if_pos hlt] at hi
    obtain ⟨message', hnext, hanswers⟩ := h i called hi hcalls
    -- the message at the cut is a turn start, so the results are before it
    have hne : i + 1 ≠ boundary := by
      intro heq
      rw [heq, hat] at hnext
      cases hnext
      exact not_answers_turnStart hcalls hstart hanswers
    refine ⟨message', ?_, hanswers⟩
    rw [List.getElem?_take, if_pos (by omega)]
    exact hnext
  · intro i called hi hcalls
    rw [List.getElem?_drop] at hi
    obtain ⟨message', hnext, hanswers⟩ := h (boundary + i) called hi hcalls
    refine ⟨message', ?_, hanswers⟩
    rw [List.getElem?_drop]
    exact hnext

theorem Answered.append (h : Answered messages) (h' : Answered built) :
    Answered (messages ++ built) := by
  intro i called hi hcalls
  rcases Nat.lt_or_ge i messages.length with hlt | hge
  · rw [List.getElem?_append_left hlt] at hi
    obtain ⟨message', hnext, hanswers⟩ := h i called hi hcalls
    have hlt' : i + 1 < messages.length := (List.getElem?_eq_some_iff.mp hnext).1
    exact ⟨message', by rw [List.getElem?_append_left hlt', hnext], hanswers⟩
  · rw [List.getElem?_append_right hge] at hi
    obtain ⟨message', hnext, hanswers⟩ := h' _ called hi hcalls
    refine ⟨message', ?_, hanswers⟩
    rw [List.getElem?_append_right (by omega), ← hnext]
    congr 1
    omega

end

/-! ## the messages of a turn -/

theorem answered_text (role : Role) (text : JsString) : Answered [⟨role, .text text⟩] := by
  intro i message hi hcalls
  cases i with
  | zero =>
    cases hi
    exact absurd rfl hcalls
  | succ i => cases hi

theorem answered_round {round : List (ModelToolCall × ModelMessageContentBlock)}
    (h : ∀ pair ∈ round, Settles pair.1 pair.2) : Answered (roundMessages round) := by
  intro i message hi hcalls
  cases i with
  | zero =>
    cases hi
    refine ⟨_, rfl, fun call hcall => ?_⟩
    obtain ⟨block, hblock, heq⟩ := List.mem_filterMap.mp hcall
    obtain ⟨called, hcalled, rfl⟩ := List.mem_map.mp hblock
    cases heq
    obtain ⟨pair, hpair, rfl⟩ := List.mem_map.mp hcalled
    obtain ⟨output, isError, hsettled⟩ := h pair hpair
    exact ⟨_, isError, List.mem_map.mpr ⟨pair, hpair, hsettled⟩⟩
  | succ i =>
    cases i with
    | zero =>
      cases hi
      -- a result is no call
      refine absurd (List.filterMap_eq_nil_iff.mpr fun block hblock => ?_) hcalls
      obtain ⟨pair, hpair, rfl⟩ := List.mem_map.mp hblock
      obtain ⟨output, isError, hsettled⟩ := h pair hpair
      rw [hsettled]
      rfl
    | succ i => cases hi

/-- **the messages of a turn are answered if those of its history are** -/
theorem answered_turn (service : AgentService) (input : AgentTurnInput)
    (nonce : Security.SessionNonce) (world : CallId → CallReply) (replies : Nat → ModelReply)
    (h : Answered input.history) :
    Answered (runTurn service input nonce world replies).state.messages := by
  obtain ⟨rounds, hmessages, hsettled, -⟩ := rounds_turn service input nonce world replies
  have hpairs : ∀ pair ∈ rounds.flatten, Settles pair.1 pair.2 := by
    rw [← hsettled]
    exact settled_settles
  rw [hmessages]
  refine (h.append (answered_text .user input.objective)).append ?_
  clear hmessages hsettled
  induction rounds with
  | nil => exact fun i message hi => nomatch hi
  | cons round rounds ih =>
    rw [List.flatten_cons] at hpairs
    rw [List.flatMap_cons]
    exact (answered_round fun pair hpair => hpairs pair (List.mem_append_left _ hpair)).append
      (ih fun pair hpair => hpairs pair (List.mem_append_right _ hpair))

/-! ## the cut -/

/-- the history was cut before one of its turns -/
structure CutBetweenTurns (messages : List ModelMessage) (preserveLastTurns : Nat)
    (plan : HistoryCompactionPlan) : Prop where
  whole : plan.toCompact ++ plan.toPreserve = messages
  compacts : plan.toCompact ≠ []
  starts : ∃ text rest, plan.toPreserve = ⟨.user, .text text⟩ :: rest
  turns : (findTurnStartIndices plan.toPreserve).length = preserveLastTurns
  /-- a call and its result are on one side -/
  answered : Answered plan.toCompact ∧ Answered plan.toPreserve

theorem cut_at {messages : List ModelMessage} {n boundary : Nat} (h : Answered messages)
    (hn : n < (findTurnStartIndices messages).length)
    (hat : (findTurnStartIndices messages)[(findTurnStartIndices messages).length - n]?
      = some boundary) :
    CutBetweenTurns messages n ⟨messages.take boundary, messages.drop boundary⟩ := by
  obtain ⟨⟨message, rest, hdrop, hstart⟩, htake⟩ := turnStarts_get hat
  obtain ⟨text, rfl⟩ := isTurnStart_iff.mp hstart
  have hcount : (messages.take boundary).countP isTurnStart
      + (messages.drop boundary).countP isTurnStart = (findTurnStartIndices messages).length := by
    rw [← List.countP_append, List.take_append_drop, length_turnStarts]
  refine ⟨List.take_append_drop _ _, fun hnil => ?_, ⟨text, rest, hdrop⟩, ?_,
    answered_cut h hdrop hstart⟩
  · rw [show messages.take boundary = [] from hnil, List.countP_nil] at htake
    omega
  · show (findTurnStartIndices (messages.drop boundary)).length = n
    rw [length_turnStarts]
    omega

section
variable {messages : List ModelMessage} {config : HistoryCompactionConfig} {tokens : Nat}

theorem plan_none (htokens : estimateMessagesTokens messages = .ok tokens)
    (h : tokens ≤ config.maxHistoryTokens ∨
      (findTurnStartIndices messages).length ≤ config.preserveLastTurns) :
    planHistoryCompaction messages config = .ok none := by
  rw [planHistoryCompaction, htokens]
  show Except.ok (if _ then _ else _) = _
  by_cases htotal : tokens ≤ config.maxHistoryTokens
  · rw [if_pos htotal]
  · rw [if_neg htotal]
    simp only [if_pos (h.resolve_left htotal)]

theorem plan_some (htokens : estimateMessagesTokens messages = .ok tokens)
    (htotal : ¬ tokens ≤ config.maxHistoryTokens)
    (hmore : ¬ (findTurnStartIndices messages).length ≤ config.preserveLastTurns)
    (hpreserve : 1 ≤ config.preserveLastTurns) :
    ∃ boundary, (findTurnStartIndices messages)[(findTurnStartIndices messages).length
        - config.preserveLastTurns]? = some boundary ∧
      planHistoryCompaction messages config
        = .ok (some ⟨messages.take boundary, messages.drop boundary⟩) := by
  obtain ⟨boundary, hat⟩ : ∃ boundary, (findTurnStartIndices messages)[
      (findTurnStartIndices messages).length - config.preserveLastTurns]? = some boundary :=
    ⟨_, List.getElem?_eq_getElem (by omega)⟩
  refine ⟨boundary, hat, ?_⟩
  rw [planHistoryCompaction, htokens]
  show Except.ok (if _ then _ else _) = _
  rw [if_neg htotal]
  simp only [if_neg hmore, hat]
  cases boundary with
  | zero =>
    -- there is a turn start before it, so it is not the first message
    have htake := (turnStarts_get hat).2
    rw [List.take_zero, List.countP_nil] at htake
    omega
  | succ boundary => rfl

/-- **a history is cut between two turns, or not at all**: not if it is within the limit or has no
more turns than are preserved, and before the first of these turns else -/
theorem cut_between_turns (messages : List ModelMessage) (config : HistoryCompactionConfig)
    (h : Answered messages) (hpreserve : 1 ≤ config.preserveLastTurns) (tokens : Nat)
    (htokens : estimateMessagesTokens messages = .ok tokens) :
    (planHistoryCompaction messages config = .ok none ↔ tokens ≤ config.maxHistoryTokens ∨
      (findTurnStartIndices messages).length ≤ config.preserveLastTurns) ∧
    (¬ (tokens ≤ config.maxHistoryTokens ∨
        (findTurnStartIndices messages).length ≤ config.preserveLastTurns) →
      ∃ plan, planHistoryCompaction messages config = .ok (some plan) ∧
        CutBetweenTurns messages config.preserveLastTurns plan) := by
  have hcut (hnot : ¬ (tokens ≤ config.maxHistoryTokens ∨
      (findTurnStartIndices messages).length ≤ config.preserveLastTurns)) :
      ∃ plan, planHistoryCompaction messages config = .ok (some plan) ∧
        CutBetweenTurns messages config.preserveLastTurns plan := by
    rw [not_or] at hnot
    obtain ⟨boundary, hat, hplan⟩ := plan_some htokens hnot.1 hnot.2 hpreserve
    exact ⟨_, hplan, cut_at h (by omega) hat⟩
  refine ⟨⟨fun hnone => ?_, plan_none htokens⟩, hcut⟩
  by_contra hnot
  obtain ⟨plan, hplan, -⟩ := hcut hnot
  rw [hplan] at hnone
  cases hnone

end

/-- two turns, the first with a call of a tool -/
def twoTurns : List ModelMessage :=
  [⟨.user, .text (lit "hola")⟩, toolUseMessage [⟨lit "a", lit "fecha", lit "\x7b\x7d"⟩],
    toolResultMessage [.toolResult (lit "a") (.string (lit "lunes")) false],
    ⟨.assistant, .text (lit "es lunes")⟩, ⟨.user, .text (lit "gracias")⟩]

theorem answered_twoTurns : Answered twoTurns := by
  intro i message hi hcalls
  match i with
  | 0 | 2 | 3 | 4 =>
    cases hi
    exact absurd rfl hcalls
  | 1 =>
    cases hi
    refine ⟨_, rfl, fun call hcall => ?_⟩
    cases List.mem_singleton.mp hcall
    exact ⟨_, _, List.mem_singleton_self _⟩
  | _ + 5 => cases hi

theorem cut_twoTurns : ∃ plan, planHistoryCompaction twoTurns ⟨10, 1⟩ = .ok (some plan) ∧
    CutBetweenTurns twoTurns 1 plan :=
  (cut_between_turns twoTurns ⟨10, 1⟩ answered_twoTurns (by decide) 38 (by decide)).2 (by decide)

end Agent
