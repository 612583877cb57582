import JinCore.Agent.Compaction
import Mathlib.Data.List.Forall2

/-!
# The protocol of a turn (`agent.service.ts`)

What the model and the providers rely on in a turn: how often the model is called, that every call of a
tool has its result in the next message, and that a call that keeps failing is given up.

* `wholeTurn`               `runTurn` with the end of `finalizeTurn`;
* `Paired`, `paired_turn`   the messages of a turn;
* `FailedInARow`, `Counted` the failures of a tool and an input, and the count of them;
* `TurnProtocol`, `turn_protocol`.
-/

namespace Agent
open JsString Common Tools Hitl ModelProvider

/-! ## a whole turn -/

def Event.chat? : Event → Option ModelCall
  | .asked tools => some (.chat tools)
  | _ => none

/-- the calls of the model that the loop makes -/
def chats (events : List Event) : List ModelCall := events.filterMap Event.chat?

structure WholeTurn where
  /-- the calls of the model, oldest first -/
  calls : List ModelCall
  state : TurnState
  outcome : Except JsString FinalizedTurn

/-- `summary` is the answer to the call for the summary -/
def wholeTurn (service : AgentService) (config : HistoryCompactionConfig) (input : AgentTurnInput)
    (nonce : Security.SessionNonce) (world : CallId → CallReply) (replies : Nat → ModelReply)
    (summary : ModelReply) : WholeTurn :=
  let turn := runTurn service input nonce world replies
  match turn.outcome with
  | .error message => ⟨chats turn.state.events, turn.state, .error message⟩
  | .ok result =>
    match finalize config input.sessionId turn.state.messages result summary with
    | .error message => ⟨chats turn.state.events, turn.state, .error message⟩
    | .ok (calls, finalized) => ⟨chats turn.state.events ++ calls, turn.state, .ok finalized⟩

/-! ## what is promised -/

/-- the results of the calls, one each, in their order and with their ids -/
def Answer (calls : List ModelToolCall) (results : List ModelMessageContentBlock) : Prop :=
  List.Forall₂ (fun call block => ∃ output isError, block = .toolResult call.id output isError)
    calls results

/-- a message of tool calls is followed by the message of their results -/
def Paired (messages : List ModelMessage) : Prop :=
  ∀ pre calls post, messages = pre ++ toolUseMessage calls :: post →
    ∃ results rest, post = toolResultMessage results :: rest ∧ Answer calls results

def CallOutcome.isAttempt : CallOutcome → Bool
  | .disabled _ | .repeated _ => false
  | .deferred _ | .answered _ | .failed _ => true

/-- the outcome of an attempt at a call of this tool with this input -/
def Event.attemptAt (name input : JsString) : Event → Option CallOutcome
  | .answered _ call outcome =>
    if call.name = name ∧ call.input = input ∧ outcome.isAttempt = true then some outcome else none
  | _ => none

def attemptsAt (name input : JsString) (events : List Event) : List CallOutcome :=
  events.filterMap (Event.attemptAt name input)

/-- the last `n` attempts have all failed -/
def FailedInARow (n : Nat) (name input : JsString) (events : List Event) : Prop :=
  ∃ failures, failures <:+ attemptsAt name input events ∧ failures.length = n ∧
    ∀ outcome ∈ failures, ∃ message, outcome = .failed message

structure TurnProtocol (service : AgentService) (config : HistoryCompactionConfig)
    (input : AgentTurnInput) (replies : Nat → ModelReply) (turn : WholeTurn) : Prop where
  /-- the loop makes at most `maxIterationsPerTurn` calls; after them come the one for the summary of
  a history that is over its limit and, if it answers, the one of the memory -/
  calls : ∃ loop rest, turn.calls = loop ++ rest ∧
    loop.length ≤ service.config.maxIterationsPerTurn ∧ (∀ call ∈ loop, ∃ tools, call = .chat tools) ∧
    (rest = [] ∨ ∃ plan transcript,
      planHistoryCompaction turn.state.messages config = .ok (some plan) ∧
      (rest = [.historyCompaction transcript] ∨
        rest = [.historyCompaction transcript, .memoryConsolidation input.sessionId transcript]))
  /-- a turn in which the model answers returns, if its history is of JSON values -/
  returns : (∀ i, ∃ response, replies i = .response response) → (∀ m ∈ input.history, JsonMessage m) →
    ∃ finalized, turn.outcome = .ok finalized
  paired : ∃ built, turn.state.messages
    = input.history ++ [⟨.user, .text input.objective⟩] ++ built ∧ Paired built
  capped : ∀ pre id call decision result post,
    turn.state.events = pre ++ .executed id call decision result :: post →
      ¬ FailedInARow service.config.maxConsecutiveToolFailures call.name call.input pre

/-! ## the calls of the loop -/

section
variable {service : AgentService} {input : AgentTurnInput} {nonce : Security.SessionNonce}
  {world : CallId → CallReply} {replies : Nat → ModelReply}

theorem chats_append (es fs : List Event) : chats (es ++ fs) = chats es ++ chats fs :=
  List.filterMap_append

/-- an event of a real call is no call of the model -/
theorem chats_of_id {id : CallId} {events : List Event} (h : ∀ e ∈ events, e.id = some id) :
    chats events = [] := by
  refine List.filterMap_eq_nil_iff.mpr fun e he => ?_
  cases e with
  | asked tools => exact absurd (h _ he) (by simp [Event.id])
  | _ => rfl

theorem chats_handleToolCall (call : ModelToolCall) (s : TurnState) :
    chats (handleToolCall service input nonce world call s).1.events = chats s.events := by
  cases h : isPlanTool call.name with
  | true =>
    obtain ⟨handled, heq⟩ := handleToolCall_plan (s := s) h
    rw [heq]
    show chats (s.events ++ [_]) = _
    rw [chats_append]
    exact List.append_nil _
  | false =>
    rw [handleToolCall_real h]
    show chats (s.events ++ (_ ++ [_])) = _
    rw [chats_append, chats_append, chats_of_id (runRealToolCall_id s)]
    exact List.append_nil _

theorem chats_respond (calls : List ModelToolCall) (s : TurnState) :
    chats (respond service input nonce world calls s).events = chats s.events :=
  handleToolCalls_inv (P := fun t => chats t.events = chats s.events) calls
    (fun c _ t ht => (chats_handleToolCall c t).trans ht) _ rfl

/-- an iteration makes one call -/
theorem chats_turnLoop (n : Nat) :
    ∀ s, (chats (turnLoop service input nonce world replies n s).state.events).length
      ≤ (chats s.events).length + n := by
  induction n with
  | zero => exact fun s => Nat.le_refl _
  | succ n ih =>
    intro s
    have hask : (chats (s.ask input).events).length = (chats s.events).length + 1 := by
      show (chats (s.events ++ [_])).length = _
      rw [chats_append, List.length_append]
      rfl
    cases hreply : replies s.iterationsUsed with
    | threw message =>
      simp only [turnLoop, hreply]
      omega
    | response response =>
      simp only [turnLoop, hreply]
      split
      · show (chats (s.ask input).events).length ≤ _
        omega
      · have hrest := ih (respond service input nonce world response.toolCalls
          ((s.ask input).meet response.modelId))
        rw [chats_respond] at hrest
        have hmeet : (chats ((s.ask input).meet response.modelId).events).length
            = (chats s.events).length + 1 := hask
        omega

theorem chat_of_mem {events : List Event} {call : ModelCall} (h : call ∈ chats events) :
    ∃ tools, call = .chat tools := by
  obtain ⟨e, -, he⟩ := List.mem_filterMap.mp h
  cases e with
  | asked tools =>
    cases he
    exact ⟨tools, rfl⟩
  | _ => cases he

theorem turnLoop_returns (h : ∀ i, ∃ response, replies i = .response response) (n : Nat) :
    ∀ s, ∃ result, (turnLoop service input nonce world replies n s).outcome = .ok result := by
  induction n with
  | zero => exact fun s => ⟨_, rfl⟩
  | succ n ih =>
    intro s
    obtain ⟨response, hresponse⟩ := h s.iterationsUsed
    simp only [turnLoop, hresponse]
    split
    · exact ⟨_, rfl⟩
    · exact ih _

end

/-! ## the messages -/

/-- the result of a call has its id -/
def Settles (call : ModelToolCall) (block : ModelMessageContentBlock) : Prop :=
  ∃ output isError, block = buildToolResultBlock call.id output isError

section
variable {service : AgentService} {input : AgentTurnInput} {nonce : Security.SessionNonce}
  {world : CallId → CallReply} {replies : Nat → ModelReply}

theorem handleDeclarePlan_settles (service : AgentService) (call : ModelToolCall) :
    Settles call (handleDeclarePlan service call).2 := by
  rw [handleDeclarePlan]
  split
  · exact ⟨_, _, rfl⟩
  · exact ⟨_, _, rfl⟩

theorem handleUpdatePlanStep_settles (service : AgentService) (call : ModelToolCall)
    (plan : AgentPlan) : Settles call (handleUpdatePlanStep service call plan).2 := by
  rw [handleUpdatePlanStep]
  split
  · exact ⟨_, _, rfl⟩
  · split
    · exact ⟨_, _, rfl⟩
    · exact ⟨_, _, rfl⟩

theorem handleToolCall_settles (call : ModelToolCall) (s : TurnState) :
    Settles call (handleToolCall service input nonce world call s).2 := by
  rw [handleToolCall]
  split
  · exact handleDeclarePlan_settles service call
  · split
    · exact handleUpdatePlanStep_settles service call s.plan
    · exact ⟨_, _, rfl⟩

/-- **every result has the id of its call** -/
theorem settled_settles : ∀ pair ∈ settled (runTurn service input nonce world replies).state.events,
    Settles pair.1 pair.2 := by
  refine turn_inv (P := fun s => ∀ pair ∈ settled s.events, Settles pair.1 pair.2) ?_ ?_
    (fun _ _ h => h) (fun _ _ h => h) ?_
  · exact fun pair h => absurd h List.not_mem_nil
  · intro s h pair hpair
    change pair ∈ settled (s.events ++ [_]) at hpair
    rw [settled_append] at hpair
    rcases List.mem_append.mp hpair with hpair | hpair
    · exact h pair hpair
    · cases hpair
  · intro call _ s h pair hpair
    rw [settled_handleToolCall] at hpair
    rcases List.mem_append.mp hpair with hpair | hpair
    · exact h pair hpair
    · rw [List.mem_singleton.mp hpair]
      exact handleToolCall_settles call s

theorem paired_rounds {rounds : List (List (ModelToolCall × ModelMessageContentBlock))}
    (h : ∀ pair ∈ rounds.flatten, Settles pair.1 pair.2) : Paired (rounds.flatMap roundMessages) := by
  induction rounds with
  | nil =>
    intro pre calls post hsplit
    exact absurd hsplit.symm (List.append_ne_nil_of_right_ne_nil _ (List.cons_ne_nil _ _))
  | cons round rounds ih =>
    intro pre calls post hsplit
    rw [List.flatMap_cons, roundMessages, List.cons_append, List.cons_append, List.nil_append] at hsplit
    cases pre with
    | nil =>
      rw [List.nil_append, List.cons.injEq] at hsplit
      refine ⟨round.map Prod.snd, _, hsplit.2.symm, ?_⟩
      have hcalls : round.map Prod.fst = calls := by
        have hblocks := congrArg (fun m => m.content.toBlocks) hsplit.1
        exact List.map_injective_iff.mpr (fun _ _ hc => by cases hc; rfl) hblocks
      rw [Answer, ← hcalls, List.forall₂_map_left_iff, List.forall₂_map_right_iff,
        List.forall₂_same]
      intro pair hpair
      obtain ⟨output, isError, heq⟩ := h pair (List.mem_flatten.mpr ⟨round, List.mem_cons_self, hpair⟩)
      exact ⟨_, isError, heq⟩
    | cons m pre =>
      rw [List.cons_append, List.cons.injEq] at hsplit
      cases pre with
      | nil =>
        -- the message of the results is no message of the assistant
        rw [List.nil_append, List.cons.injEq] at hsplit
        cases congrArg ModelMessage.role hsplit.2.1
      | cons m' pre =>
        rw [List.cons_append, List.cons.injEq] at hsplit
        refine ih (fun pair hpair => h pair ?_) pre calls post hsplit.2.2
        rw [List.flatten_cons]
        exact List.mem_append_right _ hpair

end

/-! ## the cap on failures -/

/-- a registered name has no colon -/
theorem colon_notMem {name : JsString} {tool : ToolDefinition} (h : getToolDefinition name = some tool) :
    0x3A ∉ name.units := by
  have hall : ∀ tool ∈ toolRegistry, 0x3A ∉ tool.name.units := by decide
  rw [← name_of_getToolDefinition h]
  exact hall tool (List.mem_of_find?_eq_some h)

/-- two registered tools with inputs of one key are one tool with one input -/
theorem buildToolCallKey_inj {name name' input input' : JsString} {tool tool' : ToolDefinition}
    (h : getToolDefinition name = some tool) (h' : getToolDefinition name' = some tool')
    (hkey : buildToolCallKey name input = buildToolCallKey name' input') :
    name = name' ∧ input = input' := by
  have hunits : name.units ++ 0x3A :: input.units = name'.units ++ 0x3A :: input'.units := by
    have hall := congrArg JsString.units hkey
    simpa [buildToolCallKey, lit, ofChars, encode] using hall
  -- the name is what stands before the first colon
  have hbefore {us vs : List UInt16} (hus : 0x3A ∉ us) :
      (us ++ 0x3A :: vs).takeWhile (fun u => u ≠ 0x3A) = us := by
    have hno : ∀ u ∈ us, decide (u ≠ 0x3A) = true := fun u hu =>
      decide_eq_true (ne_of_mem_of_not_mem hu hus)
    rw [List.takeWhile_append_of_pos hno]
    simp
  have hname : name.units = name'.units := by
    rw [← hbefore (colon_notMem h), hunits, hbefore (colon_notMem h')]
  rw [hname] at hunits
  exact ⟨ext_units hname, ext_units (List.cons.inj (List.append_cancel_left hunits)).2⟩

/-- the count of a registered tool and an input is at least the failures in a row, and no call has
been executed at the cap -/
structure Counted (cap : Nat) (s : TurnState) : Prop where
  counts : ∀ name input tool, getToolDefinition name = some tool →
    ∀ failures, failures <:+ attemptsAt name input s.events →
      (∀ outcome ∈ failures, ∃ message, outcome = .failed message) →
        failures.length ≤ s.consecutiveFailures (buildToolCallKey name input)
  capped : ∀ pre id call decision result post,
    s.events = pre ++ .executed id call decision result :: post →
      ¬ FailedInARow cap call.name call.input pre

section
variable {service : AgentService} {input : AgentTurnInput} {nonce : Security.SessionNonce}
  {id : CallId} {reply : CallReply} {world : CallId → CallReply} {replies : Nat → ModelReply}
  {call : ModelToolCall} {cap : Nat} {s : TurnState}

theorem attemptsAt_append (name text : JsString) (es fs : List Event) :
    attemptsAt name text (es ++ fs) = attemptsAt name text es ++ attemptsAt name text fs :=
  List.filterMap_append

/-- the attempt itself comes before its outcome -/
theorem attemptAt_attempt (name text : JsString) {e : Event}
    (he : e ∈ (runRealToolCall service input nonce id reply call s).events) :
    e.attemptAt name text = none := by
  cases e with
  | answered id' call' outcome =>
    have hid := runRealToolCall_id s _ he
    cases hid
    exact absurd he not_answered
  | _ => rfl

theorem attemptsAt_of_none {name text : JsString} {events : List Event}
    (h : ∀ e ∈ events, e.attemptAt name text = none) : attemptsAt name text events = [] :=
  List.filterMap_eq_nil_iff.mpr h

theorem attemptsAt_answered (name text : JsString) (outcome : CallOutcome) :
    attemptsAt name text [.answered id call outcome]
      = if (call.name = name ∧ call.input = text) ∧ outcome.isAttempt = true then [outcome]
        else [] := by
  simp only [attemptsAt, List.filterMap_cons, Event.attemptAt, and_assoc]
  split
  next h => split at h <;> simp_all
  next h => split at h <;> simp_all

/-- an event that is neither an attempt nor an execution -/
theorem Counted.other (h : Counted cap s) {t : TurnState} {e : Event}
    (hattempt : ∀ name text, e.attemptAt name text = none)
    (hexecuted : ∀ id call decision result, .executed id call decision result ≠ e)
    (hfailures : t.consecutiveFailures = s.consecutiveFailures) (hevents : t.events = s.events ++ [e]) :
    Counted cap t := by
  constructor
  · intro name text tool htool failures hsuffix hfailed
    have hnone : attemptsAt name text [e] = [] :=
      attemptsAt_of_none (List.forall_mem_singleton.mpr (hattempt name text))
    rw [hevents, attemptsAt_append, hnone, List.append_nil] at hsuffix
    rw [hfailures]
    exact h.counts name text tool htool failures hsuffix hfailed
  · intro pre id call decision result post hsplit
    rw [hevents] at hsplit
    rcases Runs.split_append hsplit with ⟨post', hold⟩ | ⟨as, -, hnew⟩
    · exact h.capped pre id call decision result post' hold
    · have hmem : .executed id call decision result ∈ [e] := by
        rw [hnew]
        exact List.mem_append_right _ List.mem_cons_self
      exact absurd (List.mem_singleton.mp hmem) (hexecuted id call decision result)

/-- an executor only runs below the cap -/
theorem executed_below {decision : HitlDecision} {result : Except JsString JsValue} {id' : CallId}
    {call' : ModelToolCall} (h : .executed id' call' decision result ∈
      (runRealToolCall service input nonce id reply call s).events) :
    s.consecutiveFailures (buildToolCallKey call.name call.input)
      < service.config.maxConsecutiveToolFailures := by
  unfold runRealToolCall at h
  split at h
  · cases h
  · simp only at h
    split at h
    · cases h
    next hbelow => exact Nat.lt_of_not_le hbelow

/-- only a registered tool sets a count back -/
theorem registered_of_reset {n : Nat}
    (h : (runRealToolCall service input nonce id reply call s).outcome.failuresAfter n < n) :
    ∃ tool, getToolDefinition call.name = some tool := by
  have hpath := callPath service input nonce id reply call s
  generalize runRealToolCall service input nonce id reply call s = a at h hpath
  cases hpath with
  | disabled integration _ => exact absurd h (Nat.lt_irrefl n)
  | repeated _ => exact absurd h (Nat.lt_irrefl n)
  | undecided message _ => exact absurd h (by simp [CallOutcome.failuresAfter])
  | deferred d level hd _ => exact (decision_ok hd).1
  | executed d hd _ => exact (decision_ok hd).1

/-- one outcome more: the failures in a row against the count -/
theorem suffix_after {attempts : List CallOutcome} {outcome : CallOutcome} {n : Nat}
    (h : ∀ failures, failures <:+ attempts →
      (∀ o ∈ failures, ∃ message, o = .failed message) → failures.length ≤ n) :
    ∀ failures, failures <:+ attempts ++ (if outcome.isAttempt then [outcome] else []) →
      (∀ o ∈ failures, ∃ message, o = .failed message) →
        failures.length ≤ outcome.failuresAfter n := by
  intro failures hsuffix hfailed
  have hlast (hattempt : outcome.isAttempt = true) : failures = [] ∨
      ∃ before, failures = before ++ [outcome] ∧ before <:+ attempts := by
    rw [if_pos hattempt] at hsuffix
    exact List.suffix_concat_iff.mp hsuffix
  cases outcome with
  | disabled integration => exact h failures (by simpa [CallOutcome.isAttempt] using hsuffix) hfailed
  | repeated priorFailures =>
    exact h failures (by simpa [CallOutcome.isAttempt] using hsuffix) hfailed
  | deferred requestId =>
    rcases hlast rfl with rfl | ⟨before, rfl, -⟩
    · exact Nat.zero_le _
    · obtain ⟨message, hmessage⟩ := hfailed _ (List.mem_append_right _ (List.mem_singleton_self _))
      cases hmessage
  | answered sanitized =>
    rcases hlast rfl with rfl | ⟨before, rfl, -⟩
    · exact Nat.zero_le _
    · obtain ⟨message, hmessage⟩ := hfailed _ (List.mem_append_right _ (List.mem_singleton_self _))
      cases hmessage
  | failed message =>
    rcases hlast rfl with rfl | ⟨before, rfl, hbefore⟩
    · exact Nat.zero_le _
    · rw [List.length_append]
      exact Nat.succ_le_succ (h before hbefore fun o ho => hfailed o (List.mem_append_left _ ho))

theorem counted_call (h : Counted service.config.maxConsecutiveToolFailures s) :
    Counted service.config.maxConsecutiveToolFailures
      (handleToolCall service input nonce world call s).1 := by
  cases hplan : isPlanTool call.name with
  | true =>
    obtain ⟨handled, heq⟩ := handleToolCall_plan (s := s) hplan
    rw [heq]
    exact h.other (e := .planned call handled.2) (fun _ _ => rfl) (fun _ _ _ _ h => by cases h) rfl rfl
  | false =>
    rw [handleToolCall_real hplan]
    let a := runRealToolCall service input nonce s.handled (world s.handled) call s
    let key := buildToolCallKey call.name call.input
    show Counted _ (s.after call a)
    have hevents : (s.after call a).events
        = s.events ++ (a.events ++ [.answered s.handled call a.outcome]) := rfl
    constructor
    · intro name text tool htool failures hsuffix hfailed
      have hattempts : attemptsAt name text (s.after call a).events = attemptsAt name text s.events
          ++ attemptsAt name text [.answered s.handled call a.outcome] := by
        rw [hevents, attemptsAt_append, attemptsAt_append, attemptsAt_of_none fun e he =>
          attemptAt_attempt name text he, List.nil_append]
      rw [hattempts] at hsuffix
      have hold := h.counts name text tool htool
      by_cases hpair : call.name = name ∧ call.input = text
      · obtain ⟨rfl, rfl⟩ := hpair
        have hcount : (s.after call a).consecutiveFailures key
            = a.outcome.failuresAfter (s.consecutiveFailures key) := if_pos rfl
        rw [hcount]
        refine suffix_after hold failures ?_ hfailed
        simpa [attemptsAt_answered] using hsuffix
      · rw [attemptsAt_answered, if_neg fun hboth => hpair hboth.1, List.append_nil] at hsuffix
        refine (hold failures hsuffix hfailed).trans ?_
        show _ ≤ if buildToolCallKey name text = key then _ else _
        split
        next hkey =>
          -- a count that is set back is one of a registered tool, and of this pair then
          rw [hkey]
          refine Nat.le_of_not_lt fun hreset => hpair ?_
          obtain ⟨tool', htool'⟩ := registered_of_reset hreset
          obtain ⟨hname, htext⟩ := buildToolCallKey_inj htool htool' hkey
          exact ⟨hname.symm, htext.symm⟩
        next => exact Nat.le_refl _
    · intro pre id call' decision result post hsplit
      rw [hevents] at hsplit
      rcases Runs.split_append hsplit with ⟨post', hold⟩ | ⟨as, hpre, hnew⟩
      · exact h.capped pre id call' decision result post' hold
      · rcases Runs.split_append hnew with ⟨post', hattempt⟩ | ⟨_, -, hanswer⟩
        · have hmem : .executed id call' decision result ∈ a.events := by
            rw [hattempt]
            exact List.mem_append_right _ List.mem_cons_self
          have has : ∀ e ∈ as, e ∈ a.events := by
            rw [hattempt]
            exact fun e he => List.mem_append_left _ he
          obtain ⟨rfl, hdecision, -, -⟩ := executed_of_mem hmem
          obtain ⟨tool, htool⟩ := (decision_ok hdecision).1
          rintro ⟨failures, hsuffix, hlength, hfailed⟩
          rw [hpre, attemptsAt_append, attemptsAt_of_none fun e he =>
            attemptAt_attempt call'.name call'.input (has e he), List.append_nil] at hsuffix
          have hcount := h.counts _ _ tool htool failures hsuffix hfailed
          have hbelow := executed_below hmem
          omega
        · have hmem : .executed id call' decision result ∈ [Event.answered s.handled call a.outcome] := by
            rw [hanswer]
            exact List.mem_append_right _ List.mem_cons_self
          cases List.mem_singleton.mp hmem

theorem counted_turn : Counted service.config.maxConsecutiveToolFailures
    (runTurn service input nonce world replies).state := by
  refine turn_inv ⟨fun _ _ _ _ failures hsuffix _ => ?_, fun _ _ _ _ _ _ hsplit => ?_⟩
    (fun s h => h.other (e := .asked _) (fun _ _ => rfl) (fun _ _ _ _ h => by cases h) rfl rfl)
    (fun _ _ h => ⟨h.1, h.2⟩) (fun _ _ h => ⟨h.1, h.2⟩) fun call _ s h => counted_call h
  · rw [List.suffix_nil.mp hsuffix]
    exact Nat.zero_le _
  · exact absurd hsplit.symm (List.append_ne_nil_of_right_ne_nil _ (List.cons_ne_nil _ _))

end

/-! ## the protocol -/

section
variable (service : AgentService) (config : HistoryCompactionConfig) (input : AgentTurnInput)
  (nonce : Security.SessionNonce) (world : CallId → CallReply) (replies : Nat → ModelReply)
  (summary : ModelReply)

theorem state_wholeTurn : (wholeTurn service config input nonce world replies summary).state
    = (runTurn service input nonce world replies).state := by
  rw [wholeTurn]
  split
  · rfl
  · split <;> rfl

theorem calls_wholeTurn : ∃ rest, (wholeTurn service config input nonce world replies summary).calls
      = chats (runTurn service input nonce world replies).state.events ++ rest ∧
    (rest = [] ∨ ∃ plan transcript,
      planHistoryCompaction (runTurn service input nonce world replies).state.messages config
        = .ok (some plan) ∧
      (rest = [.historyCompaction transcript] ∨
        rest = [.historyCompaction transcript, .memoryConsolidation input.sessionId transcript])) := by
  rw [wholeTurn]
  split
  · exact ⟨[], (List.append_nil _).symm, Or.inl rfl⟩
  · split
    · exact ⟨[], (List.append_nil _).symm, Or.inl rfl⟩
    next hfinalize => exact ⟨_, rfl, (finalize_calls hfinalize).2⟩

/-- every message of a turn is of JSON values, if those of its history are -/
theorem jsonMessage_turn (hhistory : ∀ m ∈ input.history, JsonMessage m) :
    ∀ m ∈ (runTurn service input nonce world replies).state.messages, JsonMessage m := by
  obtain ⟨rounds, hmessages, hsettled, -⟩ := rounds_turn service input nonce world replies
  intro m hm
  rw [hmessages] at hm
  rcases List.mem_append.mp hm with hm | hm
  · rcases List.mem_append.mp hm with hm | hm
    · exact hhistory m hm
    · rw [List.mem_singleton.mp hm]
      exact fun b hb => absurd hb List.not_mem_nil
  · obtain ⟨round, hround, hm⟩ := List.mem_flatMap.mp hm
    rcases List.mem_cons.mp hm with rfl | hm
    · intro b hb
      obtain ⟨call, -, rfl⟩ := List.mem_map.mp hb
      exact trivial
    · rw [List.mem_singleton.mp hm]
      intro b hb
      obtain ⟨pair, hpair, rfl⟩ := List.mem_map.mp hb
      have hmem : pair ∈ settled (runTurn service input nonce world replies).state.events := by
        rw [hsettled]
        exact List.mem_flatten.mpr ⟨round, hround, hpair⟩
      obtain ⟨output, isError, heq⟩ := settled_settles pair hmem
      rw [heq]
      exact trivial

/-- **The protocol of a turn.**  Whatever the model answers and whatever becomes of its calls. -/
theorem turn_protocol : TurnProtocol service config input replies
    (wholeTurn service config input nonce world replies summary) := by
  constructor
  · obtain ⟨rest, hcalls, hrest⟩ := calls_wholeTurn service config input nonce world replies summary
    refine ⟨_, rest, hcalls, ?_, fun call hcall => chat_of_mem hcall, ?_⟩
    · exact (chats_turnLoop _ (.init input)).trans (le_of_eq (Nat.zero_add _))
    · rw [state_wholeTurn]
      exact hrest
  · intro hreplies hhistory
    obtain ⟨result, hresult⟩ : ∃ result, (runTurn service input nonce world replies).outcome
        = .ok result := turnLoop_returns hreplies _ _
    obtain ⟨calls, finalized, hfinalize⟩ := finalize_ok config input.sessionId result summary
      (jsonMessage_turn service input nonce world replies hhistory)
    refine ⟨finalized, ?_⟩
    simp only [wholeTurn, hresult, hfinalize]
  · obtain ⟨rounds, hmessages, hsettled, -⟩ := rounds_turn service input nonce world replies
    refine ⟨rounds.flatMap roundMessages, ?_, paired_rounds ?_⟩
    · rw [state_wholeTurn]
      exact hmessages
    · rw [← hsettled]
      exact settled_settles
  · rw [state_wholeTurn]
    exact counted_turn.capped

end

/-! ## a turn whose history is summed up -/

section
def oneIteration : AgentService :=
  { sampleService with
    config := { sampleService.config with
      maxIterationsPerTurn := 1
      iterations_pos := Nat.one_pos } }

/-- one turn before the objective, and a limit that it is over -/
def longInput : AgentTurnInput :=
  { sampleInput with history := [⟨.user, .text (lit "hola")⟩, ⟨.assistant, .text (lit "Hola.")⟩] }

def finalReply : ModelReply := .response ⟨lit "Listo.", lit "m", [], .endTurn⟩

def compactedTurn : WholeTurn :=
  wholeTurn oneIteration ⟨1, 1⟩ longInput sampleNonce
    (fun _ => returningReply (.string (lit ""))) (fun _ => finalReply) finalReply

/-- one iteration is allowed and one is made, and the model is called three times -/
theorem model_called_again : oneIteration.config.maxIterationsPerTurn = 1 ∧
    compactedTurn.calls.length = 3 ∧ ¬ compactedTurn.calls.length ≤ 1 := by
  decide

end

end Agent
