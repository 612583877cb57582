import JinCore.Agent.Turn

/-!
# Where the text of an executor ends up

* `withText`                another text in the result or the error of an executor;
* `outputs_other`           the results of the other calls do not depend on it;
* `outputs_of_executed`     the result of the call itself, as a function of it;
* `Escaped`                 it appears between the tags of its call, or not at all;
* `escaped_iff`             exactly the turns without an error text that goes in as it is.
-/

namespace Agent
open JsString Common Tools Hitl ModelProvider Security FeatureFlags Autonomy Audit

/-! ## another text -/

def withText (text : JsString) : JsValue → JsValue
  | .string _ => .string text
  | .json _ => .json text
  | .undefined => .undefined
  | .unserializable _ => .unserializable text

def ExecutorReply.withText (text : JsString) : ExecutorReply → ExecutorReply
  | .missing => .missing
  | .threw _ => .threw text
  | .returned value => .returned (Agent.withText text value)

/-- the same world, but for the text that the executor of one call gives back -/
def replaceText (world : CallId → CallReply) (id : CallId) (text : JsString) : CallId → CallReply :=
  fun k => if k = id then { world k with execute := (world k).execute.withText text } else world k

/-- the text of the result of a call -/
def Event.outputOf (id : CallId) : Event → Option JsString
  | .answered id' call outcome => if id' = id then some (outcome.output call.name) else none
  | _ => none

def outputs (id : CallId) (events : List Event) : List JsString :=
  events.filterMap (Event.outputOf id)

section
variable {service : AgentService} {input : AgentTurnInput} {nonce : SessionNonce} {id k : CallId}
  {reply : CallReply} {world : CallId → CallReply} {replies : Nat → ModelReply}
  {call : ModelToolCall} {s t : TurnState} {d : HitlDecision} {value : JsValue} {text : JsString}

theorem outputs_append (id : CallId) (es fs : List Event) :
    outputs id (es ++ fs) = outputs id es ++ outputs id fs := List.filterMap_append

theorem outputs_attempt :
    outputs id (runRealToolCall service input nonce k reply call s).events = [] := by
  refine List.filterMap_eq_nil_iff.mpr fun e he => ?_
  cases e with
  | answered id' call' outcome =>
    have hid := runRealToolCall_id s _ he
    cases hid
    exact absurd he not_answered
  | _ => rfl

/-! ## one call in two worlds -/

/-- two runs of a call that differ in what the executor gives back: both execute, or neither does and
they come to the same -/
theorem run_alike (service : AgentService) (input : AgentTurnInput) (nonce : SessionNonce)
    (id : CallId) (reply : CallReply) (call : ModelToolCall) (execute' : ExecutorReply)
    (hfailures : t.consecutiveFailures = s.consecutiveFailures) :
    (∃ d, runRealToolCall service input nonce id reply call s
          = execute service input nonce id reply call d ∧
        runRealToolCall service input nonce id { reply with execute := execute' } call t
          = execute service input nonce id { reply with execute := execute' } call d) ∨
      ((runRealToolCall service input nonce id { reply with execute := execute' } call t).outcome
          = (runRealToolCall service input nonce id reply call s).outcome ∧
        ∀ call' d result, .executed id call' d result ∉
          (runRealToolCall service input nonce id reply call s).events) := by
  have hdisabled : disabledIntegration { reply with execute := execute' } call
      = disabledIntegration reply call := rfl
  have hdecision : decision { reply with execute := execute' } call = decision reply call := rfl
  simp only [runRealToolCall, hdisabled, hfailures]
  split
  · exact Or.inr ⟨rfl, fun _ _ _ => List.not_mem_nil⟩
  · split
    · exact Or.inr ⟨rfl, fun _ _ _ => List.not_mem_nil⟩
    · simp only [attempt, hdecision]
      split
      · exact Or.inr ⟨rfl, fun _ _ _ => List.not_mem_nil⟩
      next d _ =>
        split
        · refine Or.inr ⟨rfl, fun _ _ _ => ?_⟩
          simp only [defer]
          split <;> simp
        · exact Or.inl ⟨d, rfl, rfl⟩

/-- the text does not decide whether a call is counted as a failure -/
theorem failuresAfter_withText (n : Nat) :
    (execute service input nonce id { reply with execute := reply.execute.withText text } call
        d).outcome.failuresAfter n
      = (execute service input nonce id reply call d).outcome.failuresAfter n := by
  cases hx : reply.execute with
  | missing => simp only [execute, hx, ExecutorReply.withText]
  | threw message => simp only [execute, hx, ExecutorReply.withText]; rfl
  | returned value =>
    have hpresent : (present nonce call (withText text value)).failuresAfter n
        = (present nonce call value).failuresAfter n := by
      cases value with
      | string _ => simp only [withText, present, stringifyToolResult, wrapUntrustedContent_session]; rfl
      | json _ => simp only [withText, present, stringifyToolResult, wrapUntrustedContent_session]; rfl
      | undefined => rfl
      | unserializable _ => rfl
    simp only [execute, hx, ExecutorReply.withText, report]
    split
    · rfl
    · split
      · split
        · rfl
        · exact hpresent
      · exact hpresent

theorem executed_withText {call' : ModelToolCall} {d' : HitlDecision}
    {result : Except JsString JsValue}
    (h : .executed id call' d' result ∈ (execute service input nonce id reply call d).events) :
    ∃ result', .executed id call' d' result' ∈
      (execute service input nonce id { reply with execute := reply.execute.withText text } call
        d).events := by
  cases hx : reply.execute with
  | missing =>
    simp only [execute, hx] at h
    cases h
  | threw message =>
    simp only [execute, hx] at h
    cases List.mem_singleton.mp h
    simp only [execute, ExecutorReply.withText]
    exact ⟨_, List.mem_singleton_self _⟩
  | returned value =>
    simp only [execute, hx] at h
    rcases List.mem_cons.mp h with h | h
    · cases h
      simp only [execute, ExecutorReply.withText]
      exact ⟨_, List.mem_cons_self⟩
    · rcases report_events h with ⟨row, h⟩ | ⟨event, h⟩ <;> cases h

/-! ## the turn in two worlds -/

/-- two turns side by side, in `world` and in `replaceText world id text` -/
structure Alike (id : CallId) (s t : TurnState) : Prop where
  plan : t.plan = s.plan
  failures : t.consecutiveFailures = s.consecutiveFailures
  iterations : t.iterationsUsed = s.iterationsUsed
  handled : t.handled = s.handled
  others : ∀ other ≠ id, outputs other t.events = outputs other s.events
  executed : ∀ call d result, .executed id call d result ∈ s.events →
    ∃ result', .executed id call d result' ∈ t.events

theorem alike_refl (s : TurnState) : Alike id s s :=
  ⟨rfl, rfl, rfl, rfl, fun _ _ => rfl, fun _ _ result h => ⟨result, h⟩⟩

/-- the same event in both, of no real call -/
theorem Alike.tell (h : Alike id s t) {s' t' : TurnState} {e : Event} (he : e.id = none)
    (hplan : t'.plan = s'.plan) (hfailures : t'.consecutiveFailures = s'.consecutiveFailures)
    (hiterations : t'.iterationsUsed = s'.iterationsUsed) (hhandled : t'.handled = s'.handled)
    (hs : s'.events = s.events ++ [e]) (ht : t'.events = t.events ++ [e]) : Alike id s' t' := by
  refine ⟨hplan, hfailures, hiterations, hhandled, fun other hother => ?_, fun c d result hmem => ?_⟩
  · rw [hs, ht, outputs_append, outputs_append, h.others other hother]
  · rw [hs] at hmem
    rcases List.mem_append.mp hmem with hmem | hmem
    · obtain ⟨result', hresult'⟩ := h.executed c d result hmem
      exact ⟨result', ht ▸ List.mem_append_left _ hresult'⟩
    · rw [← List.mem_singleton.mp hmem] at he
      cases he

theorem replaceText_self :
    replaceText world id text id = { world id with execute := (world id).execute.withText text } :=
  if_pos rfl

theorem replaceText_other (h : k ≠ id) : replaceText world id text k = world k := if_neg h

theorem outputs_after (other : CallId) {a : Attempt} (ha : outputs other a.events = []) :
    outputs other (s.after call a).events
      = outputs other s.events ++ outputs other [.answered s.handled call a.outcome] := by
  show outputs other (s.events ++ (a.events ++ [_])) = _
  rw [outputs_append, outputs_append, ha, List.nil_append]

theorem Alike.after (h : Alike id s t) {a b : Attempt}
    (ha : ∀ other, outputs other a.events = []) (hb : ∀ other, outputs other b.events = [])
    (hfailures : ∀ n, b.outcome.failuresAfter n = a.outcome.failuresAfter n)
    (hother : s.handled ≠ id → b.outcome = a.outcome)
    (hexecuted : ∀ call' d result, .executed id call' d result ∈ a.events →
      ∃ result', .executed id call' d result' ∈ b.events) :
    Alike id (s.after call a) (t.after call b) := by
  refine ⟨h.plan, ?_, h.iterations, congrArg Nat.succ h.handled, fun other hne => ?_,
    fun call' d result hmem => ?_⟩
  · funext key
    show (if key = _ then _ else _) = if key = _ then _ else _
    rw [h.failures, hfailures]
  · have hlast : outputs other [.answered t.handled call b.outcome]
        = outputs other [.answered s.handled call a.outcome] := by
      rw [h.handled]
      by_cases hid : s.handled = id
      · have hnone (outcome : CallOutcome) :
            outputs other [.answered s.handled call outcome] = [] := by
          have hkey : Event.outputOf other (.answered s.handled call outcome) = none :=
            if_neg fun heq => hne (heq.symm.trans hid)
          rw [outputs, List.filterMap_cons_none hkey]
          rfl
        rw [hnone, hnone]
      · rw [hother hid]
    rw [outputs_after other (ha other), outputs_after other (hb other), h.others other hne, hlast]
  · rcases List.mem_append.mp hmem with hmem | hmem
    · obtain ⟨result', hresult'⟩ := h.executed call' d result hmem
      exact ⟨result', List.mem_append_left _ hresult'⟩
    · rcases List.mem_append.mp hmem with hmem | hmem
      · obtain ⟨result', hresult'⟩ := hexecuted call' d result hmem
        exact ⟨result', List.mem_append_right _ (List.mem_append_left _ hresult')⟩
      · cases List.mem_singleton.mp hmem

theorem alike_real (h : Alike id s t) :
    Alike id (handleRealToolCall service input nonce world call s).1
      (handleRealToolCall service input nonce (replaceText world id text) call t).1 := by
  show Alike id (s.after call (runRealToolCall service input nonce s.handled (world s.handled) call s))
    (t.after call (runRealToolCall service input nonce t.handled (replaceText world id text t.handled)
      call t))
  rw [h.handled]
  by_cases hid : s.handled = id
  · rw [hid, replaceText_self]
    refine h.after (fun _ => outputs_attempt) (fun _ => outputs_attempt) ?_
      (fun hne => absurd hid hne) ?_
    · intro n
      rcases run_alike service input nonce id (world id) call
        ((world id).execute.withText text) h.failures with
        ⟨d, hs, ht⟩ | ⟨houtcome, -⟩
      · rw [hs, ht, failuresAfter_withText]
      · rw [houtcome]
    · intro call' d result hmem
      rcases run_alike service input nonce id (world id) call
        ((world id).execute.withText text) h.failures with
        ⟨d', hs, ht⟩ | ⟨-, hnone⟩
      · rw [hs] at hmem
        rw [ht]
        exact executed_withText hmem
      · exact absurd hmem (hnone call' d result)
  · rw [replaceText_other hid]
    have houtcome : (runRealToolCall service input nonce s.handled (world s.handled) call t).outcome
        = (runRealToolCall service input nonce s.handled (world s.handled) call s).outcome := by
      rcases run_alike service input nonce s.handled (world s.handled) call
        (world s.handled).execute h.failures with
        ⟨d, hs, ht⟩ | ⟨houtcome, -⟩
      · rw [hs]
        exact congrArg Attempt.outcome ht
      · exact houtcome
    refine h.after (fun _ => outputs_attempt) (fun _ => outputs_attempt) (fun n => ?_)
      (fun _ => houtcome) fun call' d result hmem => ?_
    · rw [houtcome]
    · have hid' := runRealToolCall_id s _ hmem
      exact absurd (Option.some.inj hid').symm hid

theorem alike_call (h : Alike id s t) :
    Alike id (handleToolCall service input nonce world call s).1
      (handleToolCall service input nonce (replaceText world id text) call t).1 := by
  unfold handleToolCall
  split
  · exact h.tell (e := .planned call _) rfl rfl h.failures h.iterations h.handled rfl rfl
  · split
    · rw [h.plan]
      exact h.tell (e := .planned call _) rfl rfl h.failures h.iterations h.handled rfl rfl
    · exact alike_real h

theorem alike_calls (calls : List ModelToolCall) : ∀ s t, Alike id s t →
    Alike id (handleToolCalls service input nonce world calls s).1
      (handleToolCalls service input nonce (replaceText world id text) calls t).1 := by
  induction calls with
  | nil => exact fun _ _ h => h
  | cons call calls ih => exact fun s t h => ih _ _ (alike_call h)

theorem alike_loop (n : Nat) : ∀ s t, Alike id s t →
    Alike id (turnLoop service input nonce world replies n s).state
      (turnLoop service input nonce (replaceText world id text) replies n t).state := by
  induction n with
  | zero => exact fun _ _ h => h
  | succ n ih =>
    intro s t h
    have hask : Alike id (s.ask input) (t.ask input) :=
      h.tell (e := .asked _) rfl h.plan h.failures (congrArg Nat.succ h.iterations) h.handled rfl rfl
    have hreply : replies t.iterationsUsed = replies s.iterationsUsed := by rw [h.iterations]
    cases hr : replies s.iterationsUsed with
    | threw message =>
      rw [hr] at hreply
      simp only [turnLoop, hr, hreply]
      exact hask
    | response response =>
      rw [hr] at hreply
      simp only [turnLoop, hr, hreply]
      split
      · exact ⟨hask.1, hask.2, hask.3, hask.4, hask.5, hask.6⟩
      · have hpushed : Alike id
            (((s.ask input).meet response.modelId).push (toolUseMessage response.toolCalls))
            (((t.ask input).meet response.modelId).push (toolUseMessage response.toolCalls)) :=
          ⟨hask.1, hask.2, hask.3, hask.4, hask.5, hask.6⟩
        obtain ⟨h1, h2, h3, h4, h5, h6⟩ :=
          @alike_calls service input nonce id world text response.toolCalls _ _ hpushed
        exact ih _ _ ⟨h1, h2, h3, h4, h5, h6⟩

theorem alike_turn : Alike id (runTurn service input nonce world replies).state
    (runTurn service input nonce (replaceText world id text) replies).state :=
  alike_loop _ _ _ (alike_refl _)

/-! ## the result of the call itself -/

/-- an executor that has run in a turn decides, with the statements behind it, what its call comes to -/
theorem outputs_of_executed {result : Except JsString JsValue}
    (h : .executed id call d result ∈ (runTurn service input nonce world replies).state.events) :
    outputs id (runTurn service input nonce world replies).state.events
        = [(execute service input nonce id (world id) call d).outcome.output call.name] ∧
      ((∃ message, (world id).execute = .threw message ∧ result = .error message) ∨
        ∃ value, (world id).execute = .returned value ∧ result = .ok value) := by
  have htraced := traced_turn service input nonce world replies
  obtain ⟨call', -, s₀, -, -, hevents⟩ := htraced.attempts id (htraced.bounded _ h id rfl)
  have hgroup : Event.executed id call d result ∈
      eventsOf id (runTurn service input nonce world replies).state.events := mem_eventsOf.mpr ⟨h, rfl⟩
  have houtputs : outputs id (runTurn service input nonce world replies).state.events
      = outputs id (eventsOf id (runTurn service input nonce world replies).state.events) := by
    rw [outputs, outputs, eventsOf, List.filterMap_filter]
    congr 1
    funext e
    cases e with
    | answered id' c outcome =>
      by_cases hid : id' = id
      · exact (if_pos (decide_eq_true (congrArg some hid))).symm
      · have hnone : Event.outputOf id (.answered id' c outcome) = none := if_neg hid
        rw [hnone, ite_self]
    | _ => exact (ite_self _).symm
  rw [hevents] at hgroup
  rcases List.mem_append.mp hgroup with hgroup | hgroup
  · obtain ⟨rfl, -, hrun, hresult⟩ := executed_of_mem hgroup
    refine ⟨?_, hresult⟩
    rw [houtputs, hevents, outputs_append, outputs_attempt, hrun, List.nil_append]
    have hsome (outcome : CallOutcome) : Event.outputOf id (.answered id call outcome)
        = some (outcome.output call.name) := if_pos rfl
    rw [outputs, List.filterMap_cons_some (hsome _)]
    rfl
  · cases List.mem_singleton.mp hgroup

/-- the same call, whatever text its executor gives back -/
theorem outputs_replaceText {result : Except JsString JsValue}
    (h : .executed id call d result ∈ (runTurn service input nonce world replies).state.events)
    (text : JsString) :
    outputs id (runTurn service input nonce (replaceText world id text) replies).state.events
      = [(execute service input nonce id
          { world id with execute := (world id).execute.withText text } call d).outcome.output
            call.name] := by
  have halike : Alike id (runTurn service input nonce world replies).state
      (runTurn service input nonce (replaceText world id text) replies).state := alike_turn
  obtain ⟨result', hresult'⟩ := halike.executed call d result h
  rw [(outputs_of_executed hresult').1, replaceText_self]

/-- the result of the executor gets to its serialisation -/
def Presented (reply : CallReply) (d : HitlDecision) : Prop :=
  reply.audit.fate = .ok ∧ (d.level = .notify → reply.notify = none)

/-- an executor text that goes into the result of its call as it is: the message of an error, or of
a serialisation that fails -/
def RawText (reply : CallReply) (d : HitlDecision) : Prop :=
  (∃ message, reply.execute = .threw message) ∨
    (∃ message, reply.execute = .returned (.unserializable message)) ∧ Presented reply d

theorem report_presented (h : Presented reply d) (value : JsValue) :
    (report service input nonce id reply call d value).outcome = present nonce call value := by
  simp only [report, h.1, ne_eq, not_true_eq_false, if_false]
  split
  next hlevel => simp only [h.2 hlevel]
  · rfl

/-- a result that does not get there does not count -/
theorem report_not_presented (h : ¬ Presented reply d) (value value' : JsValue) :
    (report service input nonce id reply call d value).outcome
      = (report service input nonce id reply call d value').outcome := by
  simp only [report]
  split
  · rfl
  next haudit =>
    rw [not_not] at haudit
    split
    next hlevel =>
      split
      · rfl
      next hnotify => exact absurd ⟨haudit, fun _ => hnotify⟩ h
    next hlevel => exact absurd ⟨haudit, fun hl => absurd hl hlevel⟩ h

/-- **the text of an executor is wrapped, or leaves no trace**: the results of the other calls do not
depend on it, and its own result is the wrapped text for every text, or the same for every text -/
structure EscapedAt (service : AgentService) (input : AgentTurnInput) (nonce : SessionNonce)
    (world : CallId → CallReply) (replies : Nat → ModelReply) (id : CallId) (call : ModelToolCall) :
    Prop where
  others : ∀ text, ∀ other ≠ id,
    outputs other (runTurn service input nonce (replaceText world id text) replies).state.events
      = outputs other (runTurn service input nonce world replies).state.events
  own : (∀ text,
      outputs id (runTurn service input nonce (replaceText world id text) replies).state.events
        = [wrapped text call.name nonce.text]) ∨
    ∀ text,
      outputs id (runTurn service input nonce (replaceText world id text) replies).state.events
        = outputs id (runTurn service input nonce world replies).state.events

theorem failedText_ne_wrapped (message text toolName source : JsString) :
    failedText toolName message ≠ wrapped text source nonce.text := by
  intro h
  have hunits := congrArg (fun s => s.units.head?) h
  rw [units_wrapped] at hunits
  cases hunits

/-- the message of a failure can be read off the result -/
theorem failedText_inj {toolName m m' : JsString} (h : failedText toolName m = failedText toolName m') :
    m = m' := by
  have hunits := congrArg JsString.units h
  simp only [failedText, units_append] at hunits
  exact ext_units (List.append_cancel_left hunits)

/-- an output that shows the text behind a fixed beginning is neither wrapped nor constant -/
theorem not_own {output : JsString → JsString} (here : JsString)
    (h : ∀ text, output text = failedText call.name text) :
    ¬ ((∀ text, [output text] = [wrapped text call.name nonce.text]) ∨ ∀ text, [output text] = [here]) := by
  rintro (hwrapped | hconstant)
  · have hsame := List.cons.inj (hwrapped (lit ""))
    rw [h] at hsame
    exact failedText_ne_wrapped _ _ _ _ hsame.1
  · have ha := (List.cons.inj (hconstant (lit "a"))).1
    have hb := (List.cons.inj (hconstant (lit "b"))).1
    rw [h] at ha hb
    have hab := failedText_inj (ha.trans hb.symm)
    exact absurd hab (by decide)

/-- what a returned value comes to with each text, once its serialisation is reached -/
theorem output_presented (hx : reply.execute = .returned value) (h : Presented reply d)
    (text : JsString) :
    (execute service input nonce id { reply with execute := reply.execute.withText text } call
        d).outcome.output call.name
      = (present nonce call (withText text value)).output call.name := by
  simp only [execute, hx, ExecutorReply.withText]
  have hpresented : Presented { reply with execute := .returned (withText text value) } d := h
  exact congrArg (CallOutcome.output call.name) (report_presented hpresented _)

/-- and when it is not -/
theorem output_not_presented (hx : reply.execute = .returned value) (h : ¬ Presented reply d)
    (text : JsString) :
    (execute service input nonce id { reply with execute := reply.execute.withText text } call
        d).outcome.output call.name
      = (execute service input nonce id reply call d).outcome.output call.name := by
  simp only [execute, hx, ExecutorReply.withText]
  exact congrArg (CallOutcome.output call.name) (report_not_presented h _ _)

theorem escapedAt_iff {result : Except JsString JsValue}
    (h : .executed id call d result ∈ (runTurn service input nonce world replies).state.events) :
    EscapedAt service input nonce world replies id call ↔ ¬ RawText (world id) d := by
  obtain ⟨hhere, hexecute⟩ := outputs_of_executed h
  let output (text : JsString) : JsString :=
    (execute service input nonce id { world id with execute := (world id).execute.withText text } call
      d).outcome.output call.name
  let here : JsString := (execute service input nonce id (world id) call d).outcome.output call.name
  have hown : EscapedAt service input nonce world replies id call ↔
      (∀ text, [output text] = [wrapped text call.name nonce.text]) ∨
        ∀ text, [output text] = [here] := by
    constructor
    · rintro ⟨-, hown⟩
      simpa only [outputs_replaceText h, hhere] using hown
    · intro hown
      refine ⟨fun text other hne => alike_turn.others other hne, ?_⟩
      simpa only [outputs_replaceText h, hhere] using hown
  rw [hown]
  rcases hexecute with ⟨message, hx, -⟩ | ⟨value, hx, -⟩
  · -- the error path: the message goes in as it is
    have hraw : RawText (world id) d := Or.inl ⟨message, hx⟩
    refine iff_of_false (not_own here fun text => ?_) (not_not_intro hraw)
    simp only [output, execute, hx, ExecutorReply.withText]
    rfl
  · by_cases hpresented : Presented (world id) d
    · have hout (text : JsString) : output text
          = (present nonce call (withText text value)).output call.name :=
        output_presented hx hpresented text
      cases value with
      | string _ =>
        refine iff_of_true (Or.inl fun text => ?_) ?_
        · rw [hout]
          simp only [withText, present, stringifyToolResult, wrapUntrustedContent_session]
          rfl
        · rintro (⟨message, hm⟩ | ⟨⟨message, hm⟩, -⟩) <;> rw [hx] at hm <;> cases hm
      | json _ =>
        refine iff_of_true (Or.inl fun text => ?_) ?_
        · rw [hout]
          simp only [withText, present, stringifyToolResult, wrapUntrustedContent_session]
          rfl
        · rintro (⟨message, hm⟩ | ⟨⟨message, hm⟩, -⟩) <;> rw [hx] at hm <;> cases hm
      | undefined =>
        refine iff_of_true (Or.inr fun text => ?_) ?_
        · have hsame : here = (present nonce call .undefined).output call.name := by
            simp only [here, execute, hx]
            exact congrArg (CallOutcome.output call.name) (report_presented hpresented _)
          rw [hout, hsame]
          rfl
        · rintro (⟨message, hm⟩ | ⟨⟨message, hm⟩, -⟩) <;> rw [hx] at hm <;> cases hm
      | unserializable message =>
        have hraw : RawText (world id) d := Or.inr ⟨⟨message, hx⟩, hpresented⟩
        exact iff_of_false (not_own here hout) (not_not_intro hraw)
    · refine iff_of_true (Or.inr fun text => ?_) ?_
      · exact congrArg (fun o => [o]) (output_not_presented hx hpresented text)
      · rintro (⟨message, hm⟩ | ⟨-, hm⟩)
        · rw [hx] at hm
          cases hm
        · exact hpresented hm

end

end Agent
