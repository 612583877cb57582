import JinCore.Common.Calls
import JinCore.Js.Text
import JinCore.Lib.Runs

/-!
# Streaming failover (`failover.service.ts`, `router.service.ts`)

The primary is called, once more if it fails, and then the fallback, but only while no delta has
been delivered.

* `CallRun`                     how a call of a model behaves: its deltas, then its result;
* `executeWithFailoverStream`   the two `try` blocks, over one flag;
* `completeStream`              the calls of the router, through a provider that streams or not;
* `FailoverShape`, `failover_shape`   calls that fail in silence, and then the last one;
* `StreamSpec`, `failover_never_mixes`.
-/

namespace ModelProvider
open JsString Common

structure FailoverContext where
  taskProfile : JsString
  primaryModelId : JsString
  fallbackModelId : JsString
  deriving DecidableEq, Repr

/-- the calls that can be made, in their order -/
inductive Attempt where
  | primary | retry | fallback
  deriving DecidableEq, Repr

def attempts : List Attempt := [.primary, .retry, .fallback]

def FailoverContext.modelId (context : FailoverContext) : Attempt → JsString
  | .primary | .retry => context.primaryModelId
  | .fallback => context.fallbackModelId

structure StreamDelta where
  delta : JsString
  snapshot : JsString
  deriving DecidableEq, Repr

/-- the deltas a call delivers, and what it returns or throws after them -/
structure CallRun (ρ ε : Type) where
  deltas : List StreamDelta
  result : Except ε ρ

inductive StreamEvent where
  | started (attempt : Attempt)
  /-- `onDelta` is called by an attempt -/
  | delta (attempt : Attempt) (delta : StreamDelta)
  deriving DecidableEq, Repr

/-- what `executeWithFailoverStream` shares between its calls, the events oldest first -/
structure Stream where
  emittedAny : Bool
  events : List StreamEvent

inductive StreamEnd (ρ ε : Type) where
  | returned (value : ρ)
  | threw (error : JinError) (cause : ε)

/-! ## the errors -/

def allProvidersFailedError (taskProfile primaryModelId fallbackModelId : JsString) : JinError where
  message := lit "Tanto el modelo primary (" ++ primaryModelId ++ lit ") como el fallback ("
    ++ fallbackModelId ++ lit ") fallaron para el profile \"" ++ taskProfile ++ lit "\"."
  code := lit "MODEL_PROVIDER_ALL_FAILED"
  httpStatus := some 502

def streamAlreadyPartiallyEmittedError (taskProfile modelId : JsString) : JinError where
  message := lit "El modelo \"" ++ modelId ++ lit "\" (profile \"" ++ taskProfile
    ++ lit "\") falló después de emitir contenido parcial al cliente — no se reintenta ni se cae a fallback para no mezclar texto de dos modelos en la misma respuesta."
  code := lit "MODEL_PROVIDER_STREAM_INTERRUPTED"
  httpStatus := some 502

def unknownModelVendorError (modelId : JsString) : JinError where
  message := lit "No se pudo determinar el vendor (Anthropic/Google/OpenAI) para el modelId \""
    ++ modelId ++ lit "\"."
  code := lit "MODEL_PROVIDER_UNKNOWN_VENDOR"
  httpStatus := some 500

/-! ## the calls -/

section
variable {ρ ε : Type}

def guardedOnDelta (attempt : Attempt) (s : Stream) (delta : StreamDelta) : Stream :=
  ⟨true, s.events ++ [.delta attempt delta]⟩

def callAttempt (attempt : Attempt) (run : CallRun ρ ε) (s : Stream) : Except ε ρ × Stream :=
  (run.result,
    run.deltas.foldl (guardedOnDelta attempt) { s with events := s.events ++ [.started attempt] })

def retryOnceStream (runs : Attempt → CallRun ρ ε) (s : Stream) : Except ε ρ × Stream :=
  match callAttempt .primary (runs .primary) s with
  | (.ok value, s) => (.ok value, s)
  | (.error error, s) =>
    if s.emittedAny then (.error error, s) else callAttempt .retry (runs .retry) s

def executeWithFailoverStream (context : FailoverContext) (runs : Attempt → CallRun ρ ε) :
    StreamEnd ρ ε × Stream :=
  match retryOnceStream runs ⟨false, []⟩ with
  | (.ok value, s) => (.returned value, s)
  | (.error primaryError, s) =>
    if s.emittedAny then
      (.threw (streamAlreadyPartiallyEmittedError context.taskProfile context.primaryModelId)
        primaryError, s)
    else
      match callAttempt .fallback (runs .fallback) s with
      | (.ok value, s) => (.returned value, s)
      | (.error fallbackError, s) =>
        if s.emittedAny then
          (.threw (streamAlreadyPartiallyEmittedError context.taskProfile context.fallbackModelId)
            fallbackError, s)
        else
          (.threw (allProvidersFailedError context.taskProfile context.primaryModelId
            context.fallbackModelId) fallbackError, s)

end

/-! ## the providers -/

inductive Vendor where
  | anthropic | google | openai
  deriving DecidableEq, Repr

/-- how a call of a provider behaves; `completeStream` is optional -/
structure ProviderRun (ρ ε : Type) where
  complete : Except ε ρ
  completeStream : Option (CallRun ρ ε)

def providerFor (modelId : JsString) : Option Vendor :=
  if (lit "claude-").units.isPrefixOf modelId.units then some .anthropic
  else if (lit "gemini-").units.isPrefixOf modelId.units then some .google
  else if (lit "gpt-").units.isPrefixOf modelId.units then some .openai
  else none

section
variable {ρ ε : Type} (jin : JinError → ε) (content : ρ → JsString)

/-- a provider that does not stream gives its whole text as one delta -/
def completeOrStream (modelId : JsString) (provider : Vendor → ProviderRun ρ ε) : CallRun ρ ε :=
  match providerFor modelId with
  | none => ⟨[], .error (jin (unknownModelVendorError modelId))⟩
  | some vendor =>
    match (provider vendor).completeStream with
    | some run => run
    | none =>
      match (provider vendor).complete with
      | .ok response => ⟨[⟨content response, content response⟩], .ok response⟩
      | .error error => ⟨[], .error error⟩

def completeStream (context : FailoverContext) (providers : Attempt → Vendor → ProviderRun ρ ε) :
    StreamEnd ρ ε × Stream :=
  executeWithFailoverStream context fun attempt =>
    completeOrStream jin content (context.modelId attempt) (providers attempt)

end

/-! ## the shape of a run -/

section
variable {ρ ε : Type} {context : FailoverContext} {runs : Attempt → CallRun ρ ε}

/-- the call fails and delivers nothing -/
def FailsSilently (run : CallRun ρ ε) : Prop := run.deltas = [] ∧ ∃ error, run.result = .error error

/-- the events of one call -/
def eventsOf (runs : Attempt → CallRun ρ ε) (a : Attempt) : List StreamEvent :=
  .started a :: (runs a).deltas.map (.delta a)

/-- what is thrown, or returned, after the last call -/
def endOf (context : FailoverContext) (a : Attempt) (run : CallRun ρ ε) : StreamEnd ρ ε :=
  match run.result with
  | .ok value => .returned value
  | .error error =>
    if run.deltas = [] then .threw (allProvidersFailedError context.taskProfile
      context.primaryModelId context.fallbackModelId) error
    else .threw (streamAlreadyPartiallyEmittedError context.taskProfile (context.modelId a)) error

/-- calls that fail in silence, then one that does not, or that is the last -/
structure FailoverShape (context : FailoverContext) (runs : Attempt → CallRun ρ ε)
    (out : StreamEnd ρ ε × Stream) (silent : List Attempt) (a : Attempt) (rest : List Attempt) :
    Prop where
  split : attempts = silent ++ a :: rest
  quiet : ∀ b ∈ silent, FailsSilently (runs b)
  last : rest = [] ∨ ¬ FailsSilently (runs a)
  outcome : out.1 = endOf context a (runs a)
  events : out.2.events = silent.map .started ++ eventsOf runs a

theorem foldl_guardedOnDelta (a : Attempt) (deltas : List StreamDelta) (s : Stream) :
    deltas.foldl (guardedOnDelta a) s
      = ⟨s.emittedAny || decide (deltas ≠ []), s.events ++ deltas.map (.delta a)⟩ := by
  induction deltas generalizing s with
  | nil => simp
  | cons d deltas ih =>
    rw [List.foldl_cons, ih]
    simp [guardedOnDelta]

theorem callAttempt_eq (a : Attempt) (run : CallRun ρ ε) (s : Stream) :
    callAttempt a run s = (run.result, ⟨s.emittedAny || decide (run.deltas ≠ []),
      s.events ++ (.started a :: run.deltas.map (.delta a))⟩) := by
  rw [callAttempt, foldl_guardedOnDelta, List.append_assoc]
  rfl

theorem callAttempt_silent {run : CallRun ρ ε} (h : FailsSilently run) (a : Attempt)
    (events : List StreamEvent) : ∃ error, run.result = .error error ∧
      callAttempt a run ⟨false, events⟩ = (.error error, ⟨false, events ++ [.started a]⟩) := by
  obtain ⟨hdeltas, error, hresult⟩ := h
  refine ⟨error, hresult, ?_⟩
  rw [callAttempt_eq, hdeltas, hresult]
  rfl

theorem retryOnceStream_silent (h : FailsSilently (runs .primary)) :
    retryOnceStream runs ⟨false, []⟩
      = callAttempt .retry (runs .retry) ⟨false, [.started .primary]⟩ := by
  obtain ⟨error, -, hcall⟩ := callAttempt_silent h .primary []
  rw [retryOnceStream, hcall]
  rfl

theorem retryOnceStream_loud (h : ¬ FailsSilently (runs .primary)) :
    retryOnceStream runs ⟨false, []⟩ = callAttempt .primary (runs .primary) ⟨false, []⟩ := by
  rw [retryOnceStream, callAttempt_eq]
  cases hresult : (runs .primary).result with
  | ok value => rfl
  | error error =>
    have hdeltas : (runs .primary).deltas ≠ [] := fun hnil => h ⟨hnil, error, hresult⟩
    simp [hdeltas]

/-- a call of the primary that settles the run -/
theorem execute_loud (context : FailoverContext) {a : Attempt} {events : List StreamEvent}
    (hcall : retryOnceStream runs ⟨false, []⟩ = callAttempt a (runs a) ⟨false, events⟩)
    (ha : context.modelId a = context.primaryModelId) (h : ¬ FailsSilently (runs a)) :
    executeWithFailoverStream context runs
      = (endOf context a (runs a), (callAttempt a (runs a) ⟨false, events⟩).2) := by
  rw [executeWithFailoverStream, hcall, callAttempt_eq, endOf]
  cases hresult : (runs a).result with
  | ok value => rfl
  | error error =>
    have hdeltas : (runs a).deltas ≠ [] := fun hnil => h ⟨hnil, error, hresult⟩
    simp [hdeltas, ha]

/-- after both calls of the primary the fallback settles it -/
theorem execute_silent (context : FailoverContext) {a : Attempt} {events : List StreamEvent}
    (hcall : retryOnceStream runs ⟨false, []⟩ = callAttempt a (runs a) ⟨false, events⟩)
    (h : FailsSilently (runs a)) :
    executeWithFailoverStream context runs = (endOf context .fallback (runs .fallback),
      (callAttempt .fallback (runs .fallback) ⟨false, events ++ [.started a]⟩).2) := by
  obtain ⟨error, -, hsilent⟩ := callAttempt_silent h a events
  rw [executeWithFailoverStream, hcall, hsilent]
  simp only [Bool.false_eq_true, if_false]
  rw [callAttempt_eq, endOf]
  cases hresult : (runs .fallback).result with
  | ok value => rfl
  | error fallbackError =>
    by_cases hdeltas : (runs .fallback).deltas = []
    · simp [hdeltas]
    · simp [hdeltas, FailoverContext.modelId]

theorem events_callAttempt (a : Attempt) (runs : Attempt → CallRun ρ ε) (emittedAny : Bool)
    (events : List StreamEvent) :
    (callAttempt a (runs a) ⟨emittedAny, events⟩).2.events = events ++ eventsOf runs a := by
  rw [callAttempt_eq, eventsOf]

theorem endOf_error {a : Attempt} {run : CallRun ρ ε} {error : ε} (h : run.result = .error error) :
    endOf context a run = if run.deltas = [] then .threw (allProvidersFailedError
      context.taskProfile context.primaryModelId context.fallbackModelId) error
    else .threw (streamAlreadyPartiallyEmittedError context.taskProfile (context.modelId a)) error := by
  rw [endOf, h]

/-- **The shape of a run.** -/
theorem failover_shape (context : FailoverContext) (runs : Attempt → CallRun ρ ε) :
    ∃ silent a rest, FailoverShape context runs (executeWithFailoverStream context runs) silent a
      rest := by
  by_cases hprimary : FailsSilently (runs .primary)
  · have hcall := retryOnceStream_silent hprimary
    have hquiet : ∀ b ∈ [Attempt.primary], FailsSilently (runs b) :=
      List.forall_mem_singleton.mpr hprimary
    by_cases hretry : FailsSilently (runs .retry)
    · have hout := execute_silent context hcall hretry
      refine ⟨[.primary, .retry], .fallback, [], rfl, ?_, Or.inl rfl, ?_, ?_⟩
      · exact List.forall_mem_cons.mpr ⟨hprimary, List.forall_mem_singleton.mpr hretry⟩
      · rw [hout]
      · rw [hout, events_callAttempt]
        rfl
    · have hout := execute_loud context hcall rfl hretry
      refine ⟨[.primary], .retry, [.fallback], rfl, hquiet, Or.inr hretry, ?_, ?_⟩
      · rw [hout]
      · rw [hout, events_callAttempt]
        rfl
  · have hout := execute_loud context (retryOnceStream_loud hprimary) rfl hprimary
    refine ⟨[], .primary, [.retry, .fallback], rfl, fun _ h => absurd h List.not_mem_nil,
      Or.inr hprimary, ?_, ?_⟩
    · rw [hout]
    · rw [hout, events_callAttempt]
      rfl

end

/-! ## what a caller sees -/

def StreamEvent.attempt? : StreamEvent → Option Attempt
  | .started a => some a
  | .delta _ _ => none

def StreamEvent.delivered? : StreamEvent → Option (Attempt × StreamDelta)
  | .started _ => none
  | .delta a d => some (a, d)

section
variable {ρ ε : Type} {context : FailoverContext} {runs : Attempt → CallRun ρ ε}
  {out : StreamEnd ρ ε × Stream} {silent rest : List Attempt} {a : Attempt}

/-- the attempts, the deltas and the end of `executeWithFailoverStream` -/
structure StreamSpec (context : FailoverContext) (runs : Attempt → CallRun ρ ε)
    (out : StreamEnd ρ ε × Stream) : Prop where
  attempts : out.2.events.filterMap StreamEvent.attempt? <+: attempts
  /-- the deltas are those of one attempt -/
  source : ∃ a, out.2.events.filterMap StreamEvent.delivered? = (runs a).deltas.map (Prod.mk a)
  /-- nothing has been delivered when an attempt starts -/
  commits : ∀ pre a post, out.2.events = pre ++ .started a :: post →
    pre.filterMap StreamEvent.delivered? = []
  /-- the value is that of the last attempt, and every delta is its own -/
  returned : ∀ value, out.1 = .returned value →
    ∃ a, (out.2.events.filterMap StreamEvent.attempt?).getLast? = some a ∧
      (runs a).result = .ok value ∧ ∀ b d, .delta b d ∈ out.2.events → b = a
  interrupted : (∃ modelId cause, out.1
      = .threw (streamAlreadyPartiallyEmittedError context.taskProfile modelId) cause) ↔
    ∃ a error, .started a ∈ out.2.events ∧ (runs a).deltas ≠ [] ∧ (runs a).result = .error error
  exhausted : (∃ cause, out.1 = .threw (allProvidersFailedError context.taskProfile
      context.primaryModelId context.fallbackModelId) cause) ↔ ∀ a, FailsSilently (runs a)

theorem errors_differ (taskProfile modelId primaryModelId fallbackModelId : JsString) :
    streamAlreadyPartiallyEmittedError taskProfile modelId
      ≠ allProvidersFailedError taskProfile primaryModelId fallbackModelId := by
  intro h
  have hcode : lit "MODEL_PROVIDER_STREAM_INTERRUPTED" = lit "MODEL_PROVIDER_ALL_FAILED" :=
    congrArg JinError.code h
  revert hcode
  decide

theorem FailoverShape.starts (h : FailoverShape context runs out silent a rest) :
    out.2.events.filterMap StreamEvent.attempt? = silent ++ [a] := by
  have hstarted : (silent.map StreamEvent.started).filterMap StreamEvent.attempt? = silent := by
    rw [List.filterMap_map]
    exact List.filterMap_some
  have hdeltas : ((runs a).deltas.map (StreamEvent.delta a)).filterMap StreamEvent.attempt? = [] := by
    rw [List.filterMap_map]
    exact List.filterMap_eq_nil_iff.mpr fun _ _ => rfl
  rw [h.events, List.filterMap_append, hstarted, eventsOf, List.filterMap_cons, hdeltas]
  rfl

theorem FailoverShape.delivered (h : FailoverShape context runs out silent a rest) :
    out.2.events.filterMap StreamEvent.delivered? = (runs a).deltas.map (Prod.mk a) := by
  have hstarted : (silent.map StreamEvent.started).filterMap StreamEvent.delivered? = [] := by
    rw [List.filterMap_map]
    exact List.filterMap_eq_nil_iff.mpr fun _ _ => rfl
  rw [h.events, List.filterMap_append, hstarted, List.nil_append, eventsOf, List.filterMap_cons]
  show ((runs a).deltas.map (StreamEvent.delta a)).filterMap StreamEvent.delivered? = _
  rw [List.filterMap_map]
  exact congrFun (List.filterMap_eq_map (f := Prod.mk a)) _

theorem FailoverShape.of_delta (h : FailoverShape context runs out silent a rest) {b : Attempt}
    {d : StreamDelta} (hd : .delta b d ∈ out.2.events) : b = a := by
  have hmem : (b, d) ∈ out.2.events.filterMap StreamEvent.delivered? :=
    List.mem_filterMap.mpr ⟨_, hd, rfl⟩
  rw [h.delivered] at hmem
  obtain ⟨d', -, hd'⟩ := List.mem_map.mp hmem
  exact (congrArg Prod.fst hd').symm

theorem FailoverShape.of_started (h : FailoverShape context runs out silent a rest) {b : Attempt}
    (hb : .started b ∈ out.2.events) : b ∈ silent ∨ b = a := by
  have hmem : b ∈ out.2.events.filterMap StreamEvent.attempt? :=
    List.mem_filterMap.mpr ⟨_, hb, rfl⟩
  rw [h.starts] at hmem
  exact (List.mem_append.mp hmem).imp_right List.mem_singleton.mp

/-- no delta comes before the start of an attempt -/
theorem FailoverShape.commits (h : FailoverShape context runs out silent a rest)
    {pre post : List StreamEvent} {b : Attempt} (hsplit : out.2.events = pre ++ .started b :: post) :
    pre.filterMap StreamEvent.delivered? = [] := by
  have hstarts : ∀ e ∈ silent.map StreamEvent.started, e.delivered? = none := by
    intro e he
    obtain ⟨c, -, rfl⟩ := List.mem_map.mp he
    rfl
  rw [List.filterMap_eq_nil_iff]
  rw [h.events] at hsplit
  rcases Runs.split_append hsplit with ⟨later, hlater⟩ | ⟨here, rfl, hhere⟩
  · intro e he
    refine hstarts e ?_
    rw [hlater]
    exact List.mem_append_left _ he
  · -- the start is the one of `a`, as a delta of `a` is none
    cases here with
    | nil =>
      rw [List.append_nil]
      exact hstarts
    | cons e here =>
      rw [eventsOf, List.cons_append, List.cons.injEq] at hhere
      have hmem : .started b ∈ (runs a).deltas.map (StreamEvent.delta a) := by
        rw [hhere.2]
        exact List.mem_append_right _ List.mem_cons_self
      obtain ⟨d, -, hd⟩ := List.mem_map.mp hmem
      cases hd

theorem streamSpec_execute (context : FailoverContext) (runs : Attempt → CallRun ρ ε) :
    StreamSpec context runs (executeWithFailoverStream context runs) := by
  obtain ⟨silent, a, rest, h⟩ := failover_shape context runs
  refine ⟨?_, ⟨a, h.delivered⟩, ?_, ?_, ?_, ?_⟩
  · rw [h.starts, h.split]
    exact ⟨rest, List.append_cons silent a rest |>.symm⟩
  · exact fun pre b post hsplit => h.commits hsplit
  · intro value hvalue
    refine ⟨a, by rw [h.starts, List.getLast?_concat], ?_, fun b d => h.of_delta⟩
    rw [h.outcome, endOf] at hvalue
    split at hvalue
    next v hresult =>
      cases hvalue
      exact hresult
    next =>
      split at hvalue <;> cases hvalue
  · constructor
    · rintro ⟨modelId, cause, hout⟩
      have hstarted : .started a ∈ (executeWithFailoverStream context runs).2.events := by
        rw [h.events, eventsOf]
        exact List.mem_append_right _ List.mem_cons_self
      rw [h.outcome, endOf] at hout
      split at hout
      next => cases hout
      next error hresult =>
        split at hout
        next =>
          injection hout with herror
          exact absurd herror.symm (errors_differ _ _ _ _)
        next hdeltas => exact ⟨a, error, hstarted, hdeltas, hresult⟩
    · rintro ⟨b, error, hstarted, hdeltas, hresult⟩
      rcases h.of_started hstarted with hb | rfl
      · exact absurd (h.quiet b hb).1 hdeltas
      · exact ⟨_, error, by rw [h.outcome, endOf_error hresult, if_neg hdeltas]⟩
  · constructor
    · rintro ⟨cause, hout⟩
      have hlast : FailsSilently (runs a) := by
        rw [h.outcome, endOf] at hout
        split at hout
        next => cases hout
        next error hresult =>
          split at hout
          next hdeltas => exact ⟨hdeltas, error, hresult⟩
          next =>
            injection hout with herror
            exact absurd herror (errors_differ _ _ _ _)
      have hrest : rest = [] := h.last.resolve_right (not_not_intro hlast)
      intro b
      have hb : b ∈ silent ++ a :: rest := by
        rw [← h.split]
        cases b <;> decide
      rw [hrest] at hb
      rcases List.mem_append.mp hb with hb | hb
      · exact h.quiet b hb
      · rw [List.mem_singleton.mp hb]
        exact hlast
    · intro hall
      obtain ⟨hdeltas, error, hresult⟩ := hall a
      exact ⟨error, by rw [h.outcome, endOf_error hresult, if_pos hdeltas]⟩

end

end ModelProvider
