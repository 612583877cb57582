import JinCore.Push.Dispatch

/-!
# The tokens that are kept (`push.store.ts`)

* `step_store`         a step changes the tables by one statement at most;
* `lastInput`, `devices_replay`   the devices, as their registrations and their removals leave them;
* `EventOk`, `CallAt`  why a token is removed, and what a registration has done before it stores its own;
* `device_lost`        a device is forgotten because its app said so, or because Apple did;
* `StartFrom`, `start_tokens_overlap`   two start tokens of one environment are from two registrations of
  which each had deleted the others before one of them inserted its own.
-/

namespace Push
open JsString Common Runs

/-! ## one step -/

/-- what a loop tells, a delete apart -/
def Event.ofLoop : Event → Bool
  | .listed _ _ | .sent _ _ | .answered _ _ _ => true
  | _ => false

/-- what is told by a step, before and after what a statement tells -/
structure Told (events told events' : List Event) : Prop where
  split : ∃ new, events' = new ++ (told ++ events) ∧ ∀ e ∈ new, e.ofLoop = true

section
variable {s t : PushService} {c : CallId}

theorem told_go (s : PushService) (c : CallId) (loop : Sending) :
    (s.go c loop).store = s.store ∧ Told s.events [] (s.go c loop).events := by
  unfold PushService.go
  cases loop.rest with
  | nil => exact ⟨rfl, ⟨[], rfl, fun _ h => absurd h List.not_mem_nil⟩⟩
  | cons target rest =>
    refine ⟨rfl, ⟨[.sent c target], rfl, fun e he => ?_⟩⟩
    rw [List.mem_singleton.mp he]
    rfl

theorem told_tell {e : Event} (he : e.ofLoop = true) {events : List Event} (h : Told (e :: s.events) [] events) :
    Told s.events [] events := by
  obtain ⟨new, hnew, hloop⟩ := h.split
  refine ⟨new ++ [e], ?_, fun e' he' => ?_⟩
  · rw [hnew, List.append_assoc]
    rfl
  · rcases List.mem_append.mp he' with he' | he'
    · exact hloop e' he'
    · rw [List.mem_singleton.mp he']
      exact he

theorem told_self (events : List Event) : Told events [] events :=
  ⟨[], rfl, fun _ h => absurd h List.not_mem_nil⟩

theorem told_loop (s : PushService) (c : CallId) (audience : Audience) (notification : ApnsNotification)
    (targets : List Target) : (s.loop c audience notification targets).store = s.store ∧
      Told s.events [] (s.loop c audience notification targets).events := by
  obtain ⟨hstore, htold⟩ := told_go (s.tell (.listed c targets)) c ⟨audience, notification, targets, 0, 0⟩
  exact ⟨hstore, told_tell rfl htold⟩

theorem told_onAnswer (s : PushService) (c : CallId) (loop : Sending) (target : Target) (result : ApnsSendResult) :
    (s.onAnswer c loop target result).store = s.store ∧
      Told s.events [] (s.onAnswer c loop target result).events := by
  unfold PushService.onAnswer
  split
  · obtain ⟨hstore, htold⟩ := told_go (s.tell (.answered c target .ok)) c { loop with sent := loop.sent + 1 }
    exact ⟨hstore, told_tell rfl htold⟩
  · exact ⟨rfl, told_tell rfl (told_self _)⟩
  · obtain ⟨hstore, htold⟩ := told_go (s.tell (.answered c target _)) c { loop with failed := loop.failed + 1 }
    exact ⟨hstore, told_tell rfl htold⟩

/-- how a call goes on after its statement -/
theorem told_next {now : Int} {phase : Phase} {w : Writing} (h : s.writing c now phase = some w) (t : PushService) :
    (w.next t).store = t.store ∧ Told t.events [] (w.next t).events := by
  cases phase <;> cases h
  case deleting loop target => exact told_go t c loop
  all_goals exact ⟨rfl, told_self _⟩

/-- a step leaves the tables as they are, or it is a statement -/
theorem step_store {action : Action} (h : s.step action = some t) :
    (t.store = s.store ∧ Told s.events [] t.events) ∨
    ∃ now w, s.writing action.call now (s.calls action.call) = some w ∧ t.store = w.store ∧
      Told s.events w.event.toList t.events := by
  cases action with
  | start c entry =>
    cases hphase : s.calls c with
    | idle =>
      simp only [PushService.step, hphase, Option.some.injEq] at h
      rw [← h]
      exact Or.inl ⟨rfl, told_self _⟩
    | _ => simp only [PushService.step, hphase, reduceCtorEq] at h
  | listDevices c rows =>
    cases hphase : s.calls c with
    | listing kind notification =>
      simp only [PushService.step, hphase] at h
      obtain ⟨-, h⟩ := Option.ite_none_right_eq_some.mp h
      cases h
      exact Or.inl (told_loop s c _ _ _)
    | _ => simp only [PushService.step, hphase, reduceCtorEq] at h
  | selectTokens c rows =>
    obtain ⟨-, ⟨next, rfl, -⟩ | ⟨notification, -, -, rfl⟩⟩ := onSelect_cases h
    · exact Or.inl ⟨rfl, told_self _⟩
    · exact Or.inl (told_loop s c _ _ _)
  | selectThrew c =>
    cases hphase : s.calls c with
    | listing | selecting | starting =>
      simp only [PushService.step, hphase, Option.some.injEq] at h
      rw [← h]
      exact Or.inl ⟨rfl, told_self _⟩
    | _ => simp only [PushService.step, hphase, reduceCtorEq] at h
  | answer c reply =>
    cases hphase : s.calls c with
    | awaiting loop target =>
      simp only [PushService.step, hphase, Option.some.injEq] at h
      rw [← h]
      exact Or.inl (told_onAnswer s c loop target _)
    | _ => simp only [PushService.step, hphase, reduceCtorEq] at h
  | statement c now fate =>
    obtain ⟨w, hw, rfl⟩ := Option.map_eq_some_iff.mp h
    by_cases happlies : fate.applies = true
    · right
      have hevents : (s.applied w fate).events = w.event.toList ++ s.events := by
        unfold PushService.applied
        rw [if_pos happlies]
      have hstore : (s.applied w fate).store = w.store := by
        unfold PushService.applied
        rw [if_pos happlies]
      refine ⟨now, w, hw, ?_⟩
      unfold PushService.write
      split
      · obtain ⟨hnext, new, hnew, hloop⟩ := told_next hw (s.applied w fate)
        refine ⟨hnext.trans hstore, new, ?_, hloop⟩
        rw [hnew, hevents, List.nil_append]
      · exact ⟨hstore, [], hevents, fun _ h => absurd h List.not_mem_nil⟩
    · left
      have hfate : fate ≠ .ok := by
        intro hok
        rw [hok] at happlies
        exact happlies rfl
      unfold PushService.write PushService.applied
      rw [if_neg hfate, if_neg happlies]
      exact ⟨rfl, told_self _⟩

end

/-! ## the devices -/

def PushDeviceRow.input (row : PushDeviceRow) : DeviceInput := ⟨row.token, row.environment, row.preferences⟩

/-- what an event leaves of the device of a token -/
def Event.leaves (token : JsString) : Event → Option (Option DeviceInput)
  | .registered input => if input.token = token then some (some input) else none
  | .unregistered gone | .removed _ .devices gone => if gone = token then some none else none
  | _ => none

/-- the last registration of a token that is not taken back -/
def lastInput (token : JsString) (events : List Event) : Option DeviceInput :=
  (events.findSome? (Event.leaves token)).join

section
variable {s t : PushService}

theorem findSome_none {token : JsString} {new events : List Event} (h : ∀ e ∈ new, e.leaves token = none) :
    (new ++ events).findSome? (Event.leaves token) = events.findSome? (Event.leaves token) := by
  rw [List.findSome?_append, List.findSome?_eq_none_iff.mpr h, Option.none_or]

theorem leaves_ofLoop {e : Event} (h : e.ofLoop = true) (token : JsString) : e.leaves token = none := by
  cases e with
  | listed | sent | answered => rfl
  | _ => cases h

/-- the devices are what the events leave of them -/
def Replayed (s : PushService) : Prop :=
  ∀ token, (s.store.devices.get token).map PushDeviceRow.input = lastInput token s.events

theorem replayed_told {told : List Event} (h : Told s.events told t.events)
    (htold : ∀ token, (t.store.devices.get token).map PushDeviceRow.input =
      ((told ++ s.events).findSome? (Event.leaves token)).join) : Replayed t := by
  intro token
  obtain ⟨new, hnew, hloop⟩ := h.split
  unfold lastInput
  rw [htold, hnew, findSome_none fun e he => leaves_ofLoop (hloop e he) token]

theorem input_upsert (s : PushStore) (input : DeviceInput) (now : Int) (token : JsString) :
    ((s.upsertDevice input now).devices.get token).map PushDeviceRow.input =
      if input.token = token then some input else (s.devices.get token).map PushDeviceRow.input := by
  unfold PushStore.upsertDevice
  rw [Table.get_set]
  cases s.devices.get input.token <;> dsimp only <;> split
  next h => rw [if_pos h.symm]; rfl
  next h => rw [if_neg (Ne.symm h)]
  next h => rw [if_pos h.symm]; rfl
  next h => rw [if_neg (Ne.symm h)]

theorem input_delete (s : PushStore) (gone token : JsString) :
    ((s.deleteDevice gone).devices.get token).map PushDeviceRow.input =
      if gone = token then none else (s.devices.get token).map PushDeviceRow.input := by
  unfold PushStore.deleteDevice
  rw [Table.get_erase]
  split
  next h => rw [if_pos h.symm]; rfl
  next h => rw [if_neg (Ne.symm h)]

/-- one event and the devices before it -/
theorem join_leaves {e : Event} {gone token : JsString} {left : Option DeviceInput} (events : List Event)
    (h : e.leaves token = if gone = token then some left else none) :
    ((e :: events).findSome? (Event.leaves token)).join = if gone = token then left else lastInput token events := by
  rw [List.findSome?_cons, h]
  by_cases hgone : gone = token
  · rw [if_pos hgone, if_pos hgone]
    rfl
  · rw [if_neg hgone, if_neg hgone]
    rfl

theorem replayed_step {action : Action} (h : Replayed s) (hstep : s.step action = some t) : Replayed t := by
  rcases step_store hstep with ⟨hstore, htold⟩ | ⟨now, w, hw, hstore, htold⟩
  · apply replayed_told htold
    rw [hstore]
    exact h
  · apply replayed_told htold
    rw [hstore]
    intro token
    cases hphase : s.calls action.call with
    | deleting loop target =>
      rw [hphase] at hw
      cases hw
      cases haudience : loop.audience with
      | devices =>
        refine (input_delete s.store target.token token).trans ?_
        rw [h token]
        exact (join_leaves s.events rfl).symm
      | activities => exact h token
    | registering input =>
      rw [hphase] at hw
      cases hw
      refine (input_upsert s.store input now token).trans ?_
      rw [h token]
      exact (join_leaves s.events rfl).symm
    | unregistering gone =>
      rw [hphase] at hw
      cases hw
      refine (input_delete s.store gone token).trans ?_
      rw [h token]
      exact (join_leaves s.events rfl).symm
    | pruning | replacing | inserting =>
      rw [hphase] at hw
      cases hw
      exact h token
    | _ =>
      rw [hphase] at hw
      cases hw

theorem devices_replay (actions : List Action) (hrun : run PushService.step .initial actions = some s)
    (token : JsString) : (s.store.devices.get token).map PushDeviceRow.input = lastInput token s.events :=
  run_inv (fun _ _ _ h hstep => replayed_step h hstep) actions _ s (fun _ => rfl) hrun token

end

def oneRegistered : List Action := [.start 0 (.upsertDevice ⟨lit "aa", .sandbox, []⟩), .statement 0 0 .ok]

/-- a test of push goes to the device, which Apple does not know any more -/
def deviceGone : List Action :=
  [.start 1 (.broadcast none testPayload), .listDevices 1 [⟨lit "aa", .sandbox, [], 0, 0⟩],
    .answer 1 (.answered 410 (lit "")), .statement 1 1 .ok]

theorem devices_replay_oneRegistered : ∃ s, run PushService.step .initial oneRegistered = some s ∧
    (s.store.devices.get (lit "aa")).map PushDeviceRow.input = lastInput (lit "aa") s.events ∧
    lastInput (lit "aa") s.events = some ⟨lit "aa", .sandbox, []⟩ :=
  ⟨_, rfl, devices_replay oneRegistered rfl (lit "aa"), rfl⟩

/-! ## why a token is removed, and when a start token is stored -/

/-- Apple has called a token invalid in a call -/
def Gone (events : List Event) (c : CallId) (target : Target) : Prop :=
  ∃ status reason, .answered c target (.rejected status reason true) ∈ events ∧
    (status = 410 ∨ reason ∈ invalidTokenReasons)

/-- what comes before an event -/
def EventOk : Event → List Event → Prop
  | .removed c _ token, before => ∃ target, target.token = token ∧ Gone before c target
  | .stored c input, before =>
    (∀ input', .stored c input' ∉ before) ∧ (input.purpose = .start → .cleared c input.environment ∈ before)
  | _, _ => True

/-- what comes before a phase -/
def CallAt (events : List Event) (c : CallId) : Phase → Prop
  | .returned _ _ | .threw => True
  | .deleting _ target => (∀ input, .stored c input ∉ events) ∧ Gone events c target
  | .replacing input => (∀ input', .stored c input' ∉ events) ∧ input.purpose = .start
  | .inserting input =>
    (∀ input', .stored c input' ∉ events) ∧ (input.purpose = .start → .cleared c input.environment ∈ events)
  | _ => ∀ input, .stored c input ∉ events

theorem rejected_invalid {reply : Reply} {status : Nat} {reason : JsString}
    (h : sendResult reply = .rejected status reason true) : status = 410 ∨ reason ∈ invalidTokenReasons := by
  cases reply with
  | answered status' body =>
    by_cases hok : status' = 200
    · rw [sendResult, if_pos hok] at h
      cases h
    · rw [sendResult, if_neg hok, ApnsSendResult.rejected.injEq] at h
      obtain ⟨rfl, rfl, h⟩ := h
      simpa using h
  | threw message =>
    rw [sendResult, ApnsSendResult.rejected.injEq] at h
    cases h.2.2

section
variable {s t : PushService} {c : CallId} {events told events' : List Event} {phase : Phase}

theorem Told.mem_iff (h : Told events told events') {e : Event} (he : e.ofLoop = false) :
    e ∈ events' ↔ e ∈ told ∨ e ∈ events := by
  obtain ⟨new, hnew, hloop⟩ := h.split
  rw [hnew, List.mem_append, List.mem_append]
  constructor
  · rintro (hmem | hmem)
    · rw [hloop e hmem] at he
      cases he
    · exact hmem
  · exact Or.inr

theorem Told.subset (h : Told events told events') : told ++ events ⊆ events' := by
  obtain ⟨new, hnew, -⟩ := h.split
  rw [hnew]
  exact List.subset_append_right _ _

theorem Told.each (h : Told events told events') (htold : Each EventOk (told ++ events)) : Each EventOk events' := by
  obtain ⟨new, hnew, hloop⟩ := h.split
  rw [hnew]
  clear hnew
  induction new with
  | nil => exact htold
  | cons e new ih =>
    refine ⟨?_, ih fun e' he' => hloop e' (List.mem_cons_of_mem _ he')⟩
    have he := hloop e List.mem_cons_self
    cases e with
    | listed | sent | answered => exact trivial
    | _ => cases he

theorem Gone.mono {target : Target} (h : Gone events c target) (hsub : events ⊆ events') : Gone events' c target := by
  obtain ⟨status, reason, hmem, hinvalid⟩ := h
  exact ⟨status, reason, hsub hmem, hinvalid⟩

/-- an event that is no registration of the call -/
theorem CallAt.mono (h : CallAt events c phase) (hsub : events ⊆ events')
    (hstored : ∀ input, .stored c input ∈ events' → .stored c input ∈ events) : CallAt events' c phase := by
  have hnone (hnot : ∀ input, Event.stored c input ∉ events) : ∀ input, Event.stored c input ∉ events' :=
    fun input hmem => hnot input (hstored input hmem)
  cases phase with
  | returned | threw => exact trivial
  | deleting loop target => exact ⟨hnone h.1, h.2.mono hsub⟩
  | replacing input => exact ⟨hnone h.1, h.2⟩
  | inserting input => exact ⟨hnone h.1, fun hstart => hsub (h.2 hstart)⟩
  | _ => exact hnone h

/-- a call that is before its last statement has stored nothing -/
theorem CallAt.unstored (h : CallAt events c phase) (hnext : ∀ m n, phase ≠ .returned m n) (hthrew : phase ≠ .threw) :
    ∀ input, .stored c input ∉ events := by
  cases phase with
  | returned m n => exact absurd rfl (hnext m n)
  | threw => exact absurd rfl hthrew
  | deleting | replacing | inserting => exact h.1
  | _ => exact h

theorem callAt_go {loop : Sending} (h : ∀ input, .stored c input ∉ s.events) :
    CallAt (s.go c loop).events c ((s.go c loop).calls c) := by
  unfold PushService.go
  cases loop.rest with
  | nil =>
    rw [calls_set]
    exact trivial
  | cons target rest =>
    rw [calls_set]
    intro input hmem
    rcases List.mem_cons.mp hmem with heq | hmem
    · cases heq
    · exact h input hmem

theorem callAt_loop (h : ∀ input, .stored c input ∉ s.events) (audience : Audience) (notification : ApnsNotification)
    (targets : List Target) :
    CallAt (s.loop c audience notification targets).events c
      ((s.loop c audience notification targets).calls c) := by
  refine callAt_go (s := s.tell (.listed c targets)) fun input hmem => ?_
  rcases List.mem_cons.mp hmem with heq | hmem
  · cases heq
  · exact h input hmem

theorem callAt_onAnswer {loop : Sending} {target : Target} (h : ∀ input, .stored c input ∉ s.events) (reply : Reply) :
    CallAt (s.onAnswer c loop target (sendResult reply)).events c
      ((s.onAnswer c loop target (sendResult reply)).calls c) := by
  have htell (result : ApnsSendResult) :
      ∀ input, .stored c input ∉ (s.tell (.answered c target result)).events := by
    intro input hmem
    rcases List.mem_cons.mp hmem with heq | hmem
    · cases heq
    · exact h input hmem
  cases hresult : sendResult reply with
  | ok => exact callAt_go (htell _)
  | rejected status reason invalidToken =>
    cases invalidToken with
    | true =>
      unfold PushService.onAnswer
      dsimp only
      rw [calls_set]
      exact ⟨htell _, status, reason, List.mem_cons_self, rejected_invalid hresult⟩
    | false => exact callAt_go (htell _)

theorem unstored_cons {e : Event} (h : ∀ input, .stored c input ∉ events) (he : ∀ input, e ≠ .stored c input) :
    ∀ input, .stored c input ∉ e :: events := by
  intro input hmem
  rcases List.mem_cons.mp hmem with heq | hmem
  · exact he input heq.symm
  · exact h input hmem

theorem callAt_statement {w : Writing} {now : Int} (h : CallAt s.events c (s.calls c))
    (hw : s.writing c now (s.calls c) = some w) (fate : Fate) :
    CallAt (s.write c w fate).events c ((s.write c w fate).calls c) := by
  unfold PushService.write
  split
  next hfate =>
    rw [hfate]
    cases hphase : s.calls c with
    | deleting loop target =>
      rw [hphase] at h hw
      cases hw
      exact callAt_go (s := s.applied _ .ok) (unstored_cons h.1 fun _ heq => by cases heq)
    | pruning referenceId start notification =>
      rw [hphase] at h hw
      cases hw
      dsimp only
      rw [calls_set]
      exact h
    | replacing input =>
      rw [hphase] at h hw
      cases hw
      dsimp only
      rw [calls_set]
      exact ⟨unstored_cons h.1 fun _ heq => (by cases heq), fun _ => List.mem_cons_self⟩
    | registering | unregistering | inserting =>
      rw [hphase] at hw
      cases hw
      dsimp only
      rw [calls_set]
      exact trivial
    | _ =>
      rw [hphase] at hw
      cases hw
  next =>
    rw [calls_set]
    exact trivial

theorem callAt_phase (h : ∀ input, .stored c input ∉ events) (entry : Entry) : CallAt events c entry.phase := by
  cases entry with
  | upsertActivityToken input =>
    show CallAt events c (if input.purpose = .start then _ else _)
    split
    next hstart => exact ⟨h, hstart⟩
    next hstart => exact ⟨h, fun hpurpose => absurd hpurpose hstart⟩
  | _ => exact h

/-- the call of a step -/
theorem callAt_self {action : Action} (h : CallAt s.events action.call (s.calls action.call))
    (hstep : s.step action = some t) : CallAt t.events action.call (t.calls action.call) := by
  cases action with
  | start c entry =>
    simp only [Action.call] at h ⊢
    cases hphase : s.calls c with
    | idle =>
      simp only [PushService.step, hphase, Option.some.injEq] at hstep
      rw [hphase] at h
      rw [← hstep, calls_set]
      exact callAt_phase h entry
    | _ => simp only [PushService.step, hphase, reduceCtorEq] at hstep
  | listDevices c rows =>
    simp only [Action.call] at h ⊢
    cases hphase : s.calls c with
    | listing kind notification =>
      simp only [PushService.step, hphase] at hstep
      obtain ⟨-, hstep⟩ := Option.ite_none_right_eq_some.mp hstep
      cases hstep
      rw [hphase] at h
      exact callAt_loop h _ _ _
    | _ => simp only [PushService.step, hphase, reduceCtorEq] at hstep
  | selectTokens c rows =>
    simp only [Action.call] at h ⊢
    obtain ⟨hphase, hnext⟩ := onSelect_cases hstep
    have hunstored : ∀ input, .stored c input ∉ s.events := by
      rcases hphase with ⟨_, _, _, hphase⟩ | ⟨_, hphase⟩ <;> rw [hphase] at h <;> exact h
    rcases hnext with ⟨next, rfl, rfl | ⟨notification, rfl⟩⟩ | ⟨notification, -, -, rfl⟩
    · rw [calls_set]
      exact trivial
    · rw [calls_set]
      exact hunstored
    · exact callAt_loop hunstored _ _ _
  | selectThrew c =>
    simp only [Action.call] at h ⊢
    cases hphase : s.calls c with
    | listing | selecting | starting =>
      simp only [PushService.step, hphase, Option.some.injEq] at hstep
      rw [← hstep, calls_set]
      exact trivial
    | _ => simp only [PushService.step, hphase, reduceCtorEq] at hstep
  | answer c reply =>
    simp only [Action.call] at h ⊢
    cases hphase : s.calls c with
    | awaiting loop target =>
      simp only [PushService.step, hphase, Option.some.injEq] at hstep
      rw [hphase] at h
      rw [← hstep]
      exact callAt_onAnswer h _
    | _ => simp only [PushService.step, hphase, reduceCtorEq] at hstep
  | statement c now fate =>
    simp only [Action.call] at h ⊢
    obtain ⟨w, hw, rfl⟩ := Option.map_eq_some_iff.mp hstep
    exact callAt_statement h hw fate

end

/-! ### every run -/

structure Ordered (s : PushService) : Prop where
  events : Each EventOk s.events
  calls : ∀ c, CallAt s.events c (s.calls c)

section
variable {s t : PushService} {c : CallId}

/-- what a statement tells comes after what it needs -/
theorem told_ok {now : Int} {w : Writing} (h : Ordered s) (hw : s.writing c now (s.calls c) = some w) :
    Each EventOk (w.event.toList ++ s.events) ∧ ∀ k input, .stored k input ∈ w.event.toList → k = c := by
  have hcall := h.calls c
  cases hphase : s.calls c with
  | deleting loop target =>
    rw [hphase] at hcall hw
    cases hw
    refine ⟨⟨⟨target, rfl, hcall.2⟩, h.events⟩, fun k input hmem => ?_⟩
    cases List.mem_singleton.mp hmem
  | inserting input =>
    rw [hphase] at hcall hw
    cases hw
    refine ⟨⟨hcall, h.events⟩, fun k input hmem => ?_⟩
    cases List.mem_singleton.mp hmem
    rfl
  | pruning =>
    rw [hphase] at hw
    cases hw
    exact ⟨h.events, fun _ _ hmem => absurd hmem List.not_mem_nil⟩
  | registering | unregistering | replacing =>
    rw [hphase] at hw
    cases hw
    refine ⟨⟨trivial, h.events⟩, fun k input hmem => ?_⟩
    cases List.mem_singleton.mp hmem
  | _ =>
    rw [hphase] at hw
    cases hw

theorem ordered_step {action : Action} (h : Ordered s) (hstep : s.step action = some t) : Ordered t := by
  obtain ⟨told, htold, hok, hstored⟩ : ∃ told, Told s.events told t.events ∧ Each EventOk (told ++ s.events) ∧
      ∀ k input, .stored k input ∈ told → k = action.call := by
    rcases step_store hstep with ⟨-, htold⟩ | ⟨now, w, hw, -, htold⟩
    · exact ⟨[], htold, h.events, fun _ _ hmem => absurd hmem List.not_mem_nil⟩
    · exact ⟨_, htold, told_ok h hw⟩
  refine ⟨htold.each hok, fun k => ?_⟩
  by_cases hk : k = action.call
  · rw [hk]
    exact callAt_self (h.calls action.call) hstep
  · rw [(local_step hstep).calls k hk]
    refine (h.calls k).mono (List.Subset.trans (List.subset_append_right _ _) htold.subset) fun input hmem => ?_
    exact ((htold.mem_iff rfl).mp hmem).resolve_left fun hmem => hk (hstored k input hmem)

theorem ordered_run {actions : List Action} (hrun : run PushService.step .initial actions = some s) : Ordered s := by
  have hinitial : Ordered .initial := ⟨trivial, fun _ _ => List.not_mem_nil⟩
  exact run_inv (fun _ _ _ h hstep => ordered_step h hstep) actions _ s hinitial hrun

/-- a device that was there and is not any more: its app has taken it back, or Apple has called it invalid -/
theorem device_lost (before after : List Action) {s₀ : PushService} {token : JsString}
    (hbefore : run PushService.step .initial before = some s₀) (hafter : run PushService.step s₀ after = some s)
    (hthere : token ∈ s₀.store.devices.rows.map PushDeviceRow.token)
    (hgone : token ∉ s.store.devices.rows.map PushDeviceRow.token) :
    ∃ later e earlier, s.events = later ++ e :: earlier ∧ s₀.events <:+ earlier ∧
      (e = .unregistered token ∨
        ∃ c target, e = .removed c .devices token ∧ target.token = token ∧ Gone earlier c target) := by
  have hwhole : run PushService.step .initial (before ++ after) = some s :=
    run_append_some.mpr ⟨s₀, hbefore, hafter⟩
  have hgone' : lastInput token s.events = none := by
    rw [← devices_replay _ hwhole, Option.map_eq_none_iff, Table.get_eq_none_iff]
    exact fun row hrow hkey => hgone (List.mem_map.mpr ⟨row, hrow, hkey⟩)
  have hthere' : lastInput token s₀.events ≠ none := by
    rw [← devices_replay _ hbefore, ne_eq, Option.map_eq_none_iff, Table.get_eq_none_iff]
    obtain ⟨row, hrow, hkey⟩ := List.mem_map.mp hthere
    exact fun hnone => hnone row hrow hkey
  obtain ⟨new, hnew⟩ := logs_grow hafter
  unfold lastInput at hgone' hthere'
  rw [hnew, List.findSome?_append] at hgone'
  cases hleft : new.findSome? (Event.leaves token) with
  | none =>
    rw [hleft, Option.none_or] at hgone'
    exact absurd hgone' hthere'
  | some left =>
    rw [hleft, Option.some_or, Option.join_some] at hgone'
    rw [hgone'] at hleft
    obtain ⟨later, e, earlier, hsplit, he, -⟩ := List.findSome?_eq_some_iff.mp hleft
    have hevents : s.events = later ++ e :: (earlier ++ s₀.events) := by
      rw [hnew, hsplit, List.append_assoc]
      rfl
    refine ⟨later, e, earlier ++ s₀.events, hevents, List.suffix_append _ _, ?_⟩
    have hok : EventOk e (earlier ++ s₀.events) := each_iff.mp (ordered_run hwhole).events _ _ _ hevents
    cases e with
    | unregistered gone =>
      obtain ⟨rfl, -⟩ := Option.ite_none_right_eq_some.mp he
      exact Or.inl rfl
    | removed c audience gone =>
      cases audience with
      | devices =>
        obtain ⟨rfl, -⟩ := Option.ite_none_right_eq_some.mp he
        obtain ⟨target, htoken, hdead⟩ := hok
        exact Or.inr ⟨c, target, rfl, htoken, hdead⟩
      | activities => cases he
    | registered input =>
      obtain ⟨-, he⟩ := Option.ite_none_right_eq_some.mp he
      cases he
    | _ => cases he

end

theorem device_lost_deviceGone : ∃ s₀ s, run PushService.step .initial oneRegistered = some s₀ ∧
    run PushService.step s₀ deviceGone = some s ∧
    ∃ later e earlier, s.events = later ++ e :: earlier ∧ s₀.events <:+ earlier ∧
      (e = .unregistered (lit "aa") ∨
        ∃ c target, e = .removed c .devices (lit "aa") ∧ target.token = lit "aa" ∧ Gone earlier c target) :=
  ⟨_, _, rfl, rfl, device_lost oneRegistered deviceGone rfl rfl List.mem_cons_self List.not_mem_nil⟩

/-! ## the start tokens -/

/-- a start token is stored by a registration, and no start token of its environment is deleted since -/
def StartFrom (events : List Event) (row : PushActivityTokenRow) : Prop :=
  ∃ later c input earlier, events = later ++ .stored c input :: earlier ∧ input.token = row.token ∧
    input.environment = row.environment ∧ input.purpose = .start ∧ ∀ k, .cleared k row.environment ∉ later

def StartsFrom (s : PushService) : Prop :=
  ∀ row ∈ s.store.activityTokens.rows, row.purpose = .start → StartFrom s.events row

section
variable {s t : PushService} {events events' told : List Event} {row row' : PushActivityTokenRow}

theorem StartFrom.later (h : StartFrom events row) (hnot : ∀ k, .cleared k row.environment ∉ told) :
    StartFrom (told ++ events) row := by
  obtain ⟨later, c, input, earlier, rfl, htoken, henvironment, hpurpose, hlater⟩ := h
  refine ⟨told ++ later, c, input, earlier, (List.append_assoc _ _ _).symm, htoken, henvironment, hpurpose, ?_⟩
  intro k hmem
  exact (List.mem_append.mp hmem).elim (hnot k) (hlater k)

theorem StartFrom.of_told (h : StartFrom (told ++ events) row) (htold : Told events told events') :
    StartFrom events' row := by
  obtain ⟨new, hnew, hloop⟩ := htold.split
  rw [hnew]
  refine h.later fun k hmem => ?_
  cases hloop _ hmem

/-- only its token and its environment count -/
theorem StartFrom.same (h : StartFrom events row) (htoken : row'.token = row.token)
    (henvironment : row'.environment = row.environment) : StartFrom events row' := by
  unfold StartFrom
  rw [htoken, henvironment]
  exact h

/-- a row that was there, or that is inserted anew -/
theorem startFrom_insert {c : CallId} {input : ActivityTokenInput} {now : Int} (h : StartsFrom s)
    (hrow : row ∈ (s.store.insertActivityToken input now).activityTokens.rows) (hstart : row.purpose = .start) :
    StartFrom (.stored c input :: s.events) row := by
  have hlater {row : PushActivityTokenRow} (hfrom : StartFrom s.events row) :
      StartFrom (.stored c input :: s.events) row :=
    @StartFrom.later s.events [.stored c input] row hfrom fun k hmem => by cases List.mem_singleton.mp hmem
  unfold PushStore.insertActivityToken at hrow
  rcases Table.mem_set hrow with hset | ⟨hold, -⟩
  · cases hget : s.store.activityTokens.get input.token with
    | none =>
      rw [hget] at hset
      rw [hset] at hstart ⊢
      exact ⟨[], c, input, s.events, rfl, rfl, rfl, hstart, fun _ => List.not_mem_nil⟩
    | some old =>
      rw [hget] at hset
      obtain ⟨hold, hkey⟩ := Table.get_eq_some_iff.mp hget
      rw [hset] at hstart ⊢
      exact (hlater (h old hold hstart)).same hkey.symm rfl
  · exact hlater (h row hold hstart)

theorem startsFrom_step {action : Action} (h : StartsFrom s) (hstep : s.step action = some t) : StartsFrom t := by
  rcases step_store hstep with ⟨hstore, htold⟩ | ⟨now, w, hw, hstore, htold⟩
  · intro row hrow hstart
    rw [hstore] at hrow
    exact @StartFrom.of_told s.events t.events [] row (h row hrow hstart) htold
  · intro row hrow hstart
    rw [hstore] at hrow
    refine StartFrom.of_told ?_ htold
    -- a row that was there before a statement that deletes no start tokens
    have hkept {e : Event} (hold : row ∈ s.store.activityTokens.rows) (he : ∀ k environment, e ≠ .cleared k environment) :
        StartFrom ([e] ++ s.events) row :=
      (h row hold hstart).later fun k hmem => he k _ (List.mem_singleton.mp hmem).symm
    cases hphase : s.calls action.call with
    | deleting loop target =>
      rw [hphase] at hw
      cases hw
      refine hkept ?_ fun _ _ heq => by cases heq
      cases haudience : loop.audience with
      | devices =>
        rw [haudience] at hrow
        exact hrow
      | activities =>
        rw [haudience] at hrow
        exact (List.mem_filter.mp hrow).1
    | pruning =>
      rw [hphase] at hw
      cases hw
      exact h row (List.mem_filter.mp hrow).1 hstart
    | registering | unregistering =>
      rw [hphase] at hw
      cases hw
      exact hkept hrow fun _ _ heq => by cases heq
    | replacing input =>
      rw [hphase] at hw
      cases hw
      obtain ⟨hold, hother⟩ := List.mem_filter.mp hrow
      have hne : row.environment ≠ input.environment := by
        intro heq
        rw [PushStore.isStart, hstart, heq] at hother
        simp at hother
      refine (h row hold hstart).later fun k hmem => ?_
      have heq := List.mem_singleton.mp hmem
      rw [Event.cleared.injEq] at heq
      exact hne heq.2
    | inserting input =>
      rw [hphase] at hw
      cases hw
      exact startFrom_insert h hrow hstart
    | _ =>
      rw [hphase] at hw
      cases hw

/-- a registration stores one token, after it has deleted the start tokens of its environment -/
theorem stored_ok {c : CallId} {input : ActivityTokenInput} {later earlier : List Event} (h : Ordered s)
    (hevents : s.events = later ++ .stored c input :: earlier) (hstart : input.purpose = .start) :
    (∀ input', .stored c input' ∉ earlier) ∧ .cleared c input.environment ∈ earlier := by
  have hok : EventOk (.stored c input) earlier := each_iff.mp h.events _ _ _ hevents
  exact ⟨hok.1, hok.2 hstart⟩

/-- two registrations of start tokens of an environment: both have deleted the start tokens before one of them stores
its own -/
structure Overlap (events : List Event) (environment : ApnsEnvironment) (first second : JsString) : Prop where
  exists_calls : ∃ c₁ c₂ i₁ i₂ later between earlier, c₁ ≠ c₂ ∧
    events = later ++ .stored c₂ i₂ :: (between ++ .stored c₁ i₁ :: earlier) ∧
    (i₁.token = first ∧ i₁.purpose = .start ∧ i₁.environment = environment) ∧
    (i₂.token = second ∧ i₂.purpose = .start ∧ i₂.environment = environment) ∧
    .cleared c₁ environment ∈ earlier ∧ .cleared c₂ environment ∈ earlier

theorem overlap_of_order {c₁ c₂ : CallId} {i₁ i₂ : ActivityTokenInput} {later between earlier : List Event}
    {environment : ApnsEnvironment} (h : Ordered s)
    (hevents : s.events = later ++ .stored c₂ i₂ :: (between ++ .stored c₁ i₁ :: earlier))
    (h₁ : i₁.purpose = .start ∧ i₁.environment = environment) (h₂ : i₂.purpose = .start ∧ i₂.environment = environment)
    (hkept : ∀ k, .cleared k environment ∉ between) : Overlap s.events environment i₁.token i₂.token := by
  obtain ⟨honce, hcleared₂⟩ := stored_ok h hevents h₂.1
  have hevents₁ : s.events = (later ++ .stored c₂ i₂ :: between) ++ .stored c₁ i₁ :: earlier := by
    rw [hevents, List.append_assoc]
    rfl
  obtain ⟨-, hcleared₁⟩ := stored_ok h hevents₁ h₁.1
  rw [h₁.2] at hcleared₁
  rw [h₂.2] at hcleared₂
  refine ⟨c₁, c₂, i₁, i₂, later, between, earlier, ?_, hevents, ⟨rfl, h₁⟩, ⟨rfl, h₂⟩, hcleared₁, ?_⟩
  · rintro rfl
    exact honce i₁ (List.mem_append_right _ List.mem_cons_self)
  · rcases List.mem_append.mp hcleared₂ with hmem | hmem
    · exact absurd hmem (hkept c₂)
    · exact (List.mem_cons.mp hmem).resolve_left fun heq => by cases heq

theorem start_tokens_overlap (actions : List Action) (hrun : run PushService.step .initial actions = some s)
    (hrow : row ∈ s.store.startTokens) (hrow' : row' ∈ s.store.startTokens)
    (hsame : row.environment = row'.environment) (hne : row.token ≠ row'.token) :
    Overlap s.events row.environment row.token row'.token ∨ Overlap s.events row.environment row'.token row.token := by
  have hfrom : StartsFrom s := by
    have hinitial : StartsFrom .initial := fun _ hrow => absurd hrow List.not_mem_nil
    exact run_inv (fun _ _ _ h hstep => startsFrom_step h hstep) actions _ s hinitial hrun
  have hordered := ordered_run hrun
  obtain ⟨hmem, hstart⟩ := List.mem_filter.mp hrow
  obtain ⟨hmem', hstart'⟩ := List.mem_filter.mp hrow'
  obtain ⟨later, c, input, earlier, hevents, htoken, henvironment, hpurpose, hlater⟩ :=
    hfrom row hmem (of_decide_eq_true hstart)
  obtain ⟨later', c', input', earlier', hevents', htoken', henvironment', hpurpose', hlater'⟩ :=
    hfrom row' hmem' (of_decide_eq_true hstart')
  rw [← hsame] at henvironment' hlater'
  rcases split_append (hevents.symm.trans hevents') with ⟨between, rfl⟩ | ⟨between, rfl, hrest⟩
  · -- the other row is stored after it
    left
    rw [← htoken, ← htoken']
    have horder : s.events = later' ++ .stored c' input' :: (between ++ .stored c input :: earlier) := by
      rw [hevents, List.append_assoc]
      rfl
    refine overlap_of_order hordered horder ⟨hpurpose, henvironment⟩ ⟨hpurpose', henvironment'⟩ fun k hk => ?_
    exact hlater k (List.mem_append_right _ (List.mem_cons_of_mem _ hk))
  · right
    cases between with
    | nil =>
      rw [List.nil_append, List.cons.injEq, Event.stored.injEq] at hrest
      rw [← htoken, ← htoken', hrest.1.2] at hne
      exact absurd rfl hne
    | cons e between =>
      rw [List.cons_append, List.cons.injEq] at hrest
      rw [← htoken, ← htoken']
      have horder : s.events = later ++ .stored c input :: (between ++ .stored c' input' :: earlier') := by
        rw [hevents, hrest.2]
      refine overlap_of_order hordered horder ⟨hpurpose', henvironment'⟩ ⟨hpurpose, henvironment⟩ fun k hk => ?_
      exact hlater' k (List.mem_append_right _ (List.mem_cons_of_mem _ hk))

end

def startInput (token : JsString) : ActivityTokenInput := ⟨token, .sandbox, .start, none, none⟩

/-- two registrations, of which each deletes before the other one inserts -/
def twoStarts : List Action :=
  [.start 0 (.upsertActivityToken (startInput (lit "aa"))), .start 1 (.upsertActivityToken (startInput (lit "bb"))),
    .statement 0 0 .ok, .statement 1 0 .ok, .statement 0 1 .ok, .statement 1 1 .ok]

theorem start_tokens_overlap_twoStarts : ∃ s, run PushService.step .initial twoStarts = some s ∧
    s.store.startTokens.map PushActivityTokenRow.token = [lit "aa", lit "bb"] ∧
    (Overlap s.events .sandbox (lit "aa") (lit "bb") ∨ Overlap s.events .sandbox (lit "bb") (lit "aa")) :=
  ⟨_, rfl, rfl, @start_tokens_overlap _ ⟨lit "aa", .sandbox, .start, none, none, 1⟩
    ⟨lit "bb", .sandbox, .start, none, none, 1⟩ twoStarts rfl List.mem_cons_self
    (List.mem_cons_of_mem _ List.mem_cons_self) rfl (by decide)⟩

end Push
