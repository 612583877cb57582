import JinCore.Push.Service

/-!
# A notification goes once to every device that wants it

* `listedBy`, `sentBy`, `answeredBy`, `removedBy`   what a call has listed, sent, heard and deleted;
* `Local`              a step changes its own call and tells of no other; `local_step`;
* `Progress`           where a loop stands in its list;
* `CallOk`, `callOk_step`              what the events say of each call;
* `logs_grow`          what has been told is not taken back;
* `broadcast_each_once`.
-/

namespace Push
open JsString Common Runs

/-! ## what a call has done -/

section
variable (c : CallId)

def Event.listedBy : Event → Option (List Target)
  | .listed call targets => if call = c then some targets else none
  | _ => none

def Event.sentBy : Event → Option Target
  | .sent call target => if call = c then some target else none
  | _ => none

def Event.answeredBy : Event → Option (Target × ApnsSendResult)
  | .answered call target result => if call = c then some (target, result) else none
  | _ => none

def Event.removedBy : Event → Option JsString
  | .removed call _ token => if call = c then some token else none
  | _ => none

/-- what `f` reads from the events, the oldest first -/
def log {β : Type} (f : Event → Option β) (events : List Event) : List β := events.reverse.filterMap f

def listedBy (events : List Event) : List (List Target) := log (Event.listedBy c) events

def sentBy (events : List Event) : List Target := log (Event.sentBy c) events

def answeredBy (events : List Event) : List (Target × ApnsSendResult) := log (Event.answeredBy c) events

def removedBy (events : List Event) : List JsString := log (Event.removedBy c) events

/-- the tokens that Apple has called invalid -/
def rejectedBy (events : List Event) : List JsString :=
  ((answeredBy c events).filter fun a => a.2.invalid).map fun a => a.1.token

end

def ApnsSendResult.isOk (result : ApnsSendResult) : Bool := result = .ok

theorem log_cons {β : Type} (f : Event → Option β) (e : Event) (events : List Event) :
    log f (e :: events) = log f events ++ (f e).toList := by
  unfold log
  rw [List.reverse_cons, List.filterMap_append]
  rfl

theorem log_append {β : Type} (f : Event → Option β) (new events : List Event) :
    log f (new ++ events) = log f events ++ log f new := by
  unfold log
  rw [List.reverse_append, List.filterMap_append]

/-- the call whose loop it is -/
def Event.call : Event → Option CallId
  | .listed c _ | .sent c _ | .answered c _ _ | .removed c _ _ => some c
  | _ => none

/-- nothing of the call is told -/
theorem log_other {c : CallId} {new : List Event} (h : ∀ e ∈ new, e.call ≠ some c) :
    listedBy c new = [] ∧ sentBy c new = [] ∧ answeredBy c new = [] ∧ removedBy c new = [] := by
  have hnone : ∀ e ∈ new, e.listedBy c = none ∧ e.sentBy c = none ∧ e.answeredBy c = none ∧ e.removedBy c = none := by
    intro e he
    have hcall := h e he
    cases e with
    | listed call targets => exact ⟨if_neg fun heq => hcall (congrArg some heq), rfl, rfl, rfl⟩
    | sent call target => exact ⟨rfl, if_neg fun heq => hcall (congrArg some heq), rfl, rfl⟩
    | answered call target result => exact ⟨rfl, rfl, if_neg fun heq => hcall (congrArg some heq), rfl⟩
    | removed call audience token => exact ⟨rfl, rfl, rfl, if_neg fun heq => hcall (congrArg some heq)⟩
    | _ => exact ⟨rfl, rfl, rfl, rfl⟩
  unfold listedBy sentBy answeredBy removedBy log
  simp only [List.filterMap_eq_nil_iff, List.mem_reverse]
  exact ⟨fun e he => (hnone e he).1, fun e he => (hnone e he).2.1, fun e he => (hnone e he).2.2.1,
    fun e he => (hnone e he).2.2.2⟩

/-! ## one call at a time -/

/-- only the call `c` goes on, and only of it something is told -/
structure Local (c : CallId) (s t : PushService) : Prop where
  calls : ∀ k, k ≠ c → t.calls k = s.calls k
  events : ∃ new, t.events = new ++ s.events ∧ ∀ e ∈ new, ∀ k, k ≠ c → e.call ≠ some k

section
variable {c : CallId} {s t u : PushService}

theorem Local.refl (c : CallId) (s : PushService) : Local c s s :=
  ⟨fun _ _ => rfl, [], rfl, fun _ h => absurd h List.not_mem_nil⟩

theorem Local.trans (h : Local c s t) (h' : Local c t u) : Local c s u := by
  obtain ⟨new, hnew, hcall⟩ := h.events
  obtain ⟨new', hnew', hcall'⟩ := h'.events
  refine ⟨fun k hk => (h'.calls k hk).trans (h.calls k hk), new' ++ new, ?_, fun e he => ?_⟩
  · rw [hnew', hnew, List.append_assoc]
  · exact (List.mem_append.mp he).elim (hcall' e) (hcall e)

theorem local_set (s : PushService) (c : CallId) (phase : Phase) : Local c s (s.set c phase) :=
  ⟨fun _ hk => if_neg hk, [], rfl, fun _ h => absurd h List.not_mem_nil⟩

theorem local_tell (s : PushService) {e : Event} (h : e.call = some c ∨ e.call = none) : Local c s (s.tell e) := by
  refine ⟨fun _ _ => rfl, [e], rfl, fun e' he k hk hcall => ?_⟩
  rw [List.mem_singleton.mp he] at hcall
  rcases h with h | h
  · rw [h, Option.some.injEq] at hcall
    exact hk hcall.symm
  · rw [h] at hcall
    cases hcall

theorem local_go (s : PushService) (c : CallId) (loop : Sending) : Local c s (s.go c loop) := by
  unfold PushService.go
  split
  · exact local_set s c _
  · exact (local_tell s (Or.inl rfl)).trans (local_set _ c _)

theorem local_loop (s : PushService) (c : CallId) (audience : Audience) (notification : ApnsNotification)
    (targets : List Target) : Local c s (s.loop c audience notification targets) :=
  (local_tell s (Or.inl rfl)).trans (local_go _ c _)

theorem local_onAnswer (s : PushService) (c : CallId) (loop : Sending) (target : Target)
    (result : ApnsSendResult) : Local c s (s.onAnswer c loop target result) := by
  have htell : Local c s (s.tell (.answered c target result)) := local_tell s (Or.inl rfl)
  unfold PushService.onAnswer
  split
  · exact htell.trans (local_go _ c _)
  · exact htell.trans (local_set _ c _)
  · exact htell.trans (local_go _ c _)

/-- a statement tells of no other loop -/
structure Plain (c : CallId) (w : Writing) : Prop where
  event : ∀ e ∈ w.event, e.call = some c ∨ e.call = none
  next : ∀ t, Local c t (w.next t)

theorem plain_writing {now : Int} {phase : Phase} {w : Writing} (h : s.writing c now phase = some w) :
    Plain c w := by
  cases phase <;> cases h
  case pruning => exact ⟨fun _ he => (by cases he), fun t => local_set t c _⟩
  case deleting => exact ⟨fun _ he => (by cases he; exact Or.inl rfl), fun t => local_go t c _⟩
  all_goals exact ⟨fun _ he => (by cases he; exact Or.inr rfl), fun t => local_set t c _⟩

theorem local_applied {w : Writing} (h : Plain c w) (fate : Fate) : Local c s (s.applied w fate) := by
  unfold PushService.applied
  split
  · refine ⟨fun _ _ => rfl, w.event.toList, rfl, fun e he k hk hcall => ?_⟩
    rcases h.event e (Option.mem_toList.mp he) with h | h
    · rw [h, Option.some.injEq] at hcall
      exact hk hcall.symm
    · rw [h] at hcall
      cases hcall
  · exact .refl c s

theorem local_write {w : Writing} (h : Plain c w) (fate : Fate) : Local c s (s.write c w fate) := by
  unfold PushService.write
  split
  · exact (local_applied h fate).trans (h.next _)
  · exact (local_applied h fate).trans (local_set _ c _)

end

/-- the call that a step belongs to -/
def Action.call : Action → CallId
  | .start c _ | .listDevices c _ | .selectTokens c _ | .selectThrew c | .answer c _ | .statement c _ _ => c

/-- what the select of activity tokens comes to -/
theorem onSelect_cases {s t : PushService} {c : CallId} {rows : List PushActivityTokenRow} {phase : Phase}
    (h : s.onSelect c rows phase = some t) :
    ((∃ referenceId start notification, phase = .selecting referenceId start notification) ∨
      ∃ notification, phase = .starting notification) ∧
    ((∃ next, t = s.set c next ∧ (next = .returned 0 0 ∨ ∃ notification, next = .starting notification)) ∨
      ∃ notification, rows ⊆ s.store.activityTokens.rows ∧ (rows.map PushActivityTokenRow.token).Nodup ∧
        t = s.loop c .activities notification (rows.map PushActivityTokenRow.target)) := by
  have hsubset {p : PushActivityTokenRow → Bool} (hperm : rows.Perm (s.store.activityTokens.rows.filter p)) :
      rows ⊆ s.store.activityTokens.rows ∧ (rows.map PushActivityTokenRow.token).Nodup := by
    refine ⟨fun row hrow => (List.mem_filter.mp (hperm.mem_iff.mp hrow)).1, ?_⟩
    rw [(hperm.map _).nodup_iff]
    exact s.store.activityTokens.nodup.sublist (List.filter_sublist.map _)
  cases phase with
  | selecting referenceId start notification =>
    refine ⟨Or.inl ⟨referenceId, start, notification, rfl⟩, ?_⟩
    obtain ⟨hperm, h⟩ := Option.ite_none_right_eq_some.mp h
    split at h
    · left
      cases start with
      | none =>
        cases h
        exact ⟨_, rfl, Or.inl rfl⟩
      | some first =>
        cases h
        exact ⟨_, rfl, Or.inr ⟨first, rfl⟩⟩
    · right
      cases h
      exact ⟨notification, (hsubset hperm).1, (hsubset hperm).2, rfl⟩
  | starting notification =>
    refine ⟨Or.inr ⟨notification, rfl⟩, Or.inr ?_⟩
    obtain ⟨hperm, h⟩ := Option.ite_none_right_eq_some.mp h
    cases h
    exact ⟨notification, (hsubset hperm).1, (hsubset hperm).2, rfl⟩
  | _ => cases h

theorem local_step {s t : PushService} {action : Action} (h : s.step action = some t) : Local action.call s t := by
  cases action with
  | start c entry =>
    cases hphase : s.calls c with
    | idle =>
      simp only [PushService.step, hphase, Option.some.injEq] at h
      rw [← h]
      exact local_set s c _
    | _ => simp only [PushService.step, hphase, reduceCtorEq] at h
  | listDevices c rows =>
    cases hphase : s.calls c with
    | listing kind notification =>
      simp only [PushService.step, hphase] at h
      obtain ⟨-, h⟩ := Option.ite_none_right_eq_some.mp h
      cases h
      exact local_loop s c _ _ _
    | _ => simp only [PushService.step, hphase, reduceCtorEq] at h
  | selectTokens c rows =>
    obtain ⟨-, ⟨next, rfl, -⟩ | ⟨notification, -, -, rfl⟩⟩ := onSelect_cases h
    · exact local_set s c next
    · exact local_loop s c _ _ _
  | selectThrew c =>
    cases hphase : s.calls c with
    | listing | selecting | starting =>
      simp only [PushService.step, hphase, Option.some.injEq] at h
      rw [← h]
      exact local_set s c _
    | _ => simp only [PushService.step, hphase, reduceCtorEq] at h
  | answer c reply =>
    cases hphase : s.calls c with
    | awaiting loop target =>
      simp only [PushService.step, hphase, Option.some.injEq] at h
      rw [← h]
      exact local_onAnswer s c loop target _
    | _ => simp only [PushService.step, hphase, reduceCtorEq] at h
  | statement c now fate =>
    obtain ⟨w, hw, rfl⟩ := Option.map_eq_some_iff.mp h
    exact local_write (plain_writing hw) fate

/-! ## where a call stands -/

/-- nothing is listed yet -/
structure Quiet (events : List Event) (c : CallId) : Prop where
  listed : listedBy c events = []
  sent : sentBy c events = []
  answered : answeredBy c events = []
  removed : removedBy c events = []

/-- a loop over `targets`: what it has sent, heard, deleted and counted, and what is to come; `waiting` is the one that
it has not heard of yet, and `dead` the one that it has not deleted yet -/
structure Progress (events : List Event) (c : CallId) (targets rest : List Target) (waiting dead : Option Target)
    (sent failed : Nat) : Prop where
  listed : listedBy c events = [targets]
  all : sentBy c events ++ rest = targets
  answered : (answeredBy c events).map Prod.fst ++ waiting.toList = sentBy c events
  removed : removedBy c events ++ (dead.map Target.token).toList = rejectedBy c events
  sent : sent = (answeredBy c events).countP fun a => a.2.isOk
  failed : failed = (answeredBy c events).countP fun a => !a.2.isOk

/-- what the events say of a call that stands at a phase -/
def CallOk (events : List Event) (c : CallId) : Phase → Prop
  | .awaiting loop target => ∃ targets, Progress events c targets loop.rest (some target) none loop.sent loop.failed
  | .deleting loop target => ∃ targets, Progress events c targets loop.rest none (some target) loop.sent loop.failed
  | .returned sent failed => Quiet events c ∨ ∃ targets, Progress events c targets [] none none sent failed
  | .threw => Quiet events c ∨ ∃ targets rest dead sent failed, Progress events c targets rest none dead sent failed
  | _ => Quiet events c

section
variable {c : CallId} {events new : List Event} {targets rest : List Target} {target : Target}
  {waiting dead : Option Target} {sent failed : Nat} {phase : Phase}

theorem logs_other (events : List Event) (h : ∀ e ∈ new, e.call ≠ some c) :
    listedBy c (new ++ events) = listedBy c events ∧ sentBy c (new ++ events) = sentBy c events ∧
      answeredBy c (new ++ events) = answeredBy c events ∧ removedBy c (new ++ events) = removedBy c events := by
  obtain ⟨hlisted, hsent, hanswered, hremoved⟩ := log_other h
  unfold listedBy sentBy answeredBy removedBy at *
  rw [log_append, log_append, log_append, log_append, hlisted, hsent, hanswered, hremoved]
  simp only [List.append_nil, and_self]

theorem Quiet.other (hq : Quiet events c) (h : ∀ e ∈ new, e.call ≠ some c) : Quiet (new ++ events) c := by
  obtain ⟨hlisted, hsent, hanswered, hremoved⟩ := logs_other events h
  exact ⟨hlisted.trans hq.listed, hsent.trans hq.sent, hanswered.trans hq.answered, hremoved.trans hq.removed⟩

theorem Progress.other (hp : Progress events c targets rest waiting dead sent failed)
    (h : ∀ e ∈ new, e.call ≠ some c) : Progress (new ++ events) c targets rest waiting dead sent failed := by
  obtain ⟨hlisted, hsent, hanswered, hremoved⟩ := logs_other events h
  constructor
  · exact hlisted.trans hp.listed
  · rw [hsent]
    exact hp.all
  · rw [hanswered, hsent]
    exact hp.answered
  · unfold rejectedBy
    rw [hanswered, hremoved]
    exact hp.removed
  · rw [hanswered]
    exact hp.sent
  · rw [hanswered]
    exact hp.failed

theorem CallOk.other (hok : CallOk events c phase) (h : ∀ e ∈ new, e.call ≠ some c) :
    CallOk (new ++ events) c phase := by
  cases phase with
  | awaiting loop target =>
    obtain ⟨targets, hp⟩ := hok
    exact ⟨targets, hp.other h⟩
  | deleting loop target =>
    obtain ⟨targets, hp⟩ := hok
    exact ⟨targets, hp.other h⟩
  | returned sent failed =>
    rcases hok with hq | ⟨targets, hp⟩
    · exact Or.inl (hq.other h)
    · exact Or.inr ⟨targets, hp.other h⟩
  | threw =>
    rcases hok with hq | ⟨targets, rest, dead, sent, failed, hp⟩
    · exact Or.inl (hq.other h)
    · exact Or.inr ⟨targets, rest, dead, sent, failed, hp.other h⟩
  | _ => exact Quiet.other hok h

/-! ### the events of a loop -/

/-- an event adds to what is read of it, and to nothing else -/
theorem log_none {β : Type} {f : Event → Option β} {e : Event} (h : f e = none) : log f (e :: events) = log f events := by
  rw [log_cons, h]
  exact List.append_nil _

theorem log_some {β : Type} {f : Event → Option β} {e : Event} {b : β} (h : f e = some b) :
    log f (e :: events) = log f events ++ [b] := by
  rw [log_cons, h]
  rfl

theorem progress_listed (h : Quiet events c) (targets : List Target) :
    Progress (.listed c targets :: events) c targets targets none none 0 0 := by
  have hlisted : listedBy c (.listed c targets :: events) = [targets] := by
    refine (log_some (if_pos rfl)).trans ?_
    rw [← listedBy, h.listed]
    rfl
  have hsent : sentBy c (.listed c targets :: events) = [] := (log_none rfl).trans h.sent
  have hanswered : answeredBy c (.listed c targets :: events) = [] := (log_none rfl).trans h.answered
  have hremoved : removedBy c (.listed c targets :: events) = [] := (log_none rfl).trans h.removed
  constructor
  · exact hlisted
  · rw [hsent, List.nil_append]
  · rw [hsent, hanswered]
    rfl
  · unfold rejectedBy
    rw [hremoved, hanswered]
    rfl
  · rw [hanswered]
    rfl
  · rw [hanswered]
    rfl

theorem progress_sent (h : Progress events c targets (target :: rest) none none sent failed) :
    Progress (.sent c target :: events) c targets rest (some target) none sent failed := by
  have hsent : sentBy c (.sent c target :: events) = sentBy c events ++ [target] := log_some (if_pos rfl)
  have hanswered : answeredBy c (.sent c target :: events) = answeredBy c events := log_none rfl
  have hremoved : removedBy c (.sent c target :: events) = removedBy c events := log_none rfl
  have hheard := h.answered
  rw [Option.toList_none, List.append_nil] at hheard
  constructor
  · exact (log_none rfl).trans h.listed
  · rw [hsent, List.append_assoc]
    exact h.all
  · rw [hsent, hanswered, hheard]
    rfl
  · unfold rejectedBy
    rw [hremoved, hanswered]
    exact h.removed
  · rw [hanswered]
    exact h.sent
  · rw [hanswered]
    exact h.failed

/-- a token that Apple calls invalid is to be deleted -/
theorem progress_answered (h : Progress events c targets rest (some target) none sent failed)
    (result : ApnsSendResult) :
    Progress (.answered c target result :: events) c targets rest none
      (if result.invalid = true then some target else none) (sent + result.isOk.toNat)
      (failed + (!result.isOk).toNat) := by
  have hanswered : answeredBy c (.answered c target result :: events) = answeredBy c events ++ [(target, result)] :=
    log_some (if_pos rfl)
  have hsent : sentBy c (.answered c target result :: events) = sentBy c events := log_none rfl
  have hremoved : removedBy c (.answered c target result :: events) = removedBy c events := log_none rfl
  constructor
  · exact (log_none rfl).trans h.listed
  · rw [hsent]
    exact h.all
  · rw [hsent, hanswered, List.map_append, Option.toList_none, List.append_nil]
    exact h.answered
  · have hbefore := h.removed
    rw [Option.map_none, Option.toList_none, List.append_nil, rejectedBy] at hbefore
    unfold rejectedBy
    rw [hremoved, hanswered, List.filter_append, List.map_append, hbefore]
    cases hinvalid : result.invalid <;> simp [hinvalid]
  · rw [hanswered, List.countP_append, ← h.sent]
    cases hok : result.isOk <;> simp [hok]
  · rw [hanswered, List.countP_append, ← h.failed]
    cases hok : result.isOk <;> simp [hok]

theorem progress_removed (h : Progress events c targets rest none (some target) sent failed) (audience : Audience) :
    Progress (.removed c audience target.token :: events) c targets rest none none sent failed := by
  have hsent : sentBy c (.removed c audience target.token :: events) = sentBy c events := log_none rfl
  have hanswered : answeredBy c (.removed c audience target.token :: events) = answeredBy c events := log_none rfl
  have hremoved : removedBy c (.removed c audience target.token :: events) = removedBy c events ++ [target.token] :=
    log_some (if_pos rfl)
  constructor
  · exact (log_none rfl).trans h.listed
  · rw [hsent]
    exact h.all
  · rw [hsent, hanswered]
    exact h.answered
  · unfold rejectedBy
    rw [hremoved, hanswered, Option.map_none, Option.toList_none, List.append_nil]
    exact h.removed
  · rw [hanswered]
    exact h.sent
  · rw [hanswered]
    exact h.failed

end

/-! ## every step -/

@[simp] theorem calls_set (s : PushService) (c : CallId) (phase : Phase) : (s.set c phase).calls c = phase := if_pos rfl

section
variable {s t : PushService} {c : CallId} {loop : Sending} {targets : List Target}

/-- the next turn of a loop whose last send is answered -/
theorem callOk_go (h : Progress s.events c targets loop.rest none none loop.sent loop.failed) :
    CallOk (s.go c loop).events c ((s.go c loop).calls c) := by
  unfold PushService.go
  cases hrest : loop.rest with
  | nil =>
    rw [calls_set]
    rw [hrest] at h
    exact Or.inr ⟨targets, h⟩
  | cons target rest =>
    rw [calls_set]
    rw [hrest] at h
    exact ⟨targets, progress_sent h⟩

theorem callOk_loop (h : Quiet s.events c) (audience : Audience) (notification : ApnsNotification)
    (targets : List Target) :
    CallOk (s.loop c audience notification targets).events c
      ((s.loop c audience notification targets).calls c) :=
  callOk_go (s := s.tell (.listed c targets)) (progress_listed h targets)

theorem callOk_onAnswer {target : Target}
    (h : Progress s.events c targets loop.rest (some target) none loop.sent loop.failed) (result : ApnsSendResult) :
    CallOk (s.onAnswer c loop target result).events c ((s.onAnswer c loop target result).calls c) := by
  have hnext := progress_answered h result
  unfold PushService.onAnswer
  cases result with
  | ok => exact callOk_go (s := s.tell _) hnext
  | rejected status reason invalidToken =>
    cases invalidToken with
    | true =>
      dsimp only
      rw [calls_set]
      exact ⟨targets, hnext⟩
    | false => exact callOk_go (s := s.tell _) hnext

/-- a statement of a call that is before its loop -/
theorem callOk_quiet {w : Writing} (next : Phase) (hq : Quiet s.events c) (hevent : ∀ e ∈ w.event, e.call = none)
    (hgo : ∀ t, w.next t = t.set c next) (hnext : ∀ events, Quiet events c → CallOk events c next) (fate : Fate) :
    CallOk (s.write c w fate).events c ((s.write c w fate).calls c) := by
  have happlied : Quiet (s.applied w fate).events c := by
    unfold PushService.applied
    split
    · refine hq.other fun e he hcall => ?_
      rw [hevent e (Option.mem_toList.mp he)] at hcall
      cases hcall
    · exact hq
  unfold PushService.write
  split
  · rw [hgo, calls_set]
    exact hnext _ happlied
  · rw [calls_set]
    exact Or.inl happlied

/-- the delete of a token that Apple has called invalid -/
theorem callOk_delete {w : Writing} {audience : Audience} {target : Target}
    (hp : Progress s.events c targets loop.rest none (some target) loop.sent loop.failed)
    (hevent : w.event = some (.removed c audience target.token)) (hgo : ∀ t, w.next t = t.go c loop) (fate : Fate) :
    CallOk (s.write c w fate).events c ((s.write c w fate).calls c) := by
  have happlied (hfate : fate.applies = true) :
      Progress (s.applied w fate).events c targets loop.rest none none loop.sent loop.failed := by
    unfold PushService.applied
    rw [if_pos hfate, hevent]
    exact progress_removed hp audience
  cases fate with
  | ok =>
    show CallOk (w.next (s.applied w .ok)).events c ((w.next (s.applied w .ok)).calls c)
    rw [hgo]
    exact callOk_go (happlied rfl)
  | lost =>
    show CallOk (s.set c .threw).events c ((s.set c .threw).calls c)
    rw [calls_set]
    exact Or.inr ⟨targets, _, _, _, _, hp⟩
  | applied =>
    show CallOk ((s.applied w .applied).set c .threw).events c (((s.applied w .applied).set c .threw).calls c)
    rw [calls_set]
    exact Or.inr ⟨targets, _, _, _, _, happlied rfl⟩

theorem callOk_statement {w : Writing} {now : Int} (h : CallOk s.events c (s.calls c))
    (hw : s.writing c now (s.calls c) = some w) (fate : Fate) :
    CallOk (s.write c w fate).events c ((s.write c w fate).calls c) := by
  cases hphase : s.calls c with
  | deleting loop target =>
    rw [hphase] at h hw
    cases hw
    obtain ⟨targets, hp⟩ := h
    exact callOk_delete hp rfl (fun _ => rfl) fate
  | pruning referenceId start notification =>
    rw [hphase] at h hw
    cases hw
    exact callOk_quiet (.selecting referenceId start notification) h (fun _ he => by cases he) (fun _ => rfl)
      (fun _ hq => hq) fate
  | replacing input =>
    rw [hphase] at h hw
    cases hw
    exact callOk_quiet (.inserting input) h (fun _ he => by cases he; rfl) (fun _ => rfl) (fun _ hq => hq) fate
  | registering | unregistering | inserting =>
    rw [hphase] at h hw
    cases hw
    exact callOk_quiet (.returned 0 0) h (fun _ he => by cases he; rfl) (fun _ => rfl) (fun _ hq => Or.inl hq) fate
  | _ =>
    rw [hphase] at hw
    cases hw

theorem callOk_phase {events : List Event} (h : Quiet events c) (entry : Entry) : CallOk events c entry.phase := by
  cases entry with
  | upsertActivityToken input =>
    show CallOk events c (if input.purpose = .start then _ else _)
    split <;> exact h
  | _ => exact h

theorem callOk_step {action : Action} (h : ∀ k, CallOk s.events k (s.calls k)) (hstep : s.step action = some t) :
    ∀ k, CallOk t.events k (t.calls k) := by
  intro k
  have hlocal := local_step hstep
  by_cases hk : k = action.call
  · rw [hk]
    have hcall := h action.call
    cases action with
    | start c entry =>
      simp only [Action.call] at hcall ⊢
      cases hphase : s.calls c with
      | idle =>
        simp only [PushService.step, hphase, Option.some.injEq] at hstep
        rw [hphase] at hcall
        rw [← hstep, calls_set]
        exact callOk_phase hcall entry
      | _ => simp only [PushService.step, hphase, reduceCtorEq] at hstep
    | listDevices c rows =>
      simp only [Action.call] at hcall ⊢
      cases hphase : s.calls c with
      | listing kind notification =>
        simp only [PushService.step, hphase] at hstep
        obtain ⟨-, hstep⟩ := Option.ite_none_right_eq_some.mp hstep
        cases hstep
        rw [hphase] at hcall
        exact callOk_loop hcall _ _ _
      | _ => simp only [PushService.step, hphase, reduceCtorEq] at hstep
    | selectTokens c rows =>
      simp only [Action.call] at hcall ⊢
      obtain ⟨hphase, hnext⟩ := onSelect_cases hstep
      have hquiet : Quiet s.events c := by
        rcases hphase with ⟨_, _, _, hphase⟩ | ⟨_, hphase⟩ <;> rw [hphase] at hcall <;> exact hcall
      rcases hnext with ⟨next, rfl, rfl | ⟨notification, rfl⟩⟩ | ⟨notification, -, -, rfl⟩
      · rw [calls_set]
        exact Or.inl hquiet
      · rw [calls_set]
        exact hquiet
      · exact callOk_loop hquiet _ _ _
    | selectThrew c =>
      simp only [Action.call] at hcall ⊢
      cases hphase : s.calls c with
      | listing | selecting | starting =>
        simp only [PushService.step, hphase, Option.some.injEq] at hstep
        rw [hphase] at hcall
        rw [← hstep, calls_set]
        exact Or.inl hcall
      | _ => simp only [PushService.step, hphase, reduceCtorEq] at hstep
    | answer c reply =>
      simp only [Action.call] at hcall ⊢
      cases hphase : s.calls c with
      | awaiting loop target =>
        simp only [PushService.step, hphase, Option.some.injEq] at hstep
        rw [hphase] at hcall
        obtain ⟨targets, hp⟩ := hcall
        rw [← hstep]
        exact callOk_onAnswer hp _
      | _ => simp only [PushService.step, hphase, reduceCtorEq] at hstep
    | statement c now fate =>
      simp only [Action.call] at hcall ⊢
      obtain ⟨w, hw, rfl⟩ := Option.map_eq_some_iff.mp hstep
      exact callOk_statement hcall hw fate
  · obtain ⟨new, hnew, hother⟩ := hlocal.events
    rw [hlocal.calls k hk, hnew]
    exact (h k).other fun e he => hother e he k hk

theorem callOk_run {actions : List Action} (hrun : run PushService.step .initial actions = some s) (k : CallId) :
    CallOk s.events k (s.calls k) := by
  have hinitial (k : CallId) : CallOk PushService.initial.events k (PushService.initial.calls k) :=
    Quiet.mk rfl rfl rfl rfl
  exact run_inv (P := fun s => ∀ k, CallOk s.events k (s.calls k)) (fun _ _ _ h hstep => callOk_step h hstep)
    actions _ s hinitial hrun k

end

/-! ## a broadcast -/

section
variable {s t : PushService} {c : CallId}

/-- what has been told is not taken back -/
theorem logs_grow {actions : List Action} (hrun : run PushService.step s actions = some t) :
    ∃ new, t.events = new ++ s.events :=
  run_inv (P := fun t => ∃ new, t.events = new ++ s.events) (fun u a v hu hstep => by
    obtain ⟨new, hnew⟩ := hu
    obtain ⟨new', hnew', -⟩ := (local_step hstep).events
    exact ⟨new' ++ new, by rw [hnew', hnew, List.append_assoc]⟩) actions s t ⟨[], rfl⟩ hrun

theorem listedBy_go (s : PushService) (c : CallId) (loop : Sending) :
    listedBy c (s.go c loop).events = listedBy c s.events := by
  unfold PushService.go
  cases loop.rest with
  | nil => rfl
  | cons target rest =>
    exact log_none rfl

/-- a call that has listed something is in the loop over it, or after it -/
theorem progress_of_listed {events : List Event} {phase : Phase} {targets : List Target} (h : CallOk events c phase)
    (hlisted : [targets] <+: listedBy c events) :
    ∃ rest waiting dead sent failed, Progress events c targets rest waiting dead sent failed ∧
      ∀ m n, phase = .returned m n → rest = [] ∧ waiting = none ∧ dead = none ∧ sent = m ∧ failed = n := by
  have hnotQuiet : ¬ Quiet events c := by
    intro hq
    rw [hq.listed] at hlisted
    exact absurd (List.prefix_nil.mp hlisted) (List.cons_ne_nil _ _)
  have hsame {targets' rest : List Target} {waiting dead : Option Target} {sent failed : Nat}
      (hp : Progress events c targets' rest waiting dead sent failed) : targets' = targets := by
    rw [hp.listed] at hlisted
    obtain ⟨htargets, -⟩ := List.cons_prefix_cons.mp hlisted
    exact htargets.symm
  cases phase with
  | awaiting loop target =>
    obtain ⟨targets', hp⟩ := h
    rw [hsame hp] at hp
    exact ⟨_, _, _, _, _, hp, fun m n hphase => by cases hphase⟩
  | deleting loop target =>
    obtain ⟨targets', hp⟩ := h
    rw [hsame hp] at hp
    exact ⟨_, _, _, _, _, hp, fun m n hphase => by cases hphase⟩
  | returned sent failed =>
    obtain ⟨targets', hp⟩ := h.resolve_left hnotQuiet
    rw [hsame hp] at hp
    refine ⟨_, _, _, _, _, hp, fun m n hphase => ?_⟩
    cases hphase
    exact ⟨rfl, rfl, rfl, rfl, rfl⟩
  | threw =>
    obtain ⟨targets', rest, dead, sent, failed, hp⟩ := h.resolve_left hnotQuiet
    rw [hsame hp] at hp
    exact ⟨_, _, _, _, _, hp, fun m n hphase => by cases hphase⟩
  | _ => exact absurd h hnotQuiet

/-- every answer says that a send has succeeded, or that it has failed -/
theorem length_answers (answers : List (Target × ApnsSendResult)) :
    (answers.countP fun a => a.2.isOk) + (answers.countP fun a => !a.2.isOk) = answers.length := by
  rw [List.length_eq_countP_add_countP fun a : Target × ApnsSendResult => a.2.isOk]
  congr 1
  refine List.countP_congr fun a _ => ?_
  simp

/-- what a broadcast has done for the devices that were read: it sends to each of them that wants the kind once, in
their order and to no other; it deletes those that Apple calls invalid; `sent` and `failed` say how many of the answers
were what -/
structure Broadcast (kind : Option PushKind) (devices rows : List PushDeviceRow) (c : CallId) (s : PushService) :
    Prop where
  nodup : ((wantedTargets kind rows).map Target.token).Nodup
  mem : ∀ target, target ∈ wantedTargets kind rows ↔
    ∃ row ∈ devices, wants kind row = true ∧ row.target = target
  sent : sentBy c s.events <+: wantedTargets kind rows
  returned : ∀ sent failed, s.calls c = .returned sent failed →
    sentBy c s.events = wantedTargets kind rows ∧ (answeredBy c s.events).map Prod.fst = wantedTargets kind rows ∧
      removedBy c s.events = rejectedBy c s.events ∧ sent = ((answeredBy c s.events).countP fun a => a.2.isOk) ∧
      sent + failed = (wantedTargets kind rows).length

/-- whatever the other calls do meanwhile -/
theorem broadcast_each_once (before after : List Action) {s₀ s₁ s : PushService} {kind : Option PushKind}
    {notification : ApnsNotification} {rows : List PushDeviceRow}
    (hbefore : run PushService.step .initial before = some s₀) (hcall : s₀.calls c = .listing kind notification)
    (hlist : s₀.step (.listDevices c rows) = some s₁) (hafter : run PushService.step s₁ after = some s) :
    Broadcast kind s₀.store.devices.rows rows c s := by
  have hwhole : run PushService.step .initial (before ++ .listDevices c rows :: after) = some s :=
    run_append_some.mpr ⟨s₀, hbefore, run_cons_some.mpr ⟨s₁, hlist, hafter⟩⟩
  have hquiet := callOk_run hbefore c
  rw [hcall] at hquiet
  simp only [PushService.step, hcall] at hlist
  obtain ⟨hperm, hlist⟩ := Option.ite_none_right_eq_some.mp hlist
  cases hlist
  have hlisted : listedBy c (s₀.loop c .devices notification (wantedTargets kind rows)).events =
      [wantedTargets kind rows] :=
    (listedBy_go _ c _).trans (progress_listed hquiet _).listed
  have hgrown : [wantedTargets kind rows] <+: listedBy c s.events := by
    obtain ⟨new, hnew⟩ := logs_grow hafter
    rw [hnew, listedBy, log_append, ← listedBy, hlisted]
    exact List.prefix_append _ _
  obtain ⟨rest, waiting, dead, sent, failed, hp, hreturned⟩ := progress_of_listed (callOk_run hwhole c) hgrown
  constructor
  · have hkeys : ((rows.filter (wants kind)).map PushDeviceRow.token).Nodup := by
      refine List.Nodup.sublist (List.filter_sublist.map _) ?_
      rw [(hperm.map _).nodup_iff]
      exact s₀.store.devices.nodup
    unfold wantedTargets
    rw [List.map_map]
    exact hkeys
  · intro target
    unfold wantedTargets
    simp only [List.mem_map, List.mem_filter, hperm.mem_iff, and_assoc]
  · exact ⟨rest, hp.all⟩
  · intro m n hphase
    obtain ⟨rfl, rfl, rfl, rfl, rfl⟩ := hreturned m n hphase
    have hall := hp.all
    have hanswered := hp.answered
    have hremoved := hp.removed
    rw [List.append_nil] at hall
    rw [Option.toList_none, List.append_nil, hall] at hanswered
    rw [Option.map_none, Option.toList_none, List.append_nil] at hremoved
    refine ⟨hall, hanswered, hremoved, hp.sent, ?_⟩
    calc sent + failed = (answeredBy c s.events).length := by rw [hp.sent, hp.failed, length_answers]
      _ = ((answeredBy c s.events).map Prod.fst).length := (List.length_map _).symm
      _ = (wantedTargets kind rows).length := by rw [hanswered]

end

def sampleDevice (token : JsString) (preferences : List (JsString × Bool)) : PushDeviceRow :=
  ⟨token, .sandbox, preferences, 0, 0⟩

def twoDevices : List PushDeviceRow := [sampleDevice (lit "aa") [], sampleDevice (lit "bb") [(lit "budget", true)]]

/-- two devices are registered, and a broadcast begins -/
def twoRegistered : List Action :=
  [.start 0 (.upsertDevice ⟨lit "aa", .sandbox, []⟩), .statement 0 0 .ok,
    .start 1 (.upsertDevice ⟨lit "bb", .sandbox, [(lit "budget", true)]⟩), .statement 1 0 .ok,
    .start 2 (.broadcast (some .budget) testPayload)]

/-- Apple takes the first notification, and does not know the second device any more -/
def oneGone : List Action := [.answer 2 (.answered 200 (lit "")), .answer 2 (.answered 410 (lit "")), .statement 2 1 .ok]

theorem broadcast_each_once_oneGone : ∃ s₀ s₁ s, run PushService.step .initial twoRegistered = some s₀ ∧
    s₀.step (.listDevices 2 twoDevices) = some s₁ ∧ run PushService.step s₁ oneGone = some s ∧
    s.calls 2 = .returned 1 1 ∧ Broadcast (some .budget) s₀.store.devices.rows twoDevices 2 s :=
  ⟨_, _, _, rfl, rfl, rfl, rfl,
    broadcast_each_once twoRegistered oneGone rfl rfl rfl rfl⟩

end Push
