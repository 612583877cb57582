import JinCore.Lib.Runs
import JinCore.Telegram.Sessions

/-!
# What becomes of a conversation

A handler reads a session, and writes it whole after its turn.  The conversation is kept where no
handler writes over what it has not read.

* `Conversation`, `ConversationKept`   every answered turn is in its session, once and in order, and
                               a session that is closed was passed to the memory as it stands;
* `Unraced`                    a row is written as it was read;
* `PhaseOk`, `Kept`            what a handler knows of the rows; `kept_step`;
* `conversation_kept`, `conversation_lost`.
-/

namespace Telegram
open JsString Common ModelProvider Security

/-- what the rows say of the turns that are saved in each session -/
structure Conversation (s : Chat) (saved : SessionId → List Turn) : Prop where
  transcripts : ∀ id row, s.sessions.get id = some row →
    row.transcript = s.inserted id ++ (saved id).flatMap Turn.pair
  once : s.completed.Nodup
  /-- in completion order, and only turns of the session -/
  order : ∀ id, (saved id).Sublist (s.completed.filter fun turn => turn.sessionId = id)
  answered : ∀ turn ∈ s.answered, turn ∈ saved turn.sessionId
  consolidated : ∀ id row, s.sessions.get id = some row → row.status = .consolidated →
    saved id = [] ∨ (id, formatTranscriptForConsolidation row.transcript) ∈ s.passed

def ConversationKept (s : Chat) : Prop := ∃ saved, Conversation s saved

/-- a transcript is written to a row that is active and as it was read, and a row is closed as it was
read -/
def Unraced (s : Chat) : Action → Prop
  | .save h fate _ => ∀ turn session, s.handlers h = .saving turn session → fate.applies = true →
      ∃ row, s.sessions.get session.id = some row ∧ row.transcript = session.transcript ∧
        row.status = .active
  | .mark h fate _ => ∀ close, s.handlers h = .marking close → fate.applies = true →
      ∃ row, s.sessions.get close.session.id = some row ∧
        row.transcript = close.session.transcript
  | _ => True

/-! ## the invariant -/

section
variable (s : Chat) (saved : SessionId → List Turn)

/-- the handler has completed no turn yet -/
def Fresh (h : HandlerId) : Prop := ∀ turn ∈ s.completed, turn.handler ≠ h

/-- the transcript is that of the session at a time when `pre` was saved in it -/
structure SeenAt (session : TelegramSession) (pre : List Turn) : Prop where
  known : s.sessions.get session.id ≠ none
  earlier : pre <+: saved session.id
  transcript : session.transcript = s.inserted session.id ++ pre.flatMap Turn.pair

def Passed (session : TelegramSession) : Prop :=
  (formatTranscriptForConsolidation session.transcript).isBlank = true ∨
    (session.id, formatTranscriptForConsolidation session.transcript) ∈ s.passed

def PhaseOk (h : HandlerId) : Phase → Prop
  | .idle | .consolidating _ | .recalling _ | .inserting _ _ => Fresh s h
  | .marking close => Fresh s h ∧ Passed s close.session
  | .turning _ session _ => Fresh s h ∧ ∃ pre, SeenAt s saved session pre
  | .saving turn session => turn.sessionId = session.id ∧ ∃ pre, SeenAt s saved session pre ∧
      (pre ++ [turn]).Sublist (s.completed.filter fun turn => turn.sessionId = session.id)
  | .replying turn => turn ∈ saved turn.sessionId
  | .ended => True

structure Kept : Prop extends Conversation s saved where
  unsaved : ∀ id, s.sessions.get id = none → saved id = []
  phases : ∀ h, PhaseOk s saved h (s.handlers h)

end

/-- what a step of the handler `h` adds, before it moves on -/
structure Grows (h : HandlerId) (s s' : Chat) (saved saved' : SessionId → List Turn) : Prop where
  known : ∀ id, s.sessions.get id ≠ none → s'.sessions.get id ≠ none
  inserted : ∀ id, s.sessions.get id ≠ none → s'.inserted id = s.inserted id
  saved : ∀ id, saved id <+: saved' id
  completed : ∃ new : List Turn, s'.completed = s.completed ++ new ∧ ∀ turn ∈ new, turn.handler = h
  passed : ∀ p ∈ s.passed, p ∈ s'.passed
  handlers : s'.handlers = s.handlers

section
variable {s s' : Chat} {saved saved' : SessionId → List Turn} {h k : HandlerId} {phase : Phase}

theorem Grows.fresh (hg : Grows h s s' saved saved') (hk : k ≠ h) (hfresh : Fresh s k) :
    Fresh s' k := by
  obtain ⟨new, hcompleted, hnew⟩ := hg.completed
  intro turn hturn
  rw [hcompleted] at hturn
  rcases List.mem_append.mp hturn with hturn | hturn
  · exact hfresh turn hturn
  · rw [hnew turn hturn]
    exact hk.symm

theorem Grows.seenAt (hg : Grows h s s' saved saved') {session : TelegramSession} {pre : List Turn}
    (hseen : SeenAt s saved session pre) : SeenAt s' saved' session pre where
  known := hg.known _ hseen.known
  earlier := hseen.earlier.trans (hg.saved _)
  transcript := by rw [hg.inserted _ hseen.known, hseen.transcript]

theorem Grows.sublist (hg : Grows h s s' saved saved') (id : SessionId) :
    (s.completed.filter fun turn => turn.sessionId = id).Sublist
      (s'.completed.filter fun turn => turn.sessionId = id) := by
  obtain ⟨new, hcompleted, -⟩ := hg.completed
  rw [hcompleted]
  exact (List.sublist_append_left _ _).filter _

/-- what a handler knows outlasts the steps of the others -/
theorem Grows.phaseOk (hg : Grows h s s' saved saved') (hk : k ≠ h) (hok : PhaseOk s saved k phase) :
    PhaseOk s' saved' k phase := by
  cases phase with
  | idle | consolidating close | recalling text | inserting text transcript =>
    exact hg.fresh hk hok
  | marking close => exact ⟨hg.fresh hk hok.1, hok.2.imp_right (hg.passed _)⟩
  | turning text session history =>
    obtain ⟨hfresh, pre, hseen⟩ := hok
    exact ⟨hg.fresh hk hfresh, pre, hg.seenAt hseen⟩
  | saving turn session =>
    obtain ⟨hid, pre, hseen, hsublist⟩ := hok
    exact ⟨hid, pre, hg.seenAt hseen, hsublist.trans (hg.sublist _)⟩
  | replying turn => exact (hg.saved _).subset hok
  | ended => trivial

theorem PhaseOk.of_set {phase' : Phase} (hok : PhaseOk s saved h phase) :
    PhaseOk (s.set k phase') saved h phase := by
  cases phase with
  | turning text session history =>
    obtain ⟨hfresh, pre, hseen⟩ := hok
    exact ⟨hfresh, pre, hseen.known, hseen.earlier, hseen.transcript⟩
  | saving turn session =>
    obtain ⟨hid, pre, hseen, hsublist⟩ := hok
    exact ⟨hid, pre, ⟨hseen.known, hseen.earlier, hseen.transcript⟩, hsublist⟩
  | _ => exact hok

/-- a step of a handler: the rows, and where the handler stands after it -/
theorem Kept.step (hkept : Kept s saved) (hg : Grows h s s' saved saved')
    (hrows : Conversation s' saved') (hunsaved : ∀ id, s'.sessions.get id = none → saved' id = [])
    (hphase : PhaseOk s' saved' h phase) : Kept (s'.set h phase) saved' where
  transcripts := hrows.transcripts
  once := hrows.once
  order := hrows.order
  answered := hrows.answered
  consolidated := hrows.consolidated
  unsaved := hunsaved
  phases k := by
    by_cases hk : k = h
    · have hset : (s'.set h phase).handlers k = phase := if_pos hk
      rw [hset, hk]
      exact hphase.of_set
    · have hset : (s'.set h phase).handlers k = s.handlers k := by
        rw [← hg.handlers]
        exact if_neg hk
      rw [hset]
      exact (hg.phaseOk hk (hkept.phases k)).of_set

theorem completed_same (hcompleted : s'.completed = s.completed) :
    ∃ new : List Turn, s'.completed = s.completed ++ new ∧ ∀ turn ∈ new, turn.handler = h :=
  ⟨[], hcompleted.trans (List.append_nil _).symm, fun _ hturn => absurd hturn List.not_mem_nil⟩

/-- a step that moves its handler only -/
theorem Kept.set (hkept : Kept s saved) (hphase : PhaseOk s saved h phase) :
    Kept (s.set h phase) saved :=
  hkept.step ⟨fun _ hid => hid, fun _ _ => rfl, fun _ => List.prefix_refl _, completed_same rfl,
    fun _ hp => hp, rfl⟩ hkept.toConversation hkept.unsaved hphase

/-! ### the rows of a step -/

theorem activeSession_some {active : Option SessionId} {session : TelegramSession}
    (h : s.activeSession active = some (some session)) :
    s.sessions.get session.id = some session ∧ session.status = .active := by
  cases active with
  | none =>
    obtain ⟨-, h⟩ := Option.ite_none_right_eq_some.mp h
    cases h
  | some id =>
    rw [Chat.activeSession] at h
    cases hrow : s.sessions.get id with
    | none =>
      rw [hrow] at h
      cases h
    | some row =>
      rw [hrow] at h
      obtain ⟨hactive, h⟩ := Option.ite_none_right_eq_some.mp h
      cases h
      rw [Table.key_of_get hrow]
      exact ⟨hrow, hactive⟩

/-- a session as it stands -/
theorem Kept.seenAt (hkept : Kept s saved) {session : TelegramSession}
    (hrow : s.sessions.get session.id = some session) :
    SeenAt s saved session (saved session.id) where
  known := by
    rw [hrow]
    exact Option.some_ne_none _
  earlier := List.prefix_refl _
  transcript := hkept.transcripts _ _ hrow

theorem phaseOk_onText (hkept : Kept s saved) (hfresh : Fresh s h) {text : JsString} {now : Int}
    {active : Option SessionId} {session : Option TelegramSession}
    (hactive : s.activeSession active = some session) :
    PhaseOk s saved h (Chat.onText text now session) := by
  cases session with
  | none => exact hfresh
  | some session =>
    rw [Chat.onText]
    split
    · exact hfresh
    · exact ⟨hfresh, _, hkept.seenAt (activeSession_some hactive).1⟩

/-- a turn adds two entries -/
theorem length_pairs (turns : List Turn) : (turns.flatMap Turn.pair).length = 2 * turns.length := by
  induction turns with
  | nil => rfl
  | cons turn turns ih =>
    rw [List.flatMap_cons, List.length_append, ih, List.length_cons]
    show 2 + _ = _
    omega

/-- a row that is as it was read has been saved to by no one since -/
theorem SeenAt.current {session row : TelegramSession} {pre : List Turn} (hkept : Kept s saved)
    (hseen : SeenAt s saved session pre) (hrow : s.sessions.get session.id = some row)
    (hsame : row.transcript = session.transcript) : pre = saved session.id := by
  refine hseen.earlier.eq_of_length ?_
  have hlength := congrArg List.length hsame
  rw [hkept.transcripts _ _ hrow, hseen.transcript, List.length_append, List.length_append,
    length_pairs, length_pairs] at hlength
  omega

theorem joinWith_cons (separator text : JsString) (texts : List JsString) :
    ∃ rest, (joinWith separator (text :: texts)).units = text.units ++ rest := by
  cases texts with
  | nil => exact ⟨[], (List.append_nil _).symm⟩
  | cons text' texts =>
    refine ⟨separator.units ++ (joinWith separator (text' :: texts)).units, ?_⟩
    exact List.append_assoc _ _ _

/-- the text of a transcript with an entry is not blank -/
theorem eq_nil_of_blank {transcript : Transcript}
    (h : (formatTranscriptForConsolidation transcript).isBlank = true) : transcript = [] := by
  cases transcript with
  | nil => rfl
  | cons entry entries =>
    exfalso
    have hlabel : (roleLabel entry.role).units.all isSpace = false := by
      cases entry.role <;> decide
    obtain ⟨rest, hrest⟩ := joinWith_cons (lit "\n\n")
      (roleLabel entry.role ++ lit ": " ++ entry.content)
      (entries.map fun turn => roleLabel turn.role ++ lit ": " ++ turn.content)
    have hunits : (formatTranscriptForConsolidation (entry :: entries)).units
        = (roleLabel entry.role).units ++ ((lit ": ").units ++ entry.content.units) ++ rest :=
      hrest.trans (congrArg (· ++ rest) (List.append_assoc _ _ _))
    rw [isBlank, hunits, List.all_append, List.all_append, hlabel] at h
    cases h

/-! ### every step -/

theorem kept_pass (hkept : Kept s saved) (hfresh : Fresh s h) (close : Close) :
    Kept ((s.pass close.session).set h (.marking close)) saved := by
  cases hblank : (formatTranscriptForConsolidation close.session.transcript).isBlank with
  | true =>
    have hpass : s.pass close.session = s := if_pos hblank
    rw [hpass]
    exact hkept.set ⟨hfresh, Or.inl hblank⟩
  | false =>
    let text := formatTranscriptForConsolidation close.session.transcript
    have hpass : s.pass close.session
        = { s with passed := (close.session.id, text) :: s.passed } :=
      if_neg (by rw [hblank]; exact Bool.false_ne_true)
    rw [hpass]
    refine hkept.step ⟨fun _ hid => hid, fun _ _ => rfl, fun _ => List.prefix_refl _,
      completed_same rfl, fun _ hp => List.mem_cons_of_mem _ hp, rfl⟩
      ⟨hkept.transcripts, hkept.once, hkept.order, hkept.answered, ?_⟩ hkept.unsaved
      ⟨hfresh, Or.inr List.mem_cons_self⟩
    intro id row hrow hclosed
    exact (hkept.consolidated id row hrow hclosed).imp_right (List.mem_cons_of_mem _)

theorem get_markRow (s : Chat) (close : Close) (now : Int) (id : SessionId) :
    (s.markRow close now).sessions.get id = if id = close.session.id then
      (s.sessions.get close.session.id).map fun row =>
        { row with status := .consolidated, lastActivityAt := now }
    else s.sessions.get id :=
  Table.get_modify s.sessions close.session.id id
    (fun row => { row with status := .consolidated, lastActivityAt := now }) fun _ => rfl

/-- a session is closed as it was read -/
theorem kept_mark (hkept : Kept s saved) {close : Close} {row : TelegramSession} (now : Int)
    (hpassed : Passed s close.session) (hrow : s.sessions.get close.session.id = some row)
    (hsame : row.transcript = close.session.transcript)
    (hphase : PhaseOk (s.markRow close now) saved h phase) :
    Kept ((s.markRow close now).set h phase) saved := by
  have hget := get_markRow s close now
  refine hkept.step ⟨fun id hid => ?_, fun _ _ => rfl, fun _ => List.prefix_refl _,
    completed_same rfl, fun _ hp => hp, rfl⟩
    ⟨fun id row' hrow' => ?_, hkept.once, hkept.order, hkept.answered,
      fun id row' hrow' hclosed => ?_⟩ (fun id hid => ?_) hphase
  · rw [hget]
    split
    · rw [hrow]
      exact Option.some_ne_none _
    · exact hid
  · rw [hget] at hrow'
    split at hrow'
    next hid =>
      rw [hrow] at hrow'
      cases hrow'
      show row.transcript = _
      rw [hid]
      exact hkept.transcripts _ _ hrow
    next => exact hkept.transcripts _ _ hrow'
  · rw [hget] at hrow'
    split at hrow'
    next hid =>
      rw [hrow] at hrow'
      cases hrow'
      show saved id = [] ∨ (id, formatTranscriptForConsolidation row.transcript) ∈ s.passed
      rw [hid, hsame]
      refine hpassed.imp_left fun hblank => ?_
      -- nothing was passed: the transcript is empty, and so is what is saved in it
      have hnil := hkept.transcripts _ _ hrow
      rw [hsame, eq_nil_of_blank hblank] at hnil
      have hlength := congrArg List.length hnil
      rw [List.length_append, length_pairs, List.length_nil] at hlength
      exact List.length_eq_zero_iff.mp (by omega)
    next => exact hkept.consolidated _ _ hrow' hclosed
  · rw [hget] at hid
    split at hid
    next =>
      rw [hrow] at hid
      cases hid
    next => exact hkept.unsaved id hid

theorem get_saveRow (s : Chat) (turn : Turn) (session : TelegramSession) (now : Int)
    (id : SessionId) :
    (s.saveRow turn session now).sessions.get id = if id = session.id then
      (s.sessions.get session.id).map fun row =>
        { row with transcript := session.transcript ++ turn.pair, lastActivityAt := now }
    else s.sessions.get id :=
  Table.get_modify s.sessions session.id id
    (fun row => { row with
      transcript := session.transcript ++ turn.pair, lastActivityAt := now }) fun _ => rfl

/-- the turns that are saved, with one more in its session -/
def addTurn (saved : SessionId → List Turn) (turn : Turn) : SessionId → List Turn :=
  fun id => if id = turn.sessionId then saved id ++ [turn] else saved id

theorem prefix_addTurn (saved : SessionId → List Turn) (turn : Turn) (id : SessionId) :
    saved id <+: addTurn saved turn id := by
  rw [addTurn]
  split
  · exact List.prefix_append _ _
  · exact List.prefix_refl _

/-- a transcript is written to a row as it was read -/
theorem kept_save (hkept : Kept s saved) {turn : Turn} {session row : TelegramSession} (now : Int)
    (hok : PhaseOk s saved h (.saving turn session)) (hrow : s.sessions.get session.id = some row)
    (hsame : row.transcript = session.transcript) (hactive : row.status = .active)
    (hphase : PhaseOk (s.saveRow turn session now) (addTurn saved turn) h phase) :
    Kept ((s.saveRow turn session now).set h phase) (addTurn saved turn) := by
  have hget := get_saveRow s turn session now
  obtain ⟨hturn, pre, hseen, hsublist⟩ := hok
  have hcurrent := hseen.current hkept hrow hsame
  have hadded : addTurn saved turn session.id = saved session.id ++ [turn] := if_pos hturn.symm
  have hothers {id : SessionId} (hid : id ≠ session.id) : addTurn saved turn id = saved id :=
    if_neg (hturn ▸ hid)
  refine hkept.step ⟨fun id hknown => ?_, fun _ _ => rfl, prefix_addTurn saved turn,
    completed_same rfl, fun _ hp => hp, rfl⟩
    ⟨fun id row' hrow' => ?_, hkept.once, fun id => ?_, fun turn' hturn' => ?_,
      fun id row' hrow' hclosed => ?_⟩ (fun id hnone => ?_) hphase
  · rw [hget]
    split
    · rw [hrow]
      exact Option.some_ne_none _
    · exact hknown
  · rw [hget] at hrow'
    split at hrow'
    next hid =>
      rw [hrow] at hrow'
      cases hrow'
      show session.transcript ++ turn.pair = s.inserted id ++ _
      rw [hid, hadded, ← hcurrent, hseen.transcript, List.flatMap_append, List.flatMap_singleton,
        List.append_assoc]
    next hid =>
      rw [hothers hid]
      exact hkept.transcripts _ _ hrow'
  · by_cases hid : id = session.id
    · rw [hid, hadded, ← hcurrent]
      exact hsublist
    · rw [hothers hid]
      exact hkept.order id
  · exact (prefix_addTurn saved turn _).subset (hkept.answered turn' hturn')
  · rw [hget] at hrow'
    split at hrow'
    next =>
      -- the row is active
      rw [hrow] at hrow'
      cases hrow'
      cases hactive.symm.trans hclosed
    next hid =>
      rw [hothers hid]
      exact hkept.consolidated _ _ hrow' hclosed
  · rw [hget] at hnone
    split at hnone
    next =>
      rw [hrow] at hnone
      cases hnone
    next hid =>
      rw [hothers hid]
      exact hkept.unsaved id hnone

/-- a new session starts without turns -/
theorem kept_insert (hkept : Kept s saved) {row : TelegramSession} (hactive : row.status = .active)
    (hinsert : s.insertRow row = some s')
    (hphase : s'.sessions.get row.id = some row → s'.inserted row.id = row.transcript →
      PhaseOk s' saved h phase) : Kept (s'.set h phase) saved := by
  obtain ⟨sessions, hsessions, rfl⟩ := Option.map_eq_some_iff.mp hinsert
  have hget (id : SessionId) := Table.get_insert hsessions id
  have hnone : saved row.id = [] := hkept.unsaved _ (hget row.id).1
  have hold {id : SessionId} (hknown : s.sessions.get id ≠ none) : id ≠ row.id :=
    fun hid => hknown (hid ▸ (hget row.id).1)
  refine hkept.step ⟨fun id hknown => ?_, fun id hknown => if_neg (hold hknown),
    fun _ => List.prefix_refl _, completed_same rfl, fun _ hp => hp, rfl⟩
    ⟨fun id row' hrow' => ?_, hkept.once, hkept.order, hkept.answered,
      fun id row' hrow' hclosed => ?_⟩ (fun id hid => ?_) (hphase ?_ (if_pos rfl))
  · rw [(hget id).2, if_neg (hold hknown)]
    exact hknown
  · show row'.transcript = (if id = row.id then row.transcript else s.inserted id) ++ _
    rw [(hget id).2] at hrow'
    split at hrow'
    next hid =>
      cases hrow'
      rw [if_pos hid, hid, hnone]
      exact (List.append_nil _).symm
    next hid =>
      rw [if_neg hid]
      exact hkept.transcripts _ _ hrow'
  · rw [(hget id).2] at hrow'
    split at hrow'
    next =>
      cases hrow'
      cases hactive.symm.trans hclosed
    next => exact hkept.consolidated _ _ hrow' hclosed
  · rw [(hget id).2] at hid
    split at hid
    next => cases hid
    next => exact hkept.unsaved id hid
  · rw [(hget row.id).2, if_pos rfl]

/-- a turn begins in a session that was just inserted -/
theorem phaseOk_beginTurn (hfresh : Fresh s h) {row : TelegramSession} {text : JsString}
    (hinsert : s.insertRow row = some s') (hrow : s'.sessions.get row.id = some row)
    (hinserted : s'.inserted row.id = row.transcript) :
    PhaseOk s' saved h (Chat.beginTurn text row) := by
  refine ⟨?_, [], ?_, List.nil_prefix, ?_⟩
  · obtain ⟨sessions, -, rfl⟩ := Option.map_eq_some_iff.mp hinsert
    exact hfresh
  · rw [hrow]
    exact Option.some_ne_none _
  · rw [hinserted]
    exact (List.append_nil _).symm

/-- a turn completes after all that its handler has seen -/
theorem kept_turn (hkept : Kept s saved) {text response : JsString} {session : TelegramSession}
    {pre : List Turn} (hfresh : Fresh s h) (hseen : SeenAt s saved session pre) :
    Kept (Chat.set { s with completed := s.completed ++ [⟨h, session.id, text, response⟩] } h
      (.saving ⟨h, session.id, text, response⟩ session)) saved := by
  let turn : Turn := ⟨h, session.id, text, response⟩
  refine hkept.step ⟨fun _ hid => hid, fun _ _ => rfl, fun _ => List.prefix_refl _,
    ⟨[turn], rfl, fun t ht => ?_⟩, fun _ hp => hp, rfl⟩
    ⟨hkept.transcripts, ?_, fun id => ?_, hkept.answered, hkept.consolidated⟩ hkept.unsaved
    ⟨rfl, pre, ⟨hseen.known, hseen.earlier, hseen.transcript⟩, ?_⟩
  · rw [List.mem_singleton.mp ht]
  · refine List.nodup_append.mpr ⟨hkept.once, List.nodup_singleton _, fun a ha b hb hab => ?_⟩
    rw [List.mem_singleton.mp hb] at hab
    exact hfresh a ha (congrArg Turn.handler hab)
  · exact (hkept.order id).trans ((List.sublist_append_left _ _).filter _)
  · show (pre ++ [turn]).Sublist ((s.completed ++ [turn]).filter fun t => t.sessionId = session.id)
    rw [List.filter_append, List.filter_singleton, decide_eq_true rfl]
    exact (hseen.earlier.sublist.trans (hkept.order _)).append_right _

theorem kept_reply (hkept : Kept s saved) {turn : Turn} (hsaved : turn ∈ saved turn.sessionId)
    (sent : Bool) :
    Kept (Chat.set { s with answered := if sent then s.answered ++ [turn] else s.answered } h .ended)
      saved := by
  refine hkept.step ⟨fun _ hid => hid, fun _ _ => rfl, fun _ => List.prefix_refl _,
    completed_same rfl, fun _ hp => hp, rfl⟩
    ⟨hkept.transcripts, hkept.once, hkept.order, fun t ht => ?_, hkept.consolidated⟩ hkept.unsaved
    trivial
  cases sent with
  | false => exact hkept.answered t ht
  | true =>
    rcases List.mem_append.mp ht with ht | ht
    · exact hkept.answered t ht
    · rw [List.mem_singleton.mp ht]
      exact hsaved

theorem Kept.phaseOk (hkept : Kept s saved) (hphase : s.handlers h = phase) :
    PhaseOk s saved h phase := by
  rw [← hphase]
  exact hkept.phases h

/-- only an update that takes effect changes a row, and only one that is answered goes on -/
theorem kept_fate (hkept : Kept s saved) {fate : Fate} {updated : Chat} {next : Phase}
    (hupdated : fate.applies = true → ∀ phase, phase = next ∨ phase = .ended →
      ∃ saved', Kept (updated.set h phase) saved') :
    ∃ saved', Kept ((if fate.applies then updated else s).set h
      (if fate = .ok then next else .ended)) saved' := by
  cases fate with
  | ok => exact hupdated rfl next (Or.inl rfl)
  | lost => exact ⟨saved, hkept.set trivial⟩
  | applied => exact hupdated rfl .ended (Or.inr rfl)

theorem kept_read (hkept : Kept s saved) {active : Option SessionId}
    {next : Option TelegramSession → Phase}
    (hnext : ∀ session, s.activeSession active = some session →
      PhaseOk s saved h (next session))
    (hstep : ((s.activeSession active).map fun session => s.set h (next session)) = some s') :
    Kept s' saved := by
  obtain ⟨session, hactive, rfl⟩ := Option.map_eq_some_iff.mp hstep
  exact hkept.set (hnext session hactive)

theorem phaseOk_onEndSession (hfresh : Fresh s h) (session : Option TelegramSession) :
    PhaseOk s saved h (Chat.onEndSession session) := by
  cases session with
  | none => trivial
  | some session => exact hfresh

theorem phaseOk_onCheckInactivity (hfresh : Fresh s h) (now : Int)
    (session : Option TelegramSession) :
    PhaseOk s saved h (Chat.onCheckInactivity now session) := by
  cases session with
  | none => trivial
  | some session =>
    rw [Chat.onCheckInactivity]
    split
    · exact hfresh
    · trivial

theorem phaseOk_afterMark (hfresh : Fresh s h) (close : Close) :
    PhaseOk s saved h (Chat.afterMark close) := by
  rw [Chat.afterMark]
  split
  · exact hfresh
  · trivial

end

/-- every step of a handler that writes what it has read -/
theorem kept_step {s s' : Chat} {saved : SessionId → List Turn} {a : Action} (hkept : Kept s saved)
    (hunraced : Unraced s a) (hstep : s.step a = some s') : ∃ saved', Kept s' saved' := by
  cases a with
  | message h enabled text active now =>
    rw [Chat.step] at hstep
    split at hstep
    next hidle =>
      split at hstep
      next =>
        cases hstep
        exact ⟨saved, hkept.set trivial⟩
      next =>
        have hfresh : Fresh s h := hkept.phaseOk hidle
        exact ⟨saved, kept_read hkept (fun _ => phaseOk_onText hkept hfresh) hstep⟩
    next => cases hstep
  | endSession h active =>
    rw [Chat.step] at hstep
    split at hstep
    next hidle =>
      have hfresh : Fresh s h := hkept.phaseOk hidle
      exact ⟨saved, kept_read hkept (fun session _ => phaseOk_onEndSession hfresh session)
        hstep⟩
    next => cases hstep
  | checkInactivity h active now =>
    rw [Chat.step] at hstep
    split at hstep
    next hidle =>
      have hfresh : Fresh s h := hkept.phaseOk hidle
      exact ⟨saved, kept_read hkept
        (fun session _ => phaseOk_onCheckInactivity hfresh now session) hstep⟩
    next => cases hstep
  | consolidate h =>
    rw [Chat.step] at hstep
    split at hstep
    next close hphase =>
      cases hstep
      exact ⟨saved, kept_pass hkept (hkept.phaseOk hphase) close⟩
    next => cases hstep
  | mark h fate now =>
    rw [Chat.step] at hstep
    split at hstep
    next close hphase =>
      cases hstep
      obtain ⟨hfresh, hpassed⟩ := hkept.phaseOk hphase
      refine kept_fate hkept fun happlies phase hnext => ?_
      obtain ⟨row, hrow, hsame⟩ := hunraced close hphase happlies
      refine ⟨saved, kept_mark hkept now hpassed hrow hsame ?_⟩
      rcases hnext with rfl | rfl
      · have hfresh' : Fresh (s.markRow close now) h := hfresh
        exact phaseOk_afterMark hfresh' close
      · trivial
    next => cases hstep
  | recallMemories h memories =>
    rw [Chat.step] at hstep
    split at hstep
    next text hphase =>
      cases hstep
      have hfresh : Fresh s h := hkept.phaseOk hphase
      exact ⟨saved, hkept.set hfresh⟩
    next => cases hstep
  | insert h id fate now =>
    rw [Chat.step] at hstep
    split at hstep
    next text transcript hphase =>
      obtain ⟨t, ht, rfl⟩ := Option.map_eq_some_iff.mp hstep
      have hfresh : Fresh s h := hkept.phaseOk hphase
      cases fate with
      | ok => exact ⟨saved, kept_insert hkept rfl ht (phaseOk_beginTurn hfresh ht)⟩
      | lost =>
        cases ht
        exact ⟨saved, hkept.set trivial⟩
      | applied => exact ⟨saved, kept_insert hkept rfl ht fun _ _ => trivial⟩
    next => cases hstep
  | turn h response =>
    rw [Chat.step] at hstep
    split at hstep
    next text session history hphase =>
      obtain ⟨hfresh, pre, hseen⟩ := hkept.phaseOk hphase
      cases response with
      | none =>
        cases hstep
        exact ⟨saved, hkept.set trivial⟩
      | some response =>
        cases hstep
        exact ⟨saved, kept_turn hkept hfresh hseen⟩
    next => cases hstep
  | save h fate now =>
    rw [Chat.step] at hstep
    split at hstep
    next turn session hphase =>
      cases hstep
      have hok := hkept.phaseOk hphase
      refine kept_fate hkept fun happlies phase hnext => ?_
      obtain ⟨row, hrow, hsame, hactive⟩ := hunraced turn session hphase happlies
      refine ⟨addTurn saved turn, kept_save hkept now hok hrow hsame hactive ?_⟩
      rcases hnext with rfl | rfl
      · show turn ∈ addTurn saved turn turn.sessionId
        rw [addTurn, if_pos rfl]
        exact List.mem_append_right _ (List.mem_singleton_self _)
      · trivial
    next => cases hstep
  | reply h sent =>
    rw [Chat.step] at hstep
    split at hstep
    next turn hphase =>
      cases hstep
      exact ⟨saved, kept_reply hkept (hkept.phaseOk hphase) sent⟩
    next => cases hstep

theorem kept_empty : Kept .empty fun _ => [] where
  transcripts := fun _ _ hrow => by cases hrow
  once := List.nodup_nil
  order := fun _ => List.nil_sublist _
  answered := fun _ hturn => absurd hturn List.not_mem_nil
  consolidated := fun _ _ _ _ => Or.inl rfl
  unsaved := fun _ _ => rfl
  phases := fun _ _ hturn => absurd hturn List.not_mem_nil

/-- the conversation is kept along every run in which the rows are written as they were read -/
theorem conversation_kept (actions : List Action) {s : Chat}
    (hunraced : Runs.Guarded Chat.step Unraced .empty actions)
    (hrun : Runs.run Chat.step .empty actions = some s) : ConversationKept s := by
  have hkept : ∃ saved, Kept s saved :=
    Runs.run_inv_guarded (P := fun s => ∃ saved, Kept s saved)
      (fun _ _ _ ⟨_, hkept⟩ hunraced hstep => kept_step hkept hunraced hstep)
      actions .empty s ⟨_, kept_empty⟩ hunraced hrun
  obtain ⟨saved, hkept⟩ := hkept
  exact ⟨saved, hkept.toConversation⟩

/-- a check of `Unraced` that can be evaluated -/
def unracedCheck (s : Chat) : Action → Bool
  | .save h _ _ =>
    match s.handlers h with
    | .saving _ session => (s.sessions.get session.id).any fun row =>
        decide (row.transcript = session.transcript) && decide (row.status = .active)
    | _ => true
  | .mark h _ _ =>
    match s.handlers h with
    | .marking close => (s.sessions.get close.session.id).any fun row =>
        decide (row.transcript = close.session.transcript)
    | _ => true
  | _ => true

theorem unraced_of_check {s : Chat} {a : Action} (h : unracedCheck s a = true) : Unraced s a := by
  cases a with
  | save k fate now =>
    intro turn session hphase _
    rw [unracedCheck, hphase] at h
    obtain ⟨row, hrow, hread⟩ := (Option.any_eq_true _ _).mp h
    rw [Bool.and_eq_true, decide_eq_true_eq, decide_eq_true_eq] at hread
    exact ⟨row, hrow, hread⟩
  | mark k fate now =>
    intro close hphase _
    rw [unracedCheck, hphase] at h
    obtain ⟨row, hrow, hread⟩ := (Option.any_eq_true _ _).mp h
    exact ⟨row, hrow, of_decide_eq_true hread⟩
  | _ => trivial

/-- a message that starts a session, with its turn -/
def oneTurn : List Action :=
  [.message 0 true (lit "hola") none 0, .recallMemories 0 none, .insert 0 (lit "s1") .ok 1,
    .turn 0 (some (lit "r0")), .save 0 .ok 2, .reply 0 true]

theorem conversation_kept_oneTurn :
    ∃ s, Runs.run Chat.step .empty oneTurn = some s ∧ ConversationKept s := by
  have hrun : (Runs.run Chat.step .empty oneTurn).isSome = true := by decide
  obtain ⟨s, hs⟩ := Option.isSome_iff_exists.mp hrun
  exact ⟨s, hs, conversation_kept oneTurn
    (Runs.guarded_of_checkAll (fun _ _ => unraced_of_check) _ _ (by decide)) hs⟩

/-- two messages whose turns overlap -/
def overlapping : List Action :=
  [.message 1 true (lit "uno") (some (lit "s1")) 3, .message 2 true (lit "dos") (some (lit "s1")) 4,
    .turn 1 (some (lit "r1")), .turn 2 (some (lit "r2")), .save 1 .ok 5, .save 2 .ok 6,
    .reply 1 true, .reply 2 true]

def overlappingTurns : List Turn :=
  [⟨0, lit "s1", lit "hola", lit "r0"⟩, ⟨1, lit "s1", lit "uno", lit "r1"⟩,
    ⟨2, lit "s1", lit "dos", lit "r2"⟩]

/-- three turns are answered, and the row has two of them -/
theorem conversation_lost : ∃ s, Runs.run Chat.step .empty (oneTurn ++ overlapping) = some s ∧
    s.answered = overlappingTurns ∧ ¬ ConversationKept s := by
  have hrun : (Runs.run Chat.step .empty (oneTurn ++ overlapping)).map (fun s =>
      (s.answered, (s.sessions.get (lit "s1")).map fun row => row.transcript.length))
        = some (overlappingTurns, some 4) := by decide
  obtain ⟨s, hs, hpair⟩ := Option.map_eq_some_iff.mp hrun
  rw [Prod.mk.injEq] at hpair
  obtain ⟨hanswered, hrow⟩ := hpair
  obtain ⟨row, hrow, hlength⟩ := Option.map_eq_some_iff.mp hrow
  refine ⟨s, hs, hanswered, fun ⟨saved, hkept⟩ => ?_⟩
  have hnodup : overlappingTurns.Nodup := by decide
  have hsession : ∀ turn ∈ overlappingTurns, turn.sessionId = lit "s1" := by decide
  have hsaved : overlappingTurns ⊆ saved (lit "s1") := by
    intro turn hturn
    rw [← hsession turn hturn]
    exact hkept.answered turn (hanswered ▸ hturn)
  have hthree : 3 ≤ (saved (lit "s1")).length := hnodup.length_le_of_subset hsaved
  rw [hkept.transcripts _ _ hrow, List.length_append, length_pairs] at hlength
  omega

end Telegram
