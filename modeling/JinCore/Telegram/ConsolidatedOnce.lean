import JinCore.Telegram.Consolidation
import JinCore.Telegram.Conversation

/-!
# A session is consolidated once

* `MemorisedOnce`   a session that is closed has left one distillation of its transcript in the memory;
* `OneClose`        the condition on a step;
* `Once`            the invariant: `Once.chat` is a step of the chat;
* `memorised_once`, `memorised_in_part_and_twice`.
-/

namespace Telegram
open JsString Common Closing Runs

section
variable {ν : Type}

/-- the handler is in a close of the session -/
def Closes (s : Closing ν) (h : HandlerId) (id : SessionId) : Prop :=
  ∃ close, (s.chat.handlers h = .consolidating close ∨ s.chat.handlers h = .marking close)
    ∧ close.session.id = id

/-- the handler is in the loop over the candidates of a close of the session -/
def Stores (s : Closing ν) (h : HandlerId) (id : SessionId) : Prop :=
  ∃ close candidates rest, s.chat.handlers h = .consolidating close ∧ close.session.id = id
    ∧ s.progress h = .storing candidates rest

def textOf (session : TelegramSession) : JsString :=
  formatTranscriptForConsolidation session.transcript

/-- A session that is closed, and that no handler is closing, has nothing in the memory if its transcript
is blank, and what one distillation of its transcript gave otherwise. -/
def MemorisedOnce (s : Closing ν) : Prop :=
  ∀ id row, s.chat.sessions.get id = some row → row.status = .consolidated →
    (∀ h, ¬ Closes s h id) →
    if (textOf row).isBlank then s.entriesOf id = []
    else ⟨id, textOf row, s.entriesOf id⟩ ∈ s.distillations

/-- A close distils while nothing of its session is in the memory and no other close of it stores
entries; the distillation, the embeddings and the inserts succeed; the compaction of a turn distils
nothing; and a transcript is written to an active session that no handler is closing. -/
def OneClose (s : Closing ν) : ClosingAction ν → Prop
  | .distill h answer => answer ≠ none ∧ ∀ close, s.chat.handlers h = .consolidating close →
      s.entriesOf close.session.id = [] ∧ ∀ k, k ≠ h → ¬ Stores s k close.session.id
  | .compact _ _ answer => ∀ candidates, answer = some candidates → candidates = []
  | .remember _ embedding stored _ => embedding ≠ none ∧ stored = true
  | .chat (.save h fate _) => ∀ turn session, s.chat.handlers h = .saving turn session →
      fate.applies = true →
      (∀ row, s.chat.sessions.get session.id = some row → row.status = .active)
        ∧ ∀ k, ¬ Closes s k session.id
  | _ => True

/-! ## the invariant -/

/-- the memory holds one distillation of the text for the session -/
def Settled (s : Closing ν) (id : SessionId) (text : JsString) : Prop :=
  ⟨id, text, s.entriesOf id⟩ ∈ s.distillations

/-- it does, or a close of the session is about it -/
def Settling (s : Closing ν) (id : SessionId) (text : JsString) : Prop :=
  Settled s id text ∨ ∃ k, Stores s k id

/-- what a handler in the loop of a close knows -/
structure StoreOk (s : Closing ν) (h : HandlerId) (close : Close)
    (candidates rest : List DistilledEntry) : Prop where
  text : (fullTranscript close).isBlank = false
  distilled : ⟨close.session.id, fullTranscript close, candidates⟩ ∈ s.distillations
  entries : s.entriesOf close.session.id ++ rest = candidates
  alone : ∀ k, k ≠ h → ¬ Stores s k close.session.id

structure Once (s : Closing ν) : Prop where
  memory : ∃ inserts, Memory.Holds s.memory inserts
  unknown : ∀ id, s.chat.sessions.get id = none → s.entriesOf id = []
  blank : ∀ id row, s.chat.sessions.get id = some row → (textOf row).isBlank = true →
    s.entriesOf id = []
  /-- a close has its session as it stands -/
  current : ∀ h close,
    (s.chat.handlers h = .consolidating close ∨ s.chat.handlers h = .marking close) →
    ∃ row, s.chat.sessions.get close.session.id = some row ∧ row.transcript = close.session.transcript
  stores : ∀ h close candidates rest, s.chat.handlers h = .consolidating close →
    s.progress h = .storing candidates rest → StoreOk s h close candidates rest
  unfailed : ∀ h close, s.chat.handlers h = .consolidating close → s.progress h ≠ .failed
  marking : ∀ h close, s.chat.handlers h = .marking close → (fullTranscript close).isBlank = false →
    Settling s close.session.id (fullTranscript close)
  closed : ∀ id row, s.chat.sessions.get id = some row → row.status = .consolidated →
    (textOf row).isBlank = false → Settling s id (textOf row)
  turning : ∀ h text session history, s.chat.handlers h = .turning text session history →
    ∀ candidates rest, s.progress h = .storing candidates rest → rest = []
  resting : ∀ h, sessionOf (s.chat.handlers h) = none → s.progress h = .idle

variable {s s' : Closing ν} {h k : HandlerId} {id : SessionId}

theorem closes_of_stores (hs : Stores s h id) : Closes s h id := by
  obtain ⟨close, _, _, hphase, hid, -⟩ := hs
  exact ⟨close, Or.inl hphase, hid⟩

theorem not_stores_idle (hidle : s.progress h = .idle) : ¬ Stores s h id := by
  rintro ⟨close, candidates, rest, -, -, hprogress⟩
  rw [hidle] at hprogress
  cases hprogress

theorem not_closes_of_none (hinv : Once s) (hnone : s.chat.sessions.get id = none) : ¬ Closes s h id := by
  rintro ⟨close, hphase, rfl⟩
  obtain ⟨row, hrow, -⟩ := hinv.current h close hphase
  rw [hnone] at hrow
  cases hrow

/-! ## a step of the chat -/

/-- what a step of the handler `h` does to the rows: it closes one, or it writes or inserts one that is
active and that no handler is closing -/
structure RowsMove (s : Closing ν) (h : HandlerId) (chat : Chat) : Prop where
  known : ∀ id, chat.sessions.get id = none → s.chat.sessions.get id = none
  rows : ∀ id row', chat.sessions.get id = some row' →
    (∃ row, s.chat.sessions.get id = some row ∧ row'.transcript = row.transcript ∧
      (row'.status = .consolidated → row.status = .consolidated ∨
        ∃ close, s.chat.handlers h = .marking close ∧ close.session.id = id)) ∨
    (row'.status = .active ∧ ((textOf row').isBlank = true → s.entriesOf id = []) ∧
      ∀ k, ¬ Closes s k id)

theorem rowsMove_same {chat : Chat} (hsessions : chat.sessions = s.chat.sessions) :
    RowsMove s h chat where
  known id hid := by
    rw [← hsessions]
    exact hid
  rows id row' hrow' := by
    rw [hsessions] at hrow'
    exact Or.inl ⟨row', hrow', rfl, Or.inl⟩

/-- what the handler knows after its step -/
structure PhaseAfter (s : Closing ν) (h : HandlerId) (chat : Chat) : Prop where
  current : ∀ close,
    (chat.handlers h = .consolidating close ∨ chat.handlers h = .marking close) →
    ∃ row, chat.sessions.get close.session.id = some row ∧ row.transcript = close.session.transcript
  marking : ∀ close, chat.handlers h = .marking close → (fullTranscript close).isBlank = false →
    Settled s close.session.id (fullTranscript close) ∨ ∃ k, k ≠ h ∧ Stores s k close.session.id

theorem phaseAfter_of_not {chat : Chat}
    (hnot : ∀ close, chat.handlers h ≠ .consolidating close ∧ chat.handlers h ≠ .marking close) :
    PhaseAfter s h chat where
  current close hphase := by
    rcases hphase with hphase | hphase
    · exact absurd hphase (hnot close).1
    · exact absurd hphase (hnot close).2
  marking close hphase := absurd hphase (hnot close).2

/-- A step of the chat: the memory stays, the handler is out of `consolidate` after it, and a close that
leaves the loop has stored all its candidates. -/
theorem Once.chat (hinv : Once s) {chat : Chat}
    (hothers : ∀ k, k ≠ h → chat.handlers k = s.chat.handlers k)
    (hrows : RowsMove s h chat) (hphase : PhaseAfter s h chat)
    (hleaves : ∀ id row, s.chat.sessions.get id = some row → Stores s h id → Settled s id (textOf row)) :
    Once ({ s with chat := chat }.setProgress h .idle) := by
  have hself : ({ s with chat := chat }.setProgress h .idle).progress h = .idle := if_pos rfl
  have hprogress : ∀ k, k ≠ h →
      ({ s with chat := chat }.setProgress h .idle).progress k = s.progress k := fun k hk => if_neg hk
  have hstores : ∀ {k id}, Stores ({ s with chat := chat }.setProgress h .idle) k id ↔
      k ≠ h ∧ Stores s k id := by
    intro k id
    constructor
    · rintro ⟨close, candidates, rest, hk, hid, hp⟩
      have hkh : k ≠ h := by
        rintro rfl
        rw [hself] at hp
        cases hp
      exact ⟨hkh, close, candidates, rest, (hothers k hkh).symm.trans hk, hid,
        (hprogress k hkh).symm.trans hp⟩
    · rintro ⟨hkh, close, candidates, rest, hk, hid, hp⟩
      exact ⟨close, candidates, rest, (hothers k hkh).trans hk, hid, (hprogress k hkh).trans hp⟩
  -- what was settling still is
  have hsettling : ∀ {id row}, s.chat.sessions.get id = some row → Settling s id (textOf row) →
      Settling ({ s with chat := chat }.setProgress h .idle) id (textOf row) := by
    intro id row hrow hs
    rcases hs with hs | ⟨k, hk⟩
    · exact Or.inl hs
    · by_cases hkh : k = h
      · rw [hkh] at hk
        exact Or.inl (hleaves id row hrow hk)
      · exact Or.inr ⟨k, hstores.mpr ⟨hkh, hk⟩⟩
  refine ⟨hinv.memory, fun id hid => hinv.unknown id (hrows.known id hid), ?_, ?_, ?_, ?_, ?_, ?_, ?_, ?_⟩
  · -- blank
    intro id row' hrow' hblank
    rcases hrows.rows id row' hrow' with ⟨row, hrow, htext, -⟩ | ⟨-, hempty, -⟩
    · refine hinv.blank id row hrow ?_
      rw [textOf, ← htext]
      exact hblank
    · exact hempty hblank
  · -- current
    intro k close hk
    by_cases hkh : k = h
    · subst hkh
      exact hphase.current close hk
    · have hk' : s.chat.handlers k = .consolidating close ∨ s.chat.handlers k = .marking close := by
        rw [← hothers k hkh]
        exact hk
      obtain ⟨row, hrow, htext⟩ := hinv.current k close hk'
      cases hget : chat.sessions.get close.session.id with
      | none =>
        rw [hrows.known _ hget] at hrow
        cases hrow
      | some row' =>
        rcases hrows.rows _ row' hget with ⟨row₀, hrow₀, htext₀, -⟩ | ⟨-, -, hnone⟩
        · rw [hrow] at hrow₀
          cases hrow₀
          exact ⟨row', hget, htext₀.trans htext⟩
        · exact absurd ⟨close, hk', rfl⟩ (hnone k)
  · -- stores
    intro k close candidates rest hk hp
    have hkh : k ≠ h := by
      rintro rfl
      rw [hself] at hp
      cases hp
    have hok := hinv.stores k close candidates rest ((hothers k hkh).symm.trans hk)
      ((hprogress k hkh).symm.trans hp)
    exact ⟨hok.text, hok.distilled, hok.entries, fun j hj hstore => hok.alone j hj (hstores.mp hstore).2⟩
  · -- unfailed
    intro k close hk hp
    by_cases hkh : k = h
    · rw [hkh, hself] at hp
      cases hp
    · exact hinv.unfailed k close ((hothers k hkh).symm.trans hk) ((hprogress k hkh).symm.trans hp)
  · -- marking
    intro k close hk hnonblank
    by_cases hkh : k = h
    · subst hkh
      rcases hphase.marking close hk hnonblank with hs | ⟨j, hj, hstore⟩
      · exact Or.inl hs
      · exact Or.inr ⟨j, hstores.mpr ⟨hj, hstore⟩⟩
    · have hk' := (hothers k hkh).symm.trans hk
      obtain ⟨row, hrow, htext⟩ := hinv.current k close (Or.inr hk')
      have hfull : fullTranscript close = textOf row := by
        unfold fullTranscript textOf
        rw [htext]
      rw [hfull] at hnonblank ⊢
      refine hsettling hrow ?_
      have hmarking := hinv.marking k close hk'
      rw [hfull] at hmarking
      exact hmarking hnonblank
  · -- closed
    intro id row' hrow' hclosed hnonblank
    rcases hrows.rows id row' hrow' with ⟨row, hrow, htext, hstatus⟩ | ⟨hactive, -⟩
    · have htextOf : textOf row' = textOf row := by
        unfold textOf
        rw [htext]
      rw [htextOf] at hnonblank ⊢
      refine hsettling hrow ?_
      rcases hstatus hclosed with hclosed | ⟨close, hmark, rfl⟩
      · exact hinv.closed id row hrow hclosed hnonblank
      · obtain ⟨row₀, hrow₀, htext₀⟩ := hinv.current h close (Or.inr hmark)
        rw [hrow] at hrow₀
        cases hrow₀
        have hfull : fullTranscript close = textOf row := by
          unfold fullTranscript textOf
          rw [htext₀]
        have hmarking := hinv.marking h close hmark
        rw [hfull] at hmarking
        exact hmarking hnonblank
    · cases hactive.symm.trans hclosed
  · -- turning
    intro k text session history hk candidates rest hp
    have hkh : k ≠ h := by
      rintro rfl
      rw [hself] at hp
      cases hp
    exact hinv.turning k text session history ((hothers k hkh).symm.trans hk) candidates rest
      ((hprogress k hkh).symm.trans hp)
  · -- resting
    intro k hk
    by_cases hkh : k = h
    · rw [hkh]
      exact hself
    · rw [hprogress k hkh]
      refine hinv.resting k ?_
      rw [← hothers k hkh]
      exact hk

theorem setProgress_idle (hidle : s.progress h = .idle) : s.setProgress h .idle = s := by
  have hsame : (fun k => if k = h then Progress.idle else s.progress k) = s.progress := by
    funext k
    split
    next hk => rw [hk, hidle]
    next => rfl
  show { s with progress := _ } = s
  rw [hsame]

/-- a step of a handler that is not in `consolidate` -/
theorem Once.chat_resting (hinv : Once s) {chat : Chat} (hrest : sessionOf (s.chat.handlers h) = none)
    (hothers : ∀ k, k ≠ h → chat.handlers k = s.chat.handlers k)
    (hrows : RowsMove s h chat) (hphase : PhaseAfter s h chat) : Once { s with chat := chat } := by
  have hidle := hinv.resting h hrest
  have hafter := hinv.chat hothers hrows hphase fun id row _ hstore =>
    absurd hstore (not_stores_idle hidle)
  have hsame : ({ s with chat := chat } : Closing ν).setProgress h .idle = { s with chat := chat } :=
    setProgress_idle (s := { s with chat := chat }) hidle
  rw [hsame] at hafter
  exact hafter

theorem handlers_set_other {c : Chat} (hk : k ≠ h) (phase : Phase) :
    (c.set h phase).handlers k = c.handlers k := if_neg hk

theorem handlers_set_self (c : Chat) (h : HandlerId) (phase : Phase) :
    (c.set h phase).handlers h = phase := if_pos rfl

theorem phaseAfter_set {c : Chat} {phase : Phase}
    (hnot : ∀ close, phase ≠ .consolidating close ∧ phase ≠ .marking close) :
    PhaseAfter s h (c.set h phase) := by
  refine phaseAfter_of_not fun close => ?_
  rw [handlers_set_self]
  exact hnot close

/-! ### the handlers -/

/-- a handler reads the active session and goes on with it -/
theorem once_read (hinv : Once s) (hrest : sessionOf (s.chat.handlers h) = none)
    {active : Option SessionId} {next : Option TelegramSession → Phase} {chat : Chat}
    (hclose : ∀ session close, next session = .consolidating close → session = some close.session)
    (hmark : ∀ session close, next session ≠ .marking close)
    (hstep : ((s.chat.activeSession active).map fun session => s.chat.set h (next session))
      = some chat) : Once { s with chat := chat } := by
  obtain ⟨session, hactive, rfl⟩ := Option.map_eq_some_iff.mp hstep
  refine hinv.chat_resting hrest (fun k hk => handlers_set_other hk _) (rowsMove_same rfl) ⟨?_, ?_⟩
  · intro close hphase
    rw [handlers_set_self] at hphase
    have hphase := hphase.resolve_right (hmark session close)
    obtain rfl := hclose session close hphase
    exact ⟨close.session, (activeSession_some hactive).1, rfl⟩
  · intro close hphase
    rw [handlers_set_self] at hphase
    exact absurd hphase (hmark session close)

theorem onText_consolidating {text : JsString} {now : Int} {session : Option TelegramSession}
    {close : Close} (h : Chat.onText text now session = .consolidating close) :
    session = some close.session := by
  cases session with
  | none => cases h
  | some session =>
    rw [Chat.onText] at h
    split at h
    · cases h
      rfl
    · cases h

theorem onText_not_marking (text : JsString) (now : Int) (session : Option TelegramSession)
    (close : Close) : Chat.onText text now session ≠ .marking close := by
  intro h
  cases session with
  | none => cases h
  | some session =>
    rw [Chat.onText] at h
    split at h <;> cases h

theorem onCheckInactivity_consolidating {now : Int} {session : Option TelegramSession} {close : Close}
    (h : Chat.onCheckInactivity now session = .consolidating close) : session = some close.session := by
  cases session with
  | none => cases h
  | some session =>
    rw [Chat.onCheckInactivity] at h
    split at h
    · cases h
      rfl
    · cases h

theorem onCheckInactivity_not_marking (now : Int) (session : Option TelegramSession) (close : Close) :
    Chat.onCheckInactivity now session ≠ .marking close := by
  intro h
  cases session with
  | none => cases h
  | some session =>
    rw [Chat.onCheckInactivity] at h
    split at h <;> cases h

theorem afterMark_not (close close' : Close) :
    Chat.afterMark close ≠ .consolidating close' ∧ Chat.afterMark close ≠ .marking close' := by
  unfold Chat.afterMark
  constructor
  · intro h
    split at h <;> cases h
  · intro h
    split at h <;> cases h

/-- the rows after the update of a status -/
theorem rowsMove_mark {close : Close} (hphase : s.chat.handlers h = .marking close) (now : Int)
    (phase : Phase) : RowsMove s h ((s.chat.markRow close now).set h phase) where
  known id hid := by
    have hget := get_markRow s.chat close now id
    rw [show ((s.chat.markRow close now).set h phase).sessions = (s.chat.markRow close now).sessions
      from rfl, hget] at hid
    split at hid
    next heq =>
      rw [heq]
      exact Option.map_eq_none_iff.mp hid
    next => exact hid
  rows id row' hrow' := by
    have hget := get_markRow s.chat close now id
    rw [show ((s.chat.markRow close now).set h phase).sessions = (s.chat.markRow close now).sessions
      from rfl, hget] at hrow'
    refine Or.inl ?_
    split at hrow'
    next heq =>
      obtain ⟨row, hrow, rfl⟩ := Option.map_eq_some_iff.mp hrow'
      exact ⟨row, heq ▸ hrow, rfl, fun _ => Or.inr ⟨close, hphase, heq.symm⟩⟩
    next => exact ⟨row', hrow', rfl, Or.inl⟩

/-- the text of a transcript with an entry -/
theorem not_blank_of_ne_nil {transcript : Transcript} (hne : transcript ≠ []) :
    (formatTranscriptForConsolidation transcript).isBlank = false := by
  cases hblank : (formatTranscriptForConsolidation transcript).isBlank with
  | false => rfl
  | true => exact absurd (eq_nil_of_blank hblank) hne

/-- the rows after a transcript is written to an active session that no handler is closing -/
theorem rowsMove_save {turn : Turn} {session : TelegramSession} (now : Int) (phase : Phase)
    (hactive : ∀ row, s.chat.sessions.get session.id = some row → row.status = .active)
    (hnone : ∀ k, ¬ Closes s k session.id) :
    RowsMove s h ((s.chat.saveRow turn session now).set h phase) where
  known id hid := by
    have hget := get_saveRow s.chat turn session now id
    rw [show ((s.chat.saveRow turn session now).set h phase).sessions
      = (s.chat.saveRow turn session now).sessions from rfl, hget] at hid
    split at hid
    next heq =>
      rw [heq]
      exact Option.map_eq_none_iff.mp hid
    next => exact hid
  rows id row' hrow' := by
    have hget := get_saveRow s.chat turn session now id
    rw [show ((s.chat.saveRow turn session now).set h phase).sessions
      = (s.chat.saveRow turn session now).sessions from rfl, hget] at hrow'
    split at hrow'
    next heq =>
      obtain ⟨row, hrow, rfl⟩ := Option.map_eq_some_iff.mp hrow'
      refine Or.inr ⟨hactive row hrow, fun hblank => ?_, heq ▸ hnone⟩
      have hne : session.transcript ++ turn.pair ≠ [] := by
        intro hnil
        have hlength := congrArg List.length hnil
        rw [List.length_append, List.length_nil] at hlength
        have hpair : turn.pair.length = 2 := rfl
        omega
      have hfull := not_blank_of_ne_nil hne
      rw [show textOf _ = formatTranscriptForConsolidation (session.transcript ++ turn.pair) from rfl,
        hfull] at hblank
      cases hblank
    next => exact Or.inl ⟨row', hrow', rfl, Or.inl⟩

/-- the rows after a session is inserted -/
theorem rowsMove_insert (hinv : Once s) {row : TelegramSession} (hactive : row.status = .active)
    {chat : Chat} (hinsert : s.chat.insertRow row = some chat) (phase : Phase) :
    RowsMove s h (chat.set h phase) := by
  obtain ⟨sessions, hsessions, rfl⟩ := Option.map_eq_some_iff.mp hinsert
  have hget (id : SessionId) := Table.get_insert hsessions id
  refine ⟨fun id hid => ?_, fun id row' hrow' => ?_⟩
  · have hid : sessions.get id = none := hid
    rw [(hget id).2] at hid
    split at hid
    next => cases hid
    next => exact hid
  · have hrow' : sessions.get id = some row' := hrow'
    rw [(hget id).2] at hrow'
    split at hrow'
    next heq =>
      cases hrow'
      have hnone : s.chat.sessions.get id = none := by
        rw [heq]
        exact (hget row.id).1
      exact Or.inr ⟨hactive, fun _ => hinv.unknown id hnone, fun k => not_closes_of_none hinv hnone⟩
    next => exact Or.inl ⟨row', hrow', rfl, Or.inl⟩

/-- the close is out of the loop with all its candidates in the memory -/
theorem settled_of_over (hinv : Once s) {close : Close} (hphase : s.chat.handlers h = .consolidating close)
    (hnonblank : (fullTranscript close).isBlank = false) (hover : isOver (s.progress h) = true) :
    Settled s close.session.id (fullTranscript close) := by
  cases hprogress : s.progress h with
  | idle =>
    rw [hprogress] at hover
    cases hover
  | failed => exact absurd hprogress (hinv.unfailed h close hphase)
  | storing candidates rest =>
    rw [hprogress] at hover
    have hnil : rest = [] := List.isEmpty_iff.mp hover
    have hok := hinv.stores h close candidates rest hphase hprogress
    have hentries := hok.entries
    rw [hnil, List.append_nil] at hentries
    unfold Settled
    rw [hentries]
    exact hok.distilled

theorem once_consolidate (hinv : Once s) {close : Close} (hphase : s.chat.handlers h = .consolidating close)
    (hgo : ((fullTranscript close).isBlank || isOver (s.progress h)) = true) :
    Once ({ s with chat := (s.chat.pass close.session).set h (.marking close) }.setProgress h .idle) := by
  have hsettled : (fullTranscript close).isBlank = false →
      Settled s close.session.id (fullTranscript close) := by
    intro hnonblank
    rw [hnonblank, Bool.false_or] at hgo
    exact settled_of_over hinv hphase hnonblank hgo
  have hpass : (s.chat.pass close.session).sessions = s.chat.sessions
      ∧ (s.chat.pass close.session).handlers = s.chat.handlers := by
    unfold Chat.pass
    dsimp only
    split <;> exact ⟨rfl, rfl⟩
  refine hinv.chat (fun k hk => ?_) (rowsMove_same hpass.1) ⟨?_, ?_⟩ ?_
  · rw [handlers_set_other hk, hpass.2]
  · intro close' hphase'
    rw [handlers_set_self] at hphase'
    rcases hphase' with hphase' | hphase'
    · cases hphase'
    · cases hphase'
      show ∃ row, (s.chat.pass close.session).sessions.get close.session.id = some row ∧ _
      rw [hpass.1]
      exact hinv.current h close (Or.inl hphase)
  · intro close' hphase' hnonblank
    rw [handlers_set_self] at hphase'
    cases hphase'
    exact Or.inl (hsettled hnonblank)
  · intro id row hrow hstore
    obtain ⟨close', candidates, rest, hphase', rfl, hprogress⟩ := hstore
    cases hphase.symm.trans hphase'
    have hok := hinv.stores h close candidates rest hphase hprogress
    obtain ⟨row', hrow', htext⟩ := hinv.current h close (Or.inl hphase)
    rw [hrow] at hrow'
    cases hrow'
    have hfull : fullTranscript close = textOf row := by
      unfold fullTranscript textOf
      rw [htext]
    rw [← hfull]
    exact hsettled hok.text

/-- every step of the chat -/
theorem once_chat {action : Action} {chat : Chat} (hinv : Once s) (hclose : OneClose s (.chat action))
    (hgo : s.canGoOn action = true) (hstep : s.chat.step action = some chat) :
    Once (s.afterChat chat action) := by
  cases action with
  | message h enabled text active now =>
    rw [Chat.step] at hstep
    split at hstep
    next hphase =>
      have hrest : sessionOf (s.chat.handlers h) = none := by
        rw [hphase]
        rfl
      split at hstep
      next =>
        cases hstep
        exact hinv.chat_resting hrest (fun k hk => handlers_set_other hk _) (rowsMove_same rfl)
          (phaseAfter_set fun _ => ⟨Phase.noConfusion, Phase.noConfusion⟩)
      next =>
        exact once_read hinv hrest (fun _ _ => onText_consolidating)
          (fun session close => onText_not_marking text now session close) hstep
    next => cases hstep
  | endSession h active =>
    rw [Chat.step] at hstep
    split at hstep
    next hphase =>
      refine once_read hinv (by rw [hphase]; rfl) (fun session close hnext => ?_)
        (fun session close hnext => ?_) hstep
      · cases session <;> cases hnext
        rfl
      · cases session <;> cases hnext
    next => cases hstep
  | checkInactivity h active now =>
    rw [Chat.step] at hstep
    split at hstep
    next hphase =>
      exact once_read hinv (by rw [hphase]; rfl) (fun _ _ => onCheckInactivity_consolidating)
        (fun session close => onCheckInactivity_not_marking now session close) hstep
    next => cases hstep
  | consolidate h =>
    rw [Chat.step] at hstep
    split at hstep
    next close hphase =>
      cases hstep
      rw [canGoOn, hphase] at hgo
      exact once_consolidate hinv hphase hgo
    next => cases hstep
  | mark h fate now =>
    rw [Chat.step] at hstep
    split at hstep
    next close hphase =>
      cases hstep
      have hrest : sessionOf (s.chat.handlers h) = none := by
        rw [hphase]
        rfl
      cases fate with
      | ok =>
        exact hinv.chat_resting hrest (fun k hk => handlers_set_other hk _) (rowsMove_mark hphase now _)
          (phaseAfter_set fun close' => afterMark_not close close')
      | lost =>
        exact hinv.chat_resting hrest (fun k hk => handlers_set_other hk _) (rowsMove_same rfl)
          (phaseAfter_set fun _ => ⟨Phase.noConfusion, Phase.noConfusion⟩)
      | applied =>
        exact hinv.chat_resting hrest (fun k hk => handlers_set_other hk _) (rowsMove_mark hphase now _)
          (phaseAfter_set fun _ => ⟨Phase.noConfusion, Phase.noConfusion⟩)
    next => cases hstep
  | recallMemories h memories =>
    rw [Chat.step] at hstep
    split at hstep
    next text hphase =>
      cases hstep
      exact hinv.chat_resting (by rw [hphase]; rfl) (fun k hk => handlers_set_other hk _)
        (rowsMove_same rfl) (phaseAfter_set fun _ => ⟨Phase.noConfusion, Phase.noConfusion⟩)
    next => cases hstep
  | insert h id fate now =>
    rw [Chat.step] at hstep
    split at hstep
    next text transcript hphase =>
      obtain ⟨t, ht, rfl⟩ := Option.map_eq_some_iff.mp hstep
      have hrest : sessionOf (s.chat.handlers h) = none := by
        rw [hphase]
        rfl
      have hnot : ∀ phase : Phase, ∀ close, (if fate = .ok then Chat.beginTurn text
          ⟨id, transcript, .active, now⟩ else .ended) = phase →
          phase ≠ .consolidating close ∧ phase ≠ .marking close := by
        rintro phase close rfl
        constructor
        · intro h
          split at h <;> cases h
        · intro h
          split at h <;> cases h
      have hother : ∀ {c : Chat}, s.chat.insertRow ⟨id, transcript, .active, now⟩ = some c →
          c.handlers = s.chat.handlers := by
        intro c hc
        obtain ⟨sessions, -, rfl⟩ := Option.map_eq_some_iff.mp hc
        rfl
      cases fate with
      | lost =>
        cases ht
        exact hinv.chat_resting hrest (fun k hk => handlers_set_other hk _) (rowsMove_same rfl)
          (phaseAfter_set fun close => hnot _ close rfl)
      | ok =>
        refine hinv.chat_resting hrest (fun k hk => ?_) (rowsMove_insert hinv rfl ht _)
          (phaseAfter_set fun close => hnot _ close rfl)
        rw [handlers_set_other hk, hother ht]
      | applied =>
        refine hinv.chat_resting hrest (fun k hk => ?_) (rowsMove_insert hinv rfl ht _)
          (phaseAfter_set fun close => hnot _ close rfl)
        rw [handlers_set_other hk, hother ht]
    next => cases hstep
  | turn h response =>
    rw [Chat.step] at hstep
    split at hstep
    next text session history hphase =>
      have hleaves : ∀ id row, s.chat.sessions.get id = some row → Stores s h id →
          Settled s id (textOf row) := by
        rintro id row - ⟨close, candidates, rest, hphase', -⟩
        cases hphase.symm.trans hphase'
      cases response with
      | none =>
        cases hstep
        exact hinv.chat (fun k hk => handlers_set_other hk _) (rowsMove_same rfl)
          (phaseAfter_set fun _ => ⟨Phase.noConfusion, Phase.noConfusion⟩) hleaves
      | some response =>
        cases hstep
        exact hinv.chat (fun k hk => handlers_set_other hk _) (rowsMove_same rfl)
          (phaseAfter_set fun _ => ⟨Phase.noConfusion, Phase.noConfusion⟩) hleaves
    next => cases hstep
  | save h fate now =>
    rw [Chat.step] at hstep
    split at hstep
    next turn session hphase =>
      cases hstep
      have hrest : sessionOf (s.chat.handlers h) = none := by
        rw [hphase]
        rfl
      have hunclosed : fate.applies = true → _ := hclose turn session hphase
      cases fate with
      | ok =>
        obtain ⟨hactive, hnone⟩ := hunclosed rfl
        exact hinv.chat_resting hrest (fun k hk => handlers_set_other hk _)
          (rowsMove_save now _ hactive hnone)
          (phaseAfter_set fun _ => ⟨Phase.noConfusion, Phase.noConfusion⟩)
      | lost =>
        exact hinv.chat_resting hrest (fun k hk => handlers_set_other hk _) (rowsMove_same rfl)
          (phaseAfter_set fun _ => ⟨Phase.noConfusion, Phase.noConfusion⟩)
      | applied =>
        obtain ⟨hactive, hnone⟩ := hunclosed rfl
        exact hinv.chat_resting hrest (fun k hk => handlers_set_other hk _)
          (rowsMove_save now _ hactive hnone)
          (phaseAfter_set fun _ => ⟨Phase.noConfusion, Phase.noConfusion⟩)
    next => cases hstep
  | reply h sent =>
    rw [Chat.step] at hstep
    split at hstep
    next turn hphase =>
      cases hstep
      exact hinv.chat_resting (by rw [hphase]; rfl) (fun k hk => handlers_set_other hk _)
        (rowsMove_same rfl) (phaseAfter_set fun _ => ⟨Phase.noConfusion, Phase.noConfusion⟩)
    next => cases hstep

/-! ## a step of `consolidate` -/

theorem progress_self (s : Closing ν) (h : HandlerId) (progress : Progress) :
    (s.setProgress h progress).progress h = progress := if_pos rfl

theorem progress_other (hk : k ≠ h) (progress : Progress) :
    (s.setProgress h progress).progress k = s.progress k := if_neg hk

/-- what a step of `consolidate` adds for the session that the handler works for -/
structure Remembers (s s' : Closing ν) (h : HandlerId) (sessionId : SessionId) : Prop where
  chat : s'.chat = s.chat
  progress : ∀ k, k ≠ h → s'.progress k = s.progress k
  memory : ∃ inserts, Memory.Holds s'.memory inserts
  entries : ∀ id, id ≠ sessionId → s'.entriesOf id = s.entriesOf id
  distillations : ∀ d ∈ s.distillations, d ∈ s'.distillations

theorem Remembers.stores_other {sessionId : SessionId} (hr : Remembers s s' h sessionId) (hk : k ≠ h) :
    Stores s' k id ↔ Stores s k id := by
  unfold Stores
  rw [hr.chat, hr.progress k hk]

/-- the handler is in a turn, and nothing is added to the memory -/
theorem Once.compacted (hinv : Once s) {text : JsString} {session : TelegramSession}
    {history : List ModelProvider.ModelMessage}
    (hphase : s.chat.handlers h = .turning text session history)
    (hr : Remembers s s' h session.id) (hsame : s'.entriesOf session.id = s.entriesOf session.id)
    (hrest : ∀ candidates rest, s'.progress h = .storing candidates rest → rest = []) : Once s' := by
  have hentries : ∀ id, s'.entriesOf id = s.entriesOf id := by
    intro id
    by_cases hid : id = session.id
    · rw [hid]
      exact hsame
    · exact hr.entries id hid
  have hnot : ∀ {k close}, s.chat.handlers k = .consolidating close → k ≠ h := by
    rintro k close hk rfl
    cases hphase.symm.trans hk
  have hnotStores : ∀ {t : Closing ν} {id}, t.chat = s.chat → ¬ Stores t h id := by
    rintro t id hchat ⟨close, candidates, rest, hk, -⟩
    rw [hchat] at hk
    exact hnot hk rfl
  have hstores : ∀ {k id}, Stores s' k id ↔ Stores s k id := by
    intro k id
    by_cases hk : k = h
    · subst hk
      exact ⟨fun hstore => absurd hstore (hnotStores hr.chat), fun hstore => absurd hstore (hnotStores rfl)⟩
    · exact hr.stores_other hk
  have hsettling : ∀ {id text}, Settling s id text → Settling s' id text := by
    rintro id text (hs | ⟨k, hk⟩)
    · refine Or.inl ?_
      unfold Settled
      rw [hentries]
      exact hr.distillations _ hs
    · exact Or.inr ⟨k, hstores.mpr hk⟩
  refine ⟨hr.memory, ?_, ?_, ?_, ?_, ?_, ?_, ?_, ?_, ?_⟩
  · intro id hid
    rw [hentries]
    rw [hr.chat] at hid
    exact hinv.unknown id hid
  · intro id row hrow hblank
    rw [hentries]
    rw [hr.chat] at hrow
    exact hinv.blank id row hrow hblank
  · rw [hr.chat]
    exact hinv.current
  · intro k close candidates rest hk hp
    rw [hr.chat] at hk
    have hkh := hnot hk
    rw [hr.progress k hkh] at hp
    have hok := hinv.stores k close candidates rest hk hp
    refine ⟨hok.text, hr.distillations _ hok.distilled, ?_, fun j hj hstore =>
      hok.alone j hj (hstores.mp hstore)⟩
    rw [hentries]
    exact hok.entries
  · intro k close hk hp
    rw [hr.chat] at hk
    rw [hr.progress k (hnot hk)] at hp
    exact hinv.unfailed k close hk hp
  · intro k close hk hnonblank
    rw [hr.chat] at hk
    exact hsettling (hinv.marking k close hk hnonblank)
  · intro id row hrow hclosed hnonblank
    rw [hr.chat] at hrow
    exact hsettling (hinv.closed id row hrow hclosed hnonblank)
  · intro k text' session' history' hk candidates rest hp
    by_cases hkh : k = h
    · subst hkh
      exact hrest candidates rest hp
    · rw [hr.chat] at hk
      rw [hr.progress k hkh] at hp
      exact hinv.turning k text' session' history' hk candidates rest hp
  · intro k hk
    rw [hr.chat] at hk
    have hkh : k ≠ h := by
      rintro rfl
      rw [hphase] at hk
      cases hk
    rw [hr.progress k hkh]
    exact hinv.resting k hk

/-- the handler is in a close, and goes on in its loop -/
theorem Once.stored (hinv : Once s) {close : Close} (hphase : s.chat.handlers h = .consolidating close)
    (hr : Remembers s s' h close.session.id) {candidates rest : List DistilledEntry}
    (hprogress : s'.progress h = .storing candidates rest)
    (hok : StoreOk s' h close candidates rest) : Once s' := by
  have hself : Stores s' h close.session.id :=
    ⟨close, candidates, rest, by rw [hr.chat]; exact hphase, rfl, hprogress⟩
  -- what was settling of this session is in the hands of this handler
  have hsettling : ∀ {id text}, Settling s id text → Settling s' id text := by
    intro id text hs
    by_cases hid : id = close.session.id
    · rw [hid]
      exact Or.inr ⟨h, hself⟩
    · rcases hs with hs | ⟨k, hk⟩
      · refine Or.inl ?_
        unfold Settled
        rw [hr.entries id hid]
        exact hr.distillations _ hs
      · refine Or.inr ⟨k, (hr.stores_other ?_).mpr hk⟩
        rintro rfl
        obtain ⟨close', _, _, hphase', hid', -⟩ := hk
        cases hphase.symm.trans hphase'
        exact hid hid'.symm
  have hknown : s.chat.sessions.get close.session.id ≠ none := by
    obtain ⟨row, hrow, -⟩ := hinv.current h close (Or.inl hphase)
    rw [hrow]
    exact Option.some_ne_none _
  refine ⟨hr.memory, ?_, ?_, ?_, ?_, ?_, ?_, ?_, ?_, ?_⟩
  · intro id hid
    rw [hr.chat] at hid
    rw [hr.entries id fun heq => hknown (heq ▸ hid)]
    exact hinv.unknown id hid
  · intro id row hrow hblank
    rw [hr.chat] at hrow
    by_cases hid : id = close.session.id
    · -- the text of this session is not blank
      obtain ⟨row', hrow', htext⟩ := hinv.current h close (Or.inl hphase)
      rw [hid, hrow'] at hrow
      cases hrow
      have hfull := hok.text
      unfold fullTranscript at hfull
      rw [← htext] at hfull
      cases hfull.symm.trans hblank
    · rw [hr.entries id hid]
      exact hinv.blank id row hrow hblank
  · rw [hr.chat]
    exact hinv.current
  · intro k close' candidates' rest' hk hp
    by_cases hkh : k = h
    · subst hkh
      rw [hr.chat] at hk
      cases hphase.symm.trans hk
      rw [hprogress] at hp
      cases hp
      exact hok
    · rw [hr.chat] at hk
      have hk' := hk
      rw [hr.progress k hkh] at hp
      have hold := hinv.stores k close' candidates' rest' hk hp
      have hid : close'.session.id ≠ close.session.id := by
        intro heq
        refine hok.alone k hkh ((hr.stores_other hkh).mpr ?_)
        exact ⟨close', candidates', rest', hk, heq, hp⟩
      refine ⟨hold.text, hr.distillations _ hold.distilled, ?_, fun j hj hstore => ?_⟩
      · rw [hr.entries _ hid]
        exact hold.entries
      · by_cases hjh : j = h
        · subst hjh
          obtain ⟨close'', _, _, hphase'', hid'', -⟩ := hstore
          rw [hr.chat] at hphase''
          cases hphase.symm.trans hphase''
          exact hid hid''.symm
        · exact hold.alone j hj ((hr.stores_other hjh).mp hstore)
  · intro k close' hk hp
    by_cases hkh : k = h
    · rw [hkh, hprogress] at hp
      cases hp
    · rw [hr.chat] at hk
      rw [hr.progress k hkh] at hp
      exact hinv.unfailed k close' hk hp
  · intro k close' hk hnonblank
    rw [hr.chat] at hk
    exact hsettling (hinv.marking k close' hk hnonblank)
  · intro id row hrow hclosed hnonblank
    rw [hr.chat] at hrow
    exact hsettling (hinv.closed id row hrow hclosed hnonblank)
  · intro k text session history hk candidates' rest' hp
    rw [hr.chat] at hk
    have hkh : k ≠ h := by
      rintro rfl
      cases hphase.symm.trans hk
    rw [hr.progress k hkh] at hp
    exact hinv.turning k text session history hk candidates' rest' hp
  · intro k hk
    rw [hr.chat] at hk
    have hkh : k ≠ h := by
      rintro rfl
      rw [hphase] at hk
      cases hk
    rw [hr.progress k hkh]
    exact hinv.resting k hk

theorem once_distill (hinv : Once s) {close : Close} {answer : Option (List DistilledEntry)}
    (hphase : s.chat.handlers h = .consolidating close)
    (hnonblank : (fullTranscript close).isBlank = false) (hclose : OneClose s (.distill h answer)) :
    Once (s.onDistill h close.session.id (fullTranscript close) answer) := by
  obtain ⟨hanswer, hempty⟩ := hclose
  obtain ⟨hempty, halone⟩ := hempty close hphase
  cases answer with
  | none => exact absurd rfl hanswer
  | some candidates =>
    let s' := s.onDistill h close.session.id (fullTranscript close) (some candidates)
    have hr : Remembers s s' h close.session.id :=
      ⟨rfl, fun k hk => if_neg hk, hinv.memory, fun _ _ => rfl, fun _ hd => List.mem_cons_of_mem _ hd⟩
    refine hinv.stored hphase hr (progress_self _ _ _) ⟨hnonblank, List.mem_cons_self, ?_, ?_⟩
    · show s.entriesOf close.session.id ++ candidates = candidates
      rw [hempty, List.nil_append]
    · intro k hk hstore
      exact halone k hk ((hr.stores_other hk).mp hstore)

theorem once_compact (hinv : Once s) {text part : JsString} {session : TelegramSession}
    {history : List ModelProvider.ModelMessage} {answer : Option (List DistilledEntry)}
    (hphase : s.chat.handlers h = .turning text session history)
    (hclose : OneClose s (.compact h part answer)) : Once (s.onDistill h session.id part answer) := by
  cases answer with
  | none =>
    have hr : Remembers s (s.setProgress h .failed) h session.id :=
      ⟨rfl, fun k hk => if_neg hk, hinv.memory, fun _ _ => rfl, fun _ hd => hd⟩
    refine hinv.compacted hphase hr rfl fun candidates rest hp => ?_
    have hp : (s.setProgress h .failed).progress h = .storing candidates rest := hp
    rw [progress_self] at hp
    cases hp
  | some candidates =>
    have hr : Remembers s (s.onDistill h session.id part (some candidates)) h session.id :=
      ⟨rfl, fun k hk => if_neg hk, hinv.memory, fun _ _ => rfl, fun _ hd => List.mem_cons_of_mem _ hd⟩
    refine hinv.compacted hphase hr rfl fun candidates' rest hp => ?_
    have hp : Progress.storing candidates candidates = .storing candidates' rest :=
      (progress_self _ h _).symm.trans hp
    cases hp
    exact hclose candidates rfl

theorem once_remember (hinv : Once s) {close : Close} {candidates rest : List DistilledEntry}
    {candidate : DistilledEntry} (hphase : s.chat.handlers h = .consolidating close)
    (hprogress : s.progress h = .storing candidates (candidate :: rest)) (embedding : ν)
    (fecha : JsString) :
    Once (s.onRemember h candidates rest (candidateInput close.session.id candidate fecha) true
      (some embedding)) := by
  obtain ⟨inserts, hholds⟩ := hinv.memory
  obtain ⟨memory, hinsert, hholds'⟩ := hholds.insert (δ := Unit)
    (candidateInput close.session.id candidate fecha) embedding
  have hnext : s.onRemember h candidates rest (candidateInput close.session.id candidate fecha) true
      (some embedding) = { s with memory := memory }.setProgress h (.storing candidates rest) := by
    unfold onRemember
    dsimp only
    rw [hinsert]
  have hentries : ∀ id, ({ s with memory := memory }.setProgress h (.storing candidates rest)).entriesOf id
      = s.entriesOf id ++ if id = close.session.id then [candidate] else [] := by
    intro id
    show (memory.memoryEntries.rows.filter _).map _ = _
    rw [hholds.rows_concat hholds', List.filter_append, List.map_append]
    refine congrArg (s.entriesOf id ++ ·) ?_
    by_cases hid : id = close.session.id
    · simp [hid, Memory.newRow, candidateInput]
    · simp [hid, Ne.symm hid, Memory.newRow, candidateInput]
  have hok := hinv.stores h close candidates (candidate :: rest) hphase hprogress
  rw [hnext]
  have hr : Remembers s ({ s with memory := memory }.setProgress h (.storing candidates rest)) h
      close.session.id := by
    refine ⟨rfl, fun k hk => if_neg hk, ⟨_, hholds'⟩, fun id hid => ?_, fun _ hd => hd⟩
    rw [hentries, if_neg hid, List.append_nil]
  refine hinv.stored hphase hr (progress_self _ _ _) ⟨hok.text, hok.distilled, ?_, ?_⟩
  · rw [hentries, if_pos rfl, List.append_assoc]
    exact hok.entries
  · intro k hk hstore
    exact hok.alone k hk ((hr.stores_other hk).mp hstore)

theorem once_step {a : ClosingAction ν} (hinv : Once s) (hclose : OneClose s a)
    (hstep : s.step a = some s') : Once s' := by
  cases a with
  | chat action =>
    rw [Closing.step] at hstep
    split at hstep
    next hgo =>
      obtain ⟨chat, hchat, rfl⟩ := Option.map_eq_some_iff.mp hstep
      exact once_chat hinv hclose hgo hchat
    next => cases hstep
  | distill h answer =>
    rw [Closing.step] at hstep
    split at hstep
    next close hphase hprogress =>
      split at hstep
      next => cases hstep
      next hnonblank =>
        cases hstep
        exact once_distill hinv hphase (Bool.eq_false_iff.mpr hnonblank) hclose
    next => cases hstep
  | compact h part answer =>
    rw [Closing.step] at hstep
    split at hstep
    next text session history hphase hprogress =>
      cases hstep
      exact once_compact hinv hphase hclose
    next => cases hstep
  | remember h embedding stored fecha =>
    rw [Closing.step] at hstep
    split at hstep
    next sessionId candidates candidate rest hsession hprogress =>
      cases hstep
      obtain ⟨hembedding, rfl⟩ := hclose
      obtain ⟨v, rfl⟩ := Option.ne_none_iff_exists'.mp hembedding
      cases hphase : s.chat.handlers h with
      | consolidating close =>
        rw [hphase] at hsession
        cases hsession
        exact once_remember hinv hphase hprogress v fecha
      | turning text session history =>
        cases hinv.turning h text session history hphase candidates _ hprogress
      | _ =>
        rw [hphase] at hsession
        cases hsession
    next => cases hstep

theorem once_empty : Once (empty ν) where
  memory := ⟨[], rfl, rfl⟩
  unknown _ _ := rfl
  blank _ _ _ _ := rfl
  current _ _ hphase := by rcases hphase with hphase | hphase <;> cases hphase
  stores _ _ _ _ hphase := by cases hphase
  unfailed _ _ hphase := by cases hphase
  marking _ _ hphase := by cases hphase
  closed _ _ hrow := by cases hrow
  turning _ _ _ _ hphase := by cases hphase
  resting _ _ := rfl

theorem Once.memorised (hinv : Once s) : MemorisedOnce s := by
  intro id row hrow hclosed hnone
  cases hblank : (textOf row).isBlank with
  | true => exact hinv.blank id row hrow hblank
  | false =>
    rcases hinv.closed id row hrow hclosed hblank with hs | ⟨k, hk⟩
    · exact hs
    · exact absurd (closes_of_stores hk) (hnone k)

/-- **A session is consolidated once.**  In every interleaving of messages, `/endsession` and the cron,
with any failures of the other statements, whose steps all leave a session to one close that succeeds: a
session that is closed, and that no handler is closing any more, has exactly the entries of one
distillation of its transcript in the memory, each of them once, and none if the transcript is blank. -/
theorem memorised_once (actions : List (ClosingAction ν)) (s : Closing ν)
    (hclose : Guarded step OneClose (empty ν) actions) (hrun : run step (empty ν) actions = some s) :
    MemorisedOnce s :=
  (run_inv_guarded (fun _ _ _ hinv hG hstep => once_step hinv hG hstep) actions _ s once_empty hclose
    hrun).memorised

end

/-! ## a close that fails half way, and two closes -/

def firstCandidate : DistilledEntry := ⟨lit "le gusta el café", .preferencia⟩

def secondCandidate : DistilledEntry := ⟨lit "vive en Madrid", .hecho⟩

/-- a session starts with what the memory recalls, its turn throws, and the owner ends it -/
def opened : List (ClosingAction Nat) :=
  [.chat (.message 0 true (lit "hola") none 0),
    .chat (.recallMemories 0 (some [⟨lit "hecho", lit "tiene un perro"⟩])),
    .chat (.insert 0 (lit "s1") .ok 1), .chat (.turn 0 none), .chat (.endSession 1 (some (lit "s1")))]

def bothCandidates : List DistilledEntry := [firstCandidate, secondCandidate]

def stored : List (ClosingAction Nat) :=
  [.remember 1 (some 1) true (lit "hoy"), .remember 1 (some 2) true (lit "hoy"),
    .chat (.consolidate 1), .chat (.mark 1 .ok 3)]

/-- the embedding of the second candidate fails -/
def storedInPart : List (ClosingAction Nat) :=
  [.remember 1 (some 1) true (lit "hoy"), .remember 1 none true (lit "hoy"),
    .chat (.consolidate 1), .chat (.mark 1 .ok 3)]

/-- the cron closes the session beside the command -/
def storedTwice : List (ClosingAction Nat) :=
  [.chat (.checkInactivity 2 (some (lit "s1")) 2000000), .distill 2 (some bothCandidates)] ++ stored
    ++ [.remember 2 (some 1) true (lit "hoy"), .remember 2 (some 2) true (lit "hoy"),
      .chat (.consolidate 2), .chat (.mark 2 .ok 4)]

def closedBy (rest : List (ClosingAction Nat)) : List (ClosingAction Nat) :=
  opened ++ .distill 1 (some bothCandidates) :: rest

/-- the condition on a step that is no distillation and writes no transcript -/
def oneCloseCheck (_ : Closing Nat) : ClosingAction Nat → Bool
  | .distill _ _ | .compact _ _ _ | .chat (.save _ _ _) => false
  | .remember _ embedding stored _ => embedding.isSome && stored
  | _ => true

theorem oneClose_of_check (s : Closing Nat) (a : ClosingAction Nat) (h : oneCloseCheck s a = true) :
    OneClose s a := by
  cases a with
  | chat action =>
    cases action with
    | save => cases h
    | _ => trivial
  | remember k embedding stored fecha =>
    obtain ⟨hsome, hstored⟩ := Bool.and_eq_true_iff.mp h
    refine ⟨?_, hstored⟩
    rintro rfl
    cases hsome
  | _ => cases h

theorem opened_some : (run step (empty Nat) opened).isSome = true := by decide

/-- nothing is in the memory and no handler is in `consolidate` before the distillation -/
theorem opened_idle (s : Closing Nat) (h : run step (empty Nat) opened = some s) :
    (∀ id, s.entriesOf id = []) ∧ ∀ k, s.progress k = .idle := by
  obtain rfl : (run step (empty Nat) opened).get opened_some = s := Option.get_of_eq_some _ h
  constructor
  · exact fun id => rfl
  · intro k
    match k with
    | 0 | 1 => decide
    | k + 2 => rfl

theorem closedBy_oneClose {rest : List (ClosingAction Nat)}
    (hrest : ∀ t, run step (empty Nat) (opened ++ [.distill 1 (some bothCandidates)]) = some t →
      checkAll step oneCloseCheck t rest = true) :
    Guarded step OneClose (empty Nat) (closedBy rest) := by
  refine (guarded_append _ opened _).mpr
    ⟨guarded_of_checkAll oneClose_of_check opened _ (by decide), fun s hs => ⟨⟨?_, ?_⟩, ?_⟩⟩
  · exact Option.some_ne_none _
  · intro close _
    exact ⟨(opened_idle s hs).1 _, fun k _ => not_stores_idle ((opened_idle s hs).2 k)⟩
  · intro t ht
    refine guarded_of_checkAll oneClose_of_check rest _ (hrest t ?_)
    rw [run_append, hs]
    show (step s (.distill 1 (some bothCandidates))).bind _ = some t
    rw [ht]
    rfl

/-- one close, which stores both candidates -/
theorem memorised_once_stored :
    ∃ s, run step (empty Nat) (closedBy stored) = some s ∧ MemorisedOnce s := by
  have hsome : (run step (empty Nat) (closedBy stored)).isSome = true := by decide
  obtain ⟨s, hs⟩ := Option.isSome_iff_exists.mp hsome
  refine ⟨s, hs, memorised_once _ s (closedBy_oneClose fun t ht => ?_) hs⟩
  have hcheck : (run step (empty Nat) (opened ++ [.distill 1 (some bothCandidates)])).map
      (fun t => checkAll step oneCloseCheck t stored) = some true := by decide
  rw [ht] at hcheck
  exact Option.some.inj hcheck

/-- the session is closed, and its handlers are done -/
def doneCheck (s : Closing Nat) : Bool :=
  ((s.chat.sessions.get (lit "s1")).any fun row =>
    decide (row.status = .consolidated) && !(textOf row).isBlank) &&
    decide (∀ k : Nat, k < 3 → s.chat.handlers k = .ended ∨ s.chat.handlers k = .idle)

/-- what the memory holds for the session is what a distillation gave -/
def settledCheck (s : Closing Nat) : Bool :=
  s.distillations.any fun d => decide (d.candidates = s.entriesOf (lit "s1"))

theorem not_memorised {s : Closing Nat} (hdone : doneCheck s = true)
    (hrest : ∀ k, s.chat.handlers (k + 3) = .idle) (hsettled : settledCheck s = false) :
    ¬ MemorisedOnce s := by
  obtain ⟨hrow, hhandlers⟩ := Bool.and_eq_true_iff.mp hdone
  obtain ⟨row, hget, hrow⟩ := (Option.any_eq_true _ _).mp hrow
  obtain ⟨hclosed, hblank⟩ := Bool.and_eq_true_iff.mp hrow
  have hhandlers := of_decide_eq_true hhandlers
  have hnone : ∀ h, ¬ Closes s h (lit "s1") := by
    rintro h ⟨close, hphase, -⟩
    have hended : s.chat.handlers h = .ended ∨ s.chat.handlers h = .idle := by
      by_cases hlt : h < 3
      · exact hhandlers h hlt
      · obtain ⟨k, rfl⟩ := Nat.exists_eq_add_of_le' (Nat.le_of_not_lt hlt)
        exact Or.inr (hrest k)
    rcases hended with hended | hended <;> rw [hended] at hphase <;>
      rcases hphase with hphase | hphase <;> cases hphase
  intro hmem
  have hentries := hmem _ row hget (of_decide_eq_true hclosed) hnone
  rw [if_neg (by simpa using hblank)] at hentries
  have hfound : settledCheck s = true :=
    List.any_eq_true.mpr ⟨_, hentries, decide_eq_true rfl⟩
  rw [hsettled] at hfound
  cases hfound

theorem inPart_some : (run step (empty Nat) (closedBy storedInPart)).isSome = true := by
  decide

theorem twice_some : (run step (empty Nat) (closedBy storedTwice)).isSome = true := by
  decide

/-- One close leaves the first of two entries, and two closes leave four. -/
theorem memorised_in_part_and_twice :
    (∃ s, run step (empty Nat) (closedBy storedInPart) = some s ∧ ¬ MemorisedOnce s)
      ∧ ∃ s, run step (empty Nat) (closedBy storedTwice) = some s ∧ ¬ MemorisedOnce s := by
  constructor
  · refine ⟨(run step (empty Nat) (closedBy storedInPart)).get inPart_some,
      (Option.some_get inPart_some).symm, not_memorised ?_ (fun k => rfl) ?_⟩
    · decide
    · decide
  · refine ⟨(run step (empty Nat) (closedBy storedTwice)).get twice_some,
      (Option.some_get twice_some).symm, not_memorised ?_ (fun k => rfl) ?_⟩
    · decide
    · decide

end Telegram
