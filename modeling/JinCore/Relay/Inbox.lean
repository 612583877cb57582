import JinCore.Common.Calls
import JinCore.Hitl.Pending
import JinCore.Lib.Ranking
import JinCore.Lib.Runs
import JinCore.Relay.Store
import Mathlib.Data.List.Pairwise

/-!
# What the owner writes is read once (`relay.service.ts`, `relay.store.ts`)

The messages that are not consumed yet are marked and returned by one statement, and several readers may send it at
once.  A reader whose answer is lost throws, and its messages are gone.

* `InboxRow`, `Inbox.step`   the rows, and one statement of one reader, or a row from elsewhere;
* `inbox`                    what a reader returns, the oldest first;
* `Accounted`, `inbox_exactly_once`   every message of the owner is returned once, or lost, or pending.
-/

namespace Relay
open JsString Common Hitl Runs

structure InboxRow where
  message : RelayMessage
  consumedAt : Option Int
  deriving DecidableEq, Repr

def InboxRow.id (row : InboxRow) : MessageId := row.message.id

def InboxRow.isInbound (row : InboxRow) : Bool := row.message.direction = .inbound

def InboxRow.isPending (row : InboxRow) : Bool := row.isInbound && row.consumedAt.isNone

structure RelayInboxMessage where
  id : MessageId
  body : JsString
  answerTo : Option MessageId
  createdAt : JsString
  deriving DecidableEq, Repr

/-- the messages of the rows that a reader was given, in any order -/
def inbox (rows : List RelayMessage) : List RelayInboxMessage :=
  (Nearest.byDistance RelayMessage.createdAt rows).map fun row =>
    ⟨row.id, row.body, row.answerTo, isoText row.createdAt⟩

inductive ReaderPhase where
  | idle
  /-- before `store.consumePending` -/
  | consuming
  | returned (messages : List RelayInboxMessage)
  | threw

/-- `delivered` are the rows that readers were given, and `lost` those of a statement whose answer was lost -/
structure Inbox where
  rows : Table InboxRow.id
  readers : CallId → ReaderPhase
  delivered : List (CallId × List RelayMessage)
  lost : List RelayMessage

inductive InboxAction where
  /-- an insert of either direction -/
  | insert (message : RelayMessage)
  | start (c : CallId)
  /-- the rows that the statement returns come in any order -/
  | consume (c : CallId) (now : Int) (rows : List InboxRow) (fate : Fate)

namespace Inbox

def empty : Inbox := ⟨.empty _, fun _ => .idle, [], []⟩

def set (s : Inbox) (c : CallId) (phase : ReaderPhase) : Inbox :=
  { s with readers := fun k => if k = c then phase else s.readers k }

def pending (s : Inbox) : List InboxRow := s.rows.rows.filter InboxRow.isPending

def consumeRow (now : Int) (row : InboxRow) : InboxRow :=
  if row.isPending = true then { row with consumedAt := some now } else row

theorem message_consumeRow (now : Int) (row : InboxRow) : (consumeRow now row).message = row.message := by
  unfold consumeRow
  split <;> rfl

/-- `consumePending` -/
def consumePending (s : Inbox) (now : Int) : Inbox :=
  { s with rows := s.rows.mapRows (consumeRow now) fun row => congrArg RelayMessage.id (message_consumeRow now row) }

def onConsume (s : Inbox) (c : CallId) (now : Int) (messages : List RelayMessage) : Fate → Inbox
  | .ok =>
    { (s.consumePending now).set c (.returned (inbox messages)) with delivered := (c, messages) :: s.delivered }
  | .lost => s.set c .threw
  | .applied => { (s.consumePending now).set c .threw with lost := messages ++ s.lost }

def step (s : Inbox) : InboxAction → Option Inbox
  | .insert message => (s.rows.insert ⟨message, none⟩).map fun rows => { s with rows := rows }
  | .start c =>
    match s.readers c with
    | .idle => some (s.set c .consuming)
    | _ => none
  | .consume c now rows fate =>
    match s.readers c with
    | .consuming => if rows.Perm s.pending then some (s.onConsume c now (rows.map InboxRow.message) fate) else none
    | _ => none

end Inbox

/-! ## every message -/

def Inbox.inbound (s : Inbox) : List RelayMessage := (s.rows.rows.filter InboxRow.isInbound).map InboxRow.message

/-- every message of the owner was given to one reader, once, or it is lost, or pending; a reader returns what it was
given, in the order of time -/
structure Accounted (s : Inbox) : Prop where
  perm : s.inbound.Perm (s.delivered.flatMap Prod.snd ++ (s.lost ++ s.pending.map InboxRow.message))
  returned : ∀ c messages, s.readers c = .returned messages →
    ∃ rows, (c, rows) ∈ s.delivered ∧ messages = inbox rows
  once : ∀ c rows, (c, rows) ∈ s.delivered → ∃ messages, s.readers c = .returned messages
  distinct : (s.delivered.map Prod.fst).Nodup

section
variable {s t : Inbox} {c : CallId}

/-- a reader that has not returned has been given nothing -/
theorem Accounted.fresh (h : Accounted s) {phase : ReaderPhase} (hphase : s.readers c = phase)
    (hnot : ∀ messages, phase ≠ .returned messages) (rows : List RelayMessage) : (c, rows) ∉ s.delivered := by
  intro hmem
  obtain ⟨messages, hreturned⟩ := h.once c rows hmem
  exact hnot messages (hphase.symm.trans hreturned)

theorem filter_consumed (now : Int) (rows : List InboxRow) :
    ((rows.map (Inbox.consumeRow now)).filter InboxRow.isInbound).map InboxRow.message =
        (rows.filter InboxRow.isInbound).map InboxRow.message ∧
      (rows.map (Inbox.consumeRow now)).filter InboxRow.isPending = [] := by
  have hinbound (row : InboxRow) : (Inbox.consumeRow now row).isInbound = row.isInbound := by
    unfold InboxRow.isInbound
    rw [Inbox.message_consumeRow]
  constructor
  · induction rows with
    | nil => rfl
    | cons row rows ih =>
      rw [List.map_cons, List.filter_cons, List.filter_cons, hinbound]
      split
      · rw [List.map_cons, List.map_cons, ih, Inbox.message_consumeRow]
      · exact ih
  · refine List.filter_eq_nil_iff.mpr fun row hrow hpending => ?_
    obtain ⟨old, -, rfl⟩ := List.mem_map.mp hrow
    unfold Inbox.consumeRow at hpending
    split at hpending
    next => simp [InboxRow.isPending] at hpending
    next hnot => exact hnot hpending

/-- the rows after the statement -/
theorem consumed (s : Inbox) (now : Int) :
    (s.consumePending now).inbound = s.inbound ∧ (s.consumePending now).pending = [] :=
  filter_consumed now s.rows.rows

theorem accounted_insert {message : RelayMessage} {rows : Table InboxRow.id} (h : Accounted s)
    (hinsert : s.rows.insert ⟨message, none⟩ = some rows) : Accounted { s with rows := rows } := by
  refine ⟨?_, h.returned, h.once, h.distinct⟩
  have hrows := Table.rows_insert hinsert
  unfold Inbox.inbound Inbox.pending
  dsimp only
  rw [hrows, List.filter_append, List.filter_append, List.map_append, List.map_append]
  have hperm := h.perm
  unfold Inbox.inbound Inbox.pending at hperm
  cases hdirection : message.direction with
  | inbound =>
    have hin : InboxRow.isInbound ⟨message, none⟩ = true := decide_eq_true hdirection
    have hpending : InboxRow.isPending ⟨message, none⟩ = true := by
      unfold InboxRow.isPending
      rw [hin]
      rfl
    rw [List.filter_singleton, List.filter_singleton, hin, hpending]
    have happend := hperm.append_right [message]
    rw [List.append_assoc, List.append_assoc] at happend
    exact happend
  | outbound =>
    have hin : InboxRow.isInbound ⟨message, none⟩ = false := by
      refine decide_eq_false fun heq => ?_
      rw [hdirection] at heq
      cases heq
    have hpending : InboxRow.isPending ⟨message, none⟩ = false := by
      unfold InboxRow.isPending
      rw [hin]
      rfl
    rw [List.filter_singleton, List.filter_singleton, hin, hpending]
    simpa using hperm

/-- a reader that goes on and returns nothing -/
theorem accounted_set {u : Inbox} {phase : ReaderPhase} (h : Accounted s) (hreaders : u.readers = s.readers)
    (hdelivered : u.delivered = s.delivered)
    (hperm : u.inbound.Perm (u.delivered.flatMap Prod.snd ++ (u.lost ++ u.pending.map InboxRow.message)))
    (hold : ∀ messages, s.readers c ≠ .returned messages) (hnew : ∀ messages, phase ≠ .returned messages) :
    Accounted (u.set c phase) := by
  refine ⟨hperm, ?_, ?_, ?_⟩
  · intro k messages hk
    show ∃ rows, (k, rows) ∈ u.delivered ∧ messages = inbox rows
    rw [hdelivered]
    by_cases hkc : k = c
    · exact absurd ((if_pos hkc).symm.trans hk) (hnew messages)
    · refine h.returned k messages ?_
      rw [← hreaders]
      exact (if_neg hkc).symm.trans hk
  · intro k rows hmem
    have hmem : (k, rows) ∈ s.delivered := hdelivered ▸ hmem
    obtain ⟨messages, hk⟩ := h.once k rows hmem
    have hkc : k ≠ c := by
      intro hkc
      rw [hkc] at hk
      exact hold messages hk
    refine ⟨messages, ?_⟩
    show (if k = c then phase else u.readers k) = .returned messages
    rw [if_neg hkc, hreaders]
    exact hk
  · show (u.delivered.map Prod.fst).Nodup
    rw [hdelivered]
    exact h.distinct

/-- the reader `c` is given every message that is pending -/
theorem accounted_returned {now : Int} {messages : List RelayMessage} (h : Accounted s)
    (hphase : s.readers c = .consuming) (hrows : messages.Perm (s.pending.map InboxRow.message)) :
    Accounted (s.onConsume c now messages .ok) := by
  have hnone : ∀ rows, (c, rows) ∉ s.delivered := h.fresh hphase fun _ heq => ReaderPhase.noConfusion heq
  refine ⟨?_, ?_, ?_, ?_⟩
  · show (s.consumePending now).inbound.Perm
      (messages ++ s.delivered.flatMap Prod.snd ++ (s.lost ++ (s.consumePending now).pending.map InboxRow.message))
    rw [(consumed s now).1, (consumed s now).2, List.map_nil, List.append_nil]
    calc
      List.Perm s.inbound (s.delivered.flatMap Prod.snd ++ (s.lost ++ s.pending.map InboxRow.message)) := h.perm
      List.Perm _ (s.delivered.flatMap Prod.snd ++ (s.lost ++ messages)) :=
        (hrows.symm.append_left _).append_left _
      List.Perm _ (messages ++ s.delivered.flatMap Prod.snd ++ s.lost) := by
        rw [← List.append_assoc, List.append_assoc messages]
        exact List.perm_append_comm
  · intro k found hk
    by_cases hkc : k = c
    · have hfound : ReaderPhase.returned (inbox messages) = .returned found := (if_pos hkc).symm.trans hk
      rw [ReaderPhase.returned.injEq] at hfound
      exact ⟨messages, hkc ▸ List.mem_cons_self, hfound.symm⟩
    · obtain ⟨rows, hmem, hfound⟩ := h.returned k found ((if_neg hkc).symm.trans hk)
      exact ⟨rows, List.mem_cons_of_mem _ hmem, hfound⟩
  · intro k rows hmem
    show ∃ found, (if k = c then ReaderPhase.returned (inbox messages) else s.readers k) = .returned found
    by_cases hkc : k = c
    · rw [if_pos hkc]
      exact ⟨inbox messages, rfl⟩
    · rw [if_neg hkc]
      obtain heq | hmem := List.mem_cons.mp hmem
      · exact absurd (Prod.ext_iff.mp heq).1 hkc
      · exact h.once k rows hmem
  · show ((c, messages) :: s.delivered).map Prod.fst |>.Nodup
    refine List.nodup_cons.mpr ⟨fun hmem => ?_, h.distinct⟩
    obtain ⟨⟨k, rows⟩, hrow, hk⟩ := List.mem_map.mp hmem
    have hk : k = c := hk
    exact hnone rows (hk ▸ hrow)

theorem accounted_consume {now : Int} {messages : List RelayMessage} (h : Accounted s)
    (hphase : s.readers c = .consuming) (hrows : messages.Perm (s.pending.map InboxRow.message)) (fate : Fate) :
    Accounted (s.onConsume c now messages fate) := by
  have hold : ∀ messages, s.readers c ≠ .returned messages := by
    intro messages heq
    rw [hphase] at heq
    exact ReaderPhase.noConfusion heq
  cases fate with
  | ok => exact accounted_returned h hphase hrows
  | lost => exact accounted_set h rfl rfl h.perm hold fun _ heq => ReaderPhase.noConfusion heq
  | applied =>
    let u : Inbox := { s.consumePending now with lost := messages ++ s.lost }
    have hperm : u.inbound.Perm (u.delivered.flatMap Prod.snd ++ (u.lost ++ u.pending.map InboxRow.message)) := by
      show (s.consumePending now).inbound.Perm
        (s.delivered.flatMap Prod.snd ++ (messages ++ s.lost ++ (s.consumePending now).pending.map InboxRow.message))
      rw [(consumed s now).1, (consumed s now).2, List.map_nil, List.append_nil]
      refine h.perm.trans (List.Perm.append_left _ ?_)
      exact List.perm_append_comm.trans (hrows.symm.append_right _)
    exact accounted_set h (show u.readers = s.readers from rfl) rfl hperm hold fun _ heq => ReaderPhase.noConfusion heq

theorem accounted_step {a : InboxAction} (h : Accounted s) (hstep : s.step a = some t) : Accounted t := by
  cases a with
  | insert message =>
    obtain ⟨rows, hrows, rfl⟩ := Option.map_eq_some_iff.mp hstep
    exact accounted_insert h hrows
  | start c =>
    simp only [Inbox.step] at hstep
    split at hstep
    next hphase =>
      cases hstep
      refine accounted_set h rfl rfl h.perm (fun messages heq => ?_) fun _ heq => ReaderPhase.noConfusion heq
      rw [hphase] at heq
      exact ReaderPhase.noConfusion heq
    next => cases hstep
  | consume c now rows fate =>
    simp only [Inbox.step] at hstep
    split at hstep
    next hphase =>
      split at hstep
      next hrows =>
        cases hstep
        exact accounted_consume h hphase (hrows.map InboxRow.message) fate
      next => cases hstep
    next => cases hstep

theorem Accounted.empty : Accounted Inbox.empty where
  perm := List.Perm.refl _
  returned _ _ h := ReaderPhase.noConfusion h
  once _ _ h := absurd h List.not_mem_nil
  distinct := List.nodup_nil

/-! ## what the readers return -/

theorem inbound_ids (s : Inbox) : (s.inbound.map RelayMessage.id).Nodup := by
  unfold Inbox.inbound
  rw [List.map_map]
  exact s.rows.nodup.sublist (List.filter_sublist.map _)

theorem ids_inbox (rows : List RelayMessage) :
    ((inbox rows).map RelayInboxMessage.id).Perm (rows.map RelayMessage.id) := by
  unfold inbox
  rw [List.map_map]
  exact (Nearest.byDistance_perm RelayMessage.createdAt rows).map RelayMessage.id

/-- each reader was given messages with different ids, and no two readers the same one -/
theorem Accounted.ids (h : Accounted s) :
    (∀ p ∈ s.delivered, (p.2.map RelayMessage.id).Nodup) ∧
      ∀ p ∈ s.delivered, ∀ q ∈ s.delivered, p ≠ q →
        (p.2.map RelayMessage.id).Disjoint (q.2.map RelayMessage.id) := by
  have hall := (h.perm.map RelayMessage.id).nodup_iff.mp (inbound_ids s)
  rw [List.map_append, List.map_flatMap] at hall
  obtain ⟨heach, hpairs⟩ := List.nodup_flatMap.mp (List.nodup_append.mp hall).1
  refine ⟨heach, fun p hp q hq hpq => ?_⟩
  have hsymm : Std.Symm (Function.onFun List.Disjoint fun p : CallId × List RelayMessage => p.2.map RelayMessage.id) :=
    ⟨fun _ _ hxy _ hy hx => hxy hx hy⟩
  exact hpairs.forall hp hq hpq

theorem Accounted.returned_ids {messages : List RelayInboxMessage} (h : Accounted s)
    (hc : s.readers c = .returned messages) : (messages.map RelayInboxMessage.id).Nodup := by
  obtain ⟨rows, hmem, rfl⟩ := h.returned c messages hc
  exact (ids_inbox rows).nodup_iff.mpr (h.ids.1 (c, rows) hmem)

/-- two readers return no message in common -/
theorem Accounted.disjoint {k : CallId} {messages others : List RelayInboxMessage} (h : Accounted s) (hck : c ≠ k)
    (hc : s.readers c = .returned messages) (hk : s.readers k = .returned others) :
    (messages.map RelayInboxMessage.id).Disjoint (others.map RelayInboxMessage.id) := by
  obtain ⟨rows, hrows, rfl⟩ := h.returned c messages hc
  obtain ⟨rows', hrows', rfl⟩ := h.returned k others hk
  have hdisjoint := h.ids.2 (c, rows) hrows (k, rows') hrows' fun heq => hck (Prod.ext_iff.mp heq).1
  intro id hid hid'
  exact hdisjoint ((ids_inbox rows).mem_iff.mp hid) ((ids_inbox rows').mem_iff.mp hid')

/-- only a statement whose answer was lost loses messages -/
theorem lost_step {a : InboxAction} (hstep : s.step a = some t)
    (ha : ∀ c now rows, a ≠ .consume c now rows .applied) : t.lost = s.lost := by
  cases a with
  | insert message =>
    obtain ⟨rows, -, rfl⟩ := Option.map_eq_some_iff.mp hstep
    rfl
  | start c =>
    simp only [Inbox.step] at hstep
    split at hstep <;> cases hstep
    rfl
  | consume c now rows fate =>
    simp only [Inbox.step] at hstep
    split at hstep
    next =>
      split at hstep <;> cases hstep
      cases fate with
      | ok => rfl
      | lost => rfl
      | applied => exact absurd rfl (ha c now rows)
    next => cases hstep

end

/-- In every run, the messages of the owner are those that readers were given, those that were lost and those that
are pending; no two readers return the same one, and none returns one twice.  None is lost unless the answer to a
statement was. -/
theorem inbox_exactly_once {as : List InboxAction} {t : Inbox} (hrun : run Inbox.step .empty as = some t) :
    Accounted t ∧
      (∀ c messages, t.readers c = .returned messages → (messages.map RelayInboxMessage.id).Nodup) ∧
      (∀ c k messages others, c ≠ k → t.readers c = .returned messages → t.readers k = .returned others →
        (messages.map RelayInboxMessage.id).Disjoint (others.map RelayInboxMessage.id)) ∧
      ((∀ c now rows, .consume c now rows .applied ∉ as) → t.lost = []) := by
  have haccounted : Accounted t :=
    run_inv (fun _ _ _ hs hstep => accounted_step hs hstep) as .empty t .empty hrun
  refine ⟨haccounted, fun c messages => haccounted.returned_ids, ?_, fun has => ?_⟩
  · intro c k messages others hck hc hk
    exact haccounted.disjoint hck hc hk
  · have hkeep : ∀ s a u, s.lost = [] → (∀ c now rows, a ≠ .consume c now rows .applied) →
        Inbox.step s a = some u → u.lost = [] :=
      fun s a u hs ha hstep => (lost_step hstep ha).trans hs
    refine run_inv_guarded hkeep as _ t rfl (guarded_of_forall as _ fun a ha c now rows heq => ?_) hrun
    exact has c now rows (heq ▸ ha)

def stop : RelayMessage := ⟨lit "1", .inbound, lit "para", none, none, 10⟩

def proceed : RelayMessage := ⟨lit "2", .inbound, lit "sigue", none, some (lit "0"), 20⟩

def report : RelayMessage := ⟨lit "3", .outbound, lit "hecho", none, none, 30⟩

def later : RelayMessage := ⟨lit "4", .inbound, lit "gracias", none, none, 40⟩

/-- two readers start together; the answer to a third one is lost -/
def lostAnswer : List InboxAction :=
  [.insert stop, .insert proceed, .insert report, .start 0, .start 1,
    .consume 1 50 [⟨proceed, none⟩, ⟨stop, none⟩] .ok, .consume 0 51 [] .ok,
    .insert later, .start 2, .consume 2 60 [⟨later, none⟩] .applied]

theorem inbox_exactly_once_lostAnswer : ∃ t, run Inbox.step .empty lostAnswer = some t ∧
    t.delivered = [(0, []), (1, [proceed, stop])] ∧ t.lost = [later] ∧ t.pending = [] ∧ Accounted t :=
  ⟨_, rfl, rfl, rfl, rfl, (@inbox_exactly_once lostAnswer _ rfl).1⟩

end Relay
