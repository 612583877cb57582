import JinCore.Lib.Runs
import JinCore.Relay.FirstMessage
import JinCore.Telegram.Quiet

/-!
# A reply reaches its question

The buttons are on the last message of a question, and the id that is kept is that of the first; it is
kept only after all of them have been sent.

* `RepliesReach`     what the handlers have found, and stored;
* `QuotesFirst`      a reply quotes the first message of a question, after its id has been kept;
* `Replied`, `replied_step`   the handlers and their rows;
* `found_iff`        what is found for a message of a question;
* `repliesReach_iff`, `buttons_not_found`.
-/

namespace Relay.Chats
open JsString Common Send Chat Telegram

structure RepliesReach (s : Chat) : Prop where
  /-- a reply to a question whose buttons are in the chat is for the question -/
  due : ∀ f ∈ s.found, ∀ questionId, f.due = some questionId → f.answerTo = some questionId
  /-- a reply to another message is not -/
  other : ∀ f ∈ s.found, ∀ questionId, f.answerTo = some questionId → f.source = some questionId
  stored : ∀ f ∈ s.found, ∀ id, (f.handler, id) ∈ s.stored → ∃ row,
    s.outbox.messages.get id = some row ∧ row.direction = .inbound ∧ row.answerTo = f.answerTo

/-- a search is for the first message of the question, whose id is kept -/
def QuotesFirst (s : Chat) : Action → Prop
  | .find h _ => ∀ text repliedId questionId, s.handlers h = .finding text repliedId →
      s.due repliedId = some questionId →
        IsFirst s questionId repliedId ∧ s.outbox.telegramMessageIds questionId ≠ none
  | _ => True

section
variable {s s' : Chat} {c : CallId} {questionId : MessageId}

/-! ## the handlers and their rows -/

/-- the handler has neither searched nor inserted -/
def Early (s : Chat) (h : HandlerId) : Prop :=
  (∀ f ∈ s.found, f.handler ≠ h) ∧ ∀ id, (h, id) ∉ s.stored

structure Replied (s : Chat) : Prop where
  sound : ∀ f ∈ s.found, ∀ questionId, f.answerTo = some questionId → f.source = some questionId
  idle : ∀ h, s.handlers h = .idle → Early s h
  finding : ∀ h text repliedId, s.handlers h = .finding text repliedId → Early s h
  inserting : ∀ h text answerTo, s.handlers h = .inserting text answerTo →
    (∀ f ∈ s.found, f.handler = h → f.answerTo = answerTo) ∧ ∀ id, (h, id) ∉ s.stored
  stored : ∀ f ∈ s.found, ∀ id, (f.handler, id) ∈ s.stored → ∃ row,
    s.outbox.messages.get id = some row ∧ row.direction = .inbound ∧ row.answerTo = f.answerTo

/-- no handler takes part, and rows are only added -/
structure Beside (s s' : Chat) : Prop where
  handlers : s'.handlers = s.handlers
  found : s'.found = s.found
  stored : s'.stored = s.stored
  messages : ∀ id row, s.outbox.messages.get id = some row → s'.outbox.messages.get id = some row

theorem Replied.beside (hreplied : Replied s) (hb : Beside s s') : Replied s' := by
  obtain ⟨hhandlers, hfound, hstored, hmessages⟩ := hb
  have hearly : ∀ h, Early s h → Early s' h := by
    intro h hearly
    unfold Early
    rw [hfound, hstored]
    exact hearly
  refine ⟨?_, ?_, ?_, ?_, ?_⟩
  · rw [hfound]
    exact hreplied.sound
  · rw [hhandlers]
    exact fun h hh => hearly h (hreplied.idle h hh)
  · rw [hhandlers]
    exact fun h text repliedId hh => hearly h (hreplied.finding h text repliedId hh)
  · rw [hhandlers, hfound, hstored]
    exact hreplied.inserting
  · rw [hfound, hstored]
    intro f hf id hid
    obtain ⟨row, hrow, hrest⟩ := hreplied.stored f hf id hid
    exact ⟨row, hmessages id row hrow, hrest⟩

theorem outbox_grows {o o' : Outbox} {a : Send.Action} (h : o.step a = some o') :
    ∀ id row, o.messages.get id = some row → o'.messages.get id = some row := by
  intro id row hrow
  cases a with
  | tick now =>
    rw [Outbox.step, Option.ite_none_right_eq_some, Option.some.injEq] at h
    obtain ⟨-, rfl⟩ := h
    exact hrow
  | insertInbound id' body answerTo => exact (get_of_insertRow h).1 id row hrow
  | send c input =>
    rw [Outbox.step] at h
    split at h
    · cases h
      exact hrow
    · cases h
  | count c heard =>
    rw [Outbox.step] at h
    split at h
    · cases h
      exact hrow
    · cases h
  | insert c id' fate =>
    rw [Outbox.step] at h
    split at h
    next input hcall =>
      cases fate with
      | lost =>
        cases h
        exact hrow
      | ok =>
        obtain ⟨outbox, hinsert, rfl⟩ := Option.map_eq_some_iff.mp h
        exact (get_of_insertRow hinsert).1 id row hrow
      | applied =>
        obtain ⟨outbox, hinsert, rfl⟩ := Option.map_eq_some_iff.mp h
        exact (get_of_insertRow hinsert).1 id row hrow
    next => cases h
  | deliver c chunks reply =>
    rw [Outbox.step] at h
    split at h
    · cases h
      rcases reply with - | - | m <;> exact hrow
    · cases h
  | attach c fate =>
    rw [Outbox.step] at h
    split at h
    · cases h
      cases fate <;> exact hrow
    · cases h

theorem beside_withOutbox {a : Send.Action} (h : s.withOutbox (s.outbox.step a) = some s') :
    Beside s s' := by
  obtain ⟨o, ho, rfl⟩ := withOutbox_some h
  exact ⟨rfl, rfl, rfl, outbox_grows ho⟩

/-- a step of a call -/
theorem beside_post (chunks : JsString → List (List UInt16)) {messageId : Int} {rejected : Bool}
    {fate : Fate} (h : step chunks s (.post c messageId rejected fate) = some s') : Beside s s' := by
  rw [step] at h
  split at h
  next input questionId hcall =>
    split at h
    next chunk hchunk =>
      split at h
      next =>
        rw [Option.ite_none_right_eq_some] at h
        obtain ⟨-, h⟩ := h
        rw [onPost] at h
        split at h
        next =>
          split at h
          next =>
            obtain ⟨o, ho, rfl⟩ := withOutbox_some h
            exact ⟨rfl, rfl, rfl, outbox_grows ho⟩
          next =>
            cases h
            exact ⟨rfl, rfl, rfl, fun _ _ hrow => hrow⟩
        next =>
          obtain ⟨o, ho, rfl⟩ := withOutbox_some h
          exact ⟨rfl, rfl, rfl, outbox_grows ho⟩
      next => exact beside_withOutbox h
    next => cases h
  next => cases h

theorem beside_outbox (chunks : JsString → List (List UInt16)) {a : Send.Action}
    (h : step chunks s (.outbox a) = some s') : Beside s s' := by
  cases a with
  | deliver => cases h
  | insert c id fate =>
    obtain ⟨o, ho, rfl⟩ := withOutbox_some h
    exact ⟨rfl, rfl, rfl, outbox_grows ho⟩
  | _ => exact beside_withOutbox h

/-- a handler that has neither searched nor inserted goes on -/
theorem Replied.set (hreplied : Replied s) {h : HandlerId} (hearly : Early s h) (reply : Reply) :
    Replied (s.set h reply) := by
  have hother : ∀ k, k ≠ h → (s.set h reply).handlers k = s.handlers k := fun k hk => if_neg hk
  refine ⟨hreplied.sound, fun k hk => ?_, fun k text repliedId hk => ?_, fun k text answerTo hk => ?_,
    hreplied.stored⟩
  · by_cases hkh : k = h
    · exact hkh ▸ hearly
    · exact hreplied.idle k ((hother k hkh).symm.trans hk)
  · by_cases hkh : k = h
    · exact hkh ▸ hearly
    · exact hreplied.finding k text repliedId ((hother k hkh).symm.trans hk)
  · by_cases hkh : k = h
    · rw [hkh]
      exact ⟨fun f hf hfh => absurd hfh (hearly.1 f hf), hearly.2⟩
    · exact hreplied.inserting k text answerTo ((hother k hkh).symm.trans hk)

/-- an id that is kept is that of a message of the question -/
theorem source_of_attached (hkept : Kept s) {messageId : Int}
    (h : s.outbox.telegramMessageIds questionId = some messageId) :
    s.source messageId = some questionId := by
  obtain ⟨x, hx, hid, hchunk⟩ := hkept.attached questionId messageId h
  have hmessage : s.message messageId = some x := by
    rw [← hid]
    exact Table.find?_key hkept.ids hx
  rw [source, hmessage, Option.bind_some, hchunk]
  rfl

theorem attached_of_find {questions : List RelayMessage} {messageId : Int}
    (h : s.findQuestionByTelegramMessageId questions messageId = some questionId) :
    s.outbox.telegramMessageIds questionId = some messageId := by
  obtain ⟨q, hq, rfl⟩ := Option.map_eq_some_iff.mp h
  simpa using List.find?_some hq

theorem replied_find (hkept : Kept s) (hreplied : Replied s) {h : HandlerId} {text : JsString}
    {repliedId : Int} (hhandler : s.handlers h = .finding text repliedId)
    (questions : List RelayMessage) : Replied (s.onFind h text repliedId questions) := by
  have hearly := hreplied.finding h text repliedId hhandler
  have hself : (s.onFind h text repliedId questions).handlers h
      = .inserting text (s.findQuestionByTelegramMessageId questions repliedId) := if_pos rfl
  have hother : ∀ k, k ≠ h → (s.onFind h text repliedId questions).handlers k = s.handlers k :=
    fun k hk => if_neg hk
  have hold : ∀ k, k ≠ h → Early s k → Early (s.onFind h text repliedId questions) k := by
    rintro k hk ⟨hfound, hstored⟩
    refine ⟨fun f hf => ?_, hstored⟩
    rcases List.mem_cons.mp hf with rfl | hf
    · exact fun hkh => hk hkh.symm
    · exact hfound f hf
  refine ⟨fun f hf q hanswer => ?_, fun k hk => ?_, fun k text' repliedId' hk => ?_,
    fun k text' answerTo hk => ?_, fun f hf id hid => ?_⟩
  · rcases List.mem_cons.mp hf with rfl | hf
    · exact source_of_attached hkept (attached_of_find hanswer)
    · exact hreplied.sound f hf q hanswer
  · by_cases hkh : k = h
    · rw [hkh, hself] at hk
      cases hk
    · exact hold k hkh (hreplied.idle k ((hother k hkh).symm.trans hk))
  · by_cases hkh : k = h
    · rw [hkh, hself] at hk
      cases hk
    · exact hold k hkh (hreplied.finding k text' repliedId' ((hother k hkh).symm.trans hk))
  · by_cases hkh : k = h
    · rw [hkh, hself] at hk
      cases hk
      refine ⟨fun f hf hfh => ?_, hkh ▸ hearly.2⟩
      rcases List.mem_cons.mp hf with rfl | hf
      · rfl
      · exact absurd (hfh.trans hkh) (hearly.1 f hf)
    · obtain ⟨hfound, hstored⟩ := hreplied.inserting k text' answerTo ((hother k hkh).symm.trans hk)
      refine ⟨fun f hf hfk => ?_, hstored⟩
      rcases List.mem_cons.mp hf with rfl | hf
      · exact absurd hfk.symm hkh
      · exact hfound f hf hfk
  · rcases List.mem_cons.mp hf with rfl | hf
    · exact absurd hid (hearly.2 id)
    · exact hreplied.stored f hf id hid

theorem replied_insert (hreplied : Replied s) {h : HandlerId} {text : JsString}
    {answerTo : Option MessageId} (hhandler : s.handlers h = .inserting text answerTo)
    {id : MessageId} {fate : Fate} (hs : s.onInsert h text answerTo id fate = some s') :
    Replied s' := by
  obtain ⟨hanswer, hnew⟩ := hreplied.inserting h text answerTo hhandler
  have hends : ∀ reply : Reply, reply = .returned ∨ reply = .threw → ∀ t : Chat, t.found = s.found →
      t.handlers = (fun k => if k = h then reply else s.handlers k) →
      (∀ k id, k ≠ h → (k, id) ∈ t.stored → (k, id) ∈ s.stored) →
      (∀ f ∈ s.found, ∀ id, (f.handler, id) ∈ t.stored → ∃ row,
        t.outbox.messages.get id = some row ∧ row.direction = .inbound ∧ row.answerTo = f.answerTo) →
      Replied t := by
    intro reply hreply t hfound hhandlers hold hrows
    have hother : ∀ k, t.handlers k ≠ reply → k ≠ h ∧ t.handlers k = s.handlers k := by
      intro k hk
      rw [hhandlers] at hk ⊢
      by_cases hkh : k = h
      · exact absurd (if_pos hkh) hk
      · exact ⟨hkh, if_neg hkh⟩
    have hkeep : ∀ k, k ≠ h → Early s k → Early t k := by
      rintro k hk ⟨hfresh, hstored⟩
      exact ⟨hfound ▸ hfresh, fun id hid => hstored id (hold k id hk hid)⟩
    refine ⟨hfound ▸ hreplied.sound, fun k hk => ?_, fun k text' repliedId hk => ?_,
      fun k text' answerTo' hk => ?_, hfound ▸ hrows⟩
    · obtain ⟨hkh, hsame⟩ := hother k (by rcases hreply with rfl | rfl <;> rw [hk] <;> exact nofun)
      exact hkeep k hkh (hreplied.idle k (hsame.symm.trans hk))
    · obtain ⟨hkh, hsame⟩ := hother k (by rcases hreply with rfl | rfl <;> rw [hk] <;> exact nofun)
      exact hkeep k hkh (hreplied.finding k text' repliedId (hsame.symm.trans hk))
    · obtain ⟨hkh, hsame⟩ := hother k (by rcases hreply with rfl | rfl <;> rw [hk] <;> exact nofun)
      obtain ⟨hsaid, hstored⟩ := hreplied.inserting k text' answerTo' (hsame.symm.trans hk)
      exact ⟨hfound ▸ hsaid, fun id hid => hstored id (hold k id hkh hid)⟩
  rw [onInsert] at hs
  split at hs
  next =>
    obtain ⟨o, ho, rfl⟩ := Option.map_eq_some_iff.mp hs
    obtain ⟨hgrow, -, hrow, -, -⟩ := get_of_insertRow ho
    refine hends (if fate = Fate.ok then .returned else .threw) (by split <;> simp) _ rfl rfl
      (fun k id' hk hid => ?_) fun f hf id' hid => ?_
    · rcases List.mem_cons.mp hid with hnew | hid
      · exact absurd (Prod.mk.inj hnew).1 hk
      · exact hid
    · rcases List.mem_cons.mp hid with hnew | hid
      · obtain ⟨hfh, rfl⟩ := Prod.mk.inj hnew
        exact ⟨_, hrow, rfl, (hanswer f hf hfh).symm⟩
      · obtain ⟨row, hget, hrest⟩ := hreplied.stored f hf id' hid
        exact ⟨row, hgrow id' row hget, hrest⟩
  next =>
    cases hs
    exact hends .threw (Or.inr rfl) _ rfl rfl (fun _ _ _ hid => hid) hreplied.stored

theorem replied_step (chunks : JsString → List (List UInt16)) (hkept : Kept s) (hreplied : Replied s)
    {a : Chats.Action} (h : step chunks s a = some s') : Replied s' := by
  cases a with
  | outbox a => exact hreplied.beside (beside_outbox chunks h)
  | post c messageId rejected fate => exact hreplied.beside (beside_post chunks h)
  | noChunks c =>
    rw [step] at h
    split at h
    next input questionId hcall =>
      rw [Option.ite_none_right_eq_some] at h
      exact hreplied.beside (beside_withOutbox h.2)
    next => cases h
  | other messageId text =>
    rw [step, Option.ite_none_right_eq_some, Option.some.injEq] at h
    obtain ⟨-, rfl⟩ := h
    exact hreplied.beside ⟨rfl, rfl, rfl, fun _ _ hrow => hrow⟩
  | text k messageId text replyTo =>
    rw [step] at h
    split at h
    next hhandler =>
      rw [Option.ite_none_right_eq_some, Option.some.injEq] at h
      obtain ⟨-, rfl⟩ := h
      have hposted : Replied { s with posted := ⟨messageId, text.units, none, false⟩ :: s.posted } :=
        hreplied.beside ⟨rfl, rfl, rfl, fun _ _ hrow => hrow⟩
      exact hposted.set (hreplied.idle k hhandler) (afterText text replyTo)
    next => cases h
  | find k questions =>
    rw [step] at h
    split at h
    next text repliedId hhandler =>
      rw [Option.ite_none_right_eq_some, Option.some.injEq] at h
      obtain ⟨-, rfl⟩ := h
      exact replied_find hkept hreplied hhandler questions
    next => cases h
  | insert k id fate =>
    rw [step] at h
    split at h
    next text answerTo hhandler => exact replied_insert hreplied hhandler h
    next => cases h
  | throws k =>
    rw [step] at h
    split at h
    next text repliedId hhandler =>
      cases h
      exact hreplied.set (hreplied.finding k text repliedId hhandler) .threw
    next => cases h

/-! ## what is found -/

/-- the question of a message, whose buttons are in the chat, is found by its first message -/
theorem found_iff (hkept : Kept s) {questions : List RelayMessage} (hquestions : s.IsPending questions)
    {messageId : Int} (hdue : s.due messageId = some questionId) :
    s.findQuestionByTelegramMessageId questions messageId = some questionId ↔
      IsFirst s questionId messageId ∧ s.outbox.telegramMessageIds questionId ≠ none := by
  constructor
  · intro h
    have hattached := attached_of_find h
    exact ⟨hkept.attached questionId messageId hattached, by rw [hattached]; exact nofun⟩
  · rintro ⟨⟨x, hx, hid, hchunk⟩, hkeeps⟩
    -- the id that is kept is that of the first message, which is the one that is quoted
    obtain ⟨m, hm⟩ := Option.ne_none_iff_exists'.mp hkeeps
    obtain ⟨y, hy, hyid, hychunk⟩ := hkept.attached questionId m hm
    have hxy := hkept.once x hx y hy questionId hchunk hychunk
    have hattached : s.outbox.telegramMessageIds questionId = some messageId := by
      rw [hm, ← hyid, ← hxy, hid]
    -- the question has options, as a message of the chat has its buttons
    have hbuttons : s.hasButtons questionId = true := (Option.filter_eq_some_iff.mp hdue).2
    obtain ⟨z, hz, hzbuttons⟩ := List.any_eq_true.mp hbuttons
    rw [Bool.and_eq_true, decide_eq_true_eq] at hzbuttons
    obtain ⟨⟨q, k⟩, hzchunk, hq⟩ := Option.map_eq_some_iff.mp hzbuttons.2
    have hq : q = questionId := hq
    obtain ⟨row, hrow, hdirection, hoptions⟩ := hkept.rows z hz q k hzchunk
    rw [hq] at hrow
    obtain ⟨hmem, hrowid⟩ := Table.get_eq_some_iff.mp hrow
    have hpending : row ∈ questions := by
      refine hquestions.1.mem_iff.mpr (List.mem_filter.mpr ⟨hmem, ?_⟩)
      rw [hdirection, hoptions hzbuttons.1]
      rfl
    have hsome : (questions.find? fun q => s.outbox.telegramMessageIds q.id = some messageId).isSome := by
      rw [List.find?_isSome]
      exact ⟨row, hpending, by rw [hrowid, hattached]; exact decide_eq_true rfl⟩
    obtain ⟨row', hfound⟩ := Option.isSome_iff_exists.mp hsome
    have hattached' : s.outbox.telegramMessageIds row'.id = some messageId := by
      simpa using List.find?_some hfound
    have hsame : some row'.id = some questionId :=
      (source_of_attached hkept hattached').symm.trans (source_of_attached hkept hattached)
    rw [findQuestionByTelegramMessageId, hfound, Option.map_some, hsame]

/-- every search so far has found what it was for -/
def DueMet (s : Chat) : Prop :=
  ∀ f ∈ s.found, ∀ questionId, f.due = some questionId → f.answerTo = some questionId

theorem found_step (chunks : JsString → List (List UInt16)) {a : Chats.Action}
    (ha : ∀ h questions, a ≠ .find h questions) (h : step chunks s a = some s') : s'.found = s.found := by
  cases a with
  | outbox a => exact (beside_outbox chunks h).found
  | post c messageId rejected fate => exact (beside_post chunks h).found
  | noChunks c =>
    rw [step] at h
    split at h
    next input questionId hcall =>
      rw [Option.ite_none_right_eq_some] at h
      exact (beside_withOutbox h.2).found
    next => cases h
  | other messageId text =>
    rw [step, Option.ite_none_right_eq_some, Option.some.injEq] at h
    obtain ⟨-, rfl⟩ := h
    rfl
  | text k messageId text replyTo =>
    rw [step] at h
    split at h
    · rw [Option.ite_none_right_eq_some, Option.some.injEq] at h
      obtain ⟨-, rfl⟩ := h
      rfl
    · cases h
  | find k questions => exact absurd rfl (ha k questions)
  | insert k id fate =>
    rw [step] at h
    split at h
    · rw [onInsert] at h
      split at h
      · obtain ⟨o, ho, rfl⟩ := Option.map_eq_some_iff.mp h
        rfl
      · cases h
        rfl
    · cases h
  | throws k =>
    rw [step] at h
    split at h
    · cases h
      rfl
    · cases h

theorem dueMet_step (chunks : JsString → List (List UInt16)) (hkept : Kept s) {a : Chats.Action}
    (h : step chunks s a = some s') : DueMet s' ↔ DueMet s ∧ QuotesFirst s a := by
  by_cases ha : ∃ k questions, a = .find k questions
  · obtain ⟨k, questions, rfl⟩ := ha
    rw [step] at h
    split at h
    next text repliedId hhandler =>
      rw [Option.ite_none_right_eq_some, Option.some.injEq] at h
      obtain ⟨hpending, rfl⟩ := h
      have hsearch : QuotesFirst s (.find k questions) ↔ ∀ q, s.due repliedId = some q →
          s.findQuestionByTelegramMessageId questions repliedId = some q := by
        constructor
        · intro hfirst q hdue
          exact (found_iff hkept hpending hdue).mpr (hfirst text repliedId q hhandler hdue)
        · intro hfound text' repliedId' q hhandler' hdue
          rw [hhandler] at hhandler'
          cases hhandler'
          exact (found_iff hkept hpending hdue).mp (hfound q hdue)
      rw [hsearch, and_comm]
      exact List.forall_mem_cons
    next => cases h
  · have ha : ∀ k questions, a ≠ .find k questions := fun k questions h => ha ⟨k, questions, h⟩
    have hguard : QuotesFirst s a := by
      cases a with
      | find k questions => exact absurd rfl (ha k questions)
      | _ => trivial
    rw [DueMet, DueMet, found_step chunks ha h]
    exact (and_iff_left hguard).symm

theorem dueMet_run (chunks : JsString → List (List UInt16)) :
    ∀ (as : List Chats.Action) (s u : Chat), Kept s → Runs.run (step chunks) s as = some u →
      (DueMet u ↔ DueMet s ∧ Runs.Guarded (step chunks) QuotesFirst s as) := by
  intro as
  induction as with
  | nil =>
    intro s u _ h
    cases h
    exact (and_iff_left trivial).symm
  | cons a as ih =>
    intro s u hkept h
    obtain ⟨t, ht, hu⟩ := Runs.run_cons_some.mp h
    rw [ih t u (kept_step chunks hkept ht) hu, dueMet_step chunks hkept ht,
      Runs.guarded_cons_some ht, and_assoc]

theorem kept_empty (now : Int) : Kept (empty now) where
  ids := List.nodup_nil
  rows _ hx := nomatch hx
  once _ hx := nomatch hx
  delivering _ _ _ hcall := nomatch hcall
  single _ _ _ _ _ hcall := nomatch hcall
  attaching _ _ _ hcall := nomatch hcall
  attached _ _ h := nomatch h

theorem replied_empty (now : Int) : Replied (empty now) where
  sound _ hf := nomatch hf
  idle _ _ := ⟨(fun _ hf => nomatch hf), fun _ hid => nomatch hid⟩
  finding _ _ _ hh := nomatch hh
  inserting _ _ _ hh := nomatch hh
  stored _ hf := nomatch hf

theorem replied_run (chunks : JsString → List (List UInt16)) {now : Int} {as : List Chats.Action}
    (h : Runs.run (step chunks) (empty now) as = some s) : Kept s ∧ Replied s :=
  Runs.run_inv (P := fun s => Kept s ∧ Replied s)
    (fun _ _ _ hs hstep => ⟨kept_step chunks hs.1 hstep, replied_step chunks hs.1 hs.2 hstep⟩)
    as (empty now) s ⟨kept_empty now, replied_empty now⟩ h

end

/-- **Replies reach their questions** exactly in the runs where each reply to a question whose buttons
are in the chat quotes its first message, and is searched for after the id of that message has been
kept. -/
theorem repliesReach_iff (letter : Nat → Bool) {now : Int} {as : List Chats.Action} {s : Chat}
    (h : Runs.run (step (chunksOf letter)) (empty now) as = some s) :
    RepliesReach s ↔ Runs.Guarded (step (chunksOf letter)) QuotesFirst (empty now) as := by
  obtain ⟨hkept, hreplied⟩ := replied_run (chunksOf letter) h
  have hdue := dueMet_run (chunksOf letter) as (empty now) s (kept_empty now) h
  have hempty : DueMet (empty now) := fun _ hf => nomatch hf
  rw [and_iff_right hempty] at hdue
  rw [← hdue]
  exact ⟨fun hreach => hreach.due, fun hmet => ⟨hmet, hreplied.sound, hreplied.stored⟩⟩

/-- a guard that can be evaluated -/
def quotesFirst (s : Chat) : Chats.Action → Bool
  | .find h _ =>
    match s.handlers h with
    | .finding _ repliedId =>
      (s.due repliedId).all fun q => (s.outbox.telegramMessageIds q).isSome &&
        s.posted.any fun x => decide (x.messageId = repliedId) && decide (x.chunk = some (q, 0))
    | _ => true
  | _ => true

theorem quotesFirst_sound (s : Chat) (a : Chats.Action) (h : quotesFirst s a = true) :
    QuotesFirst s a := by
  cases a with
  | find k questions =>
    intro text repliedId q hhandler hdue
    rw [quotesFirst, hhandler] at h
    dsimp only at h
    rw [hdue, Option.all_some, Bool.and_eq_true, Option.isSome_iff_ne_none] at h
    obtain ⟨x, hx, hfirst⟩ := List.any_eq_true.mp h.2
    rw [Bool.and_eq_true, decide_eq_true_eq, decide_eq_true_eq] at hfirst
    exact ⟨⟨x, hx, hfirst⟩, h.1⟩
  | _ => trivial

/-- a question of one message, and a reply that quotes it -/
def questionQuoted : List Chats.Action :=
  [.outbox (.send 0 ⟨lit "a?", some [lit "ok"]⟩), .outbox (.count 0 true), .outbox (.insert 0 (lit "q") .ok),
    .post 0 1 false .ok, .outbox (.attach 0 .ok), .text 0 2 (lit "ok") (some 1),
    .find 0 [⟨lit "q", .outbound, lit "a?", some [lit "ok"], none, 0⟩], .insert 0 (lit "r") .ok]

theorem question_found : ∃ s,
    Runs.run (step (chunksOf fun _ => true)) (empty 0) questionQuoted = some s ∧ RepliesReach s := by
  have hruns : (Runs.run (step (chunksOf fun _ => true)) (empty 0) questionQuoted).isSome = true := by
    decide
  have hcheck : Runs.checkAll (step (chunksOf fun _ => true)) quotesFirst (empty 0) questionQuoted
      = true := by
    decide
  obtain ⟨s, hs⟩ := Option.isSome_iff_exists.mp hruns
  exact ⟨s, hs, (repliesReach_iff (fun _ => true) hs).mpr
    (Runs.guarded_of_checkAll quotesFirst_sound questionQuoted (empty 0) hcheck)⟩

/-- too long for one message -/
def longBody : JsString := ⟨List.replicate 3900 0x61 ++ newline :: [0x62]⟩

theorem chunksOf_longBody (letter : Nat → Bool) :
    chunksOf letter longBody = [List.replicate 3900 0x61, [0x62]] := by
  have hunits : ∀ u ∈ longBody.units, u = 0x61 ∨ u = newline ∨ u = 0x62 := by
    intro u hu
    rcases List.mem_append.mp hu with hu | hu
    · exact Or.inl (List.eq_of_mem_replicate hu)
    · exact Or.inr (by simpa using hu)
  have hquiet : ∀ u ∈ longBody.units, isQuiet u = true := by
    intro u hu
    rcases hunits u hu with rfl | rfl | rfl <;> decide
  have hplain : escapeHtml longBody.units = longBody.units :=
    escapeHtml_plain fun u hu => by rcases hunits u hu with rfl | rfl | rfl <;> decide
  have hrendered : (markdownToTelegramHtml letter longBody).units = longBody.units :=
    (rendered_quiet hquiet letter).trans hplain
  rw [chunksOf, hrendered]
  decide +kernel

/-- the question goes out in two messages, and the owner quotes the one with the buttons -/
def buttonsQuoted : List Chats.Action :=
  [.outbox (.send 0 ⟨longBody, some [lit "ok"]⟩), .outbox (.count 0 true), .outbox (.insert 0 (lit "q") .ok),
    .post 0 1 false .ok, .post 0 2 false .ok, .outbox (.attach 0 .ok), .text 0 3 (lit "ok") (some 2),
    .find 0 [⟨lit "q", .outbound, longBody, some [lit "ok"], none, 0⟩], .insert 0 (lit "r") .ok]

theorem buttons_not_found : ∃ s,
    Runs.run (step (chunksOf fun _ => true)) (empty 0) buttonsQuoted = some s ∧ ¬ RepliesReach s := by
  have hchunks : chunksOf (fun _ => true) = fun body =>
      if body = longBody then [List.replicate 3900 0x61, [0x62]] else chunksOf (fun _ => true) body := by
    funext body
    split
    next h => rw [h, chunksOf_longBody]
    next => rfl
  have hmissed : ((Runs.run (step (chunksOf fun _ => true)) (empty 0) buttonsQuoted).any fun s =>
      s.found.any fun f => decide (f.due = some (lit "q")) && decide (f.answerTo = none)) = true := by
    rw [hchunks]
    decide +kernel
  cases hrun : Runs.run (step (chunksOf fun _ => true)) (empty 0) buttonsQuoted with
  | none =>
    rw [hrun] at hmissed
    cases hmissed
  | some s =>
    rw [hrun] at hmissed
    obtain ⟨f, hf, hmiss⟩ := List.any_eq_true.mp hmissed
    rw [Bool.and_eq_true, decide_eq_true_eq, decide_eq_true_eq] at hmiss
    refine ⟨s, rfl, fun hreach => ?_⟩
    have hanswer := hreach.due f hf (lit "q") hmiss.1
    rw [hmiss.2] at hanswer
    cases hanswer

end Relay.Chats
