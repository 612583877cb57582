import JinCore.Relay.Chat

/-!
# The messages of the chat and the ids that are kept

* `IsFirst`          a message is the first chunk of a row;
* `Delivering`       how far a delivery is;
* `Kept`             the invariant: each chunk belongs to a row, and an id that is kept, or will be, is
                     that of a first chunk;
* `Moves`, `Kept.move`        steps that leave the chat as it is;
* `kept_insert`, `kept_chunk`, `kept_deliver`, `kept_attach`   what a call does;
* `kept_step`.
-/

namespace Relay.Chats
open JsString Common Send Chat

/-- the message is the first chunk of the row -/
def IsFirst (s : Chat) (questionId : MessageId) (messageId : Int) : Prop :=
  ∃ x ∈ s.posted, x.messageId = messageId ∧ x.chunk = some (questionId, 0)

structure Delivering (s : Chat) (c : CallId) (input : Input) (questionId : MessageId) : Prop where
  row : ∃ row, s.outbox.messages.get questionId = some row ∧ row.direction = .outbound ∧
    row.options = input.options
  sent : ∀ x ∈ s.posted, ∀ k, x.chunk = some (questionId, k) → k < (s.deliveries c).sent
  first : ∀ messageId, (s.deliveries c).firstMessageId = some messageId →
    IsFirst s questionId messageId
  begun : (s.deliveries c).sent ≠ 0 → (s.deliveries c).firstMessageId ≠ none

structure Kept (s : Chat) : Prop where
  ids : (s.posted.map Posted.messageId).Nodup
  rows : ∀ x ∈ s.posted, ∀ questionId k, x.chunk = some (questionId, k) → ∃ row,
    s.outbox.messages.get questionId = some row ∧ row.direction = .outbound ∧
      (x.buttons = true → row.options.isSome)
  once : ∀ x ∈ s.posted, ∀ y ∈ s.posted, ∀ questionId, x.chunk = some (questionId, 0) →
    y.chunk = some (questionId, 0) → x = y
  delivering : ∀ c input questionId, s.outbox.calls c = .delivering input questionId →
    Delivering s c input questionId
  single : ∀ c c' input input' questionId, s.outbox.calls c = .delivering input questionId →
    s.outbox.calls c' = .delivering input' questionId → c = c'
  attaching : ∀ c questionId messageId, s.outbox.calls c = .attaching questionId messageId →
    IsFirst s questionId messageId
  attached : ∀ questionId messageId, s.outbox.telegramMessageIds questionId = some messageId →
    IsFirst s questionId messageId

section
variable {s s' : Chat} {c k : CallId} {questionId : MessageId}

/-- the chat stays, rows are only added, and no call comes to deliver -/
structure Moves (s s' : Chat) : Prop where
  posted : s'.posted = s.posted
  messages : ∀ id row, s.outbox.messages.get id = some row → s'.outbox.messages.get id = some row
  delivering : ∀ c input questionId, s'.outbox.calls c = .delivering input questionId →
    s.outbox.calls c = .delivering input questionId ∧ s'.deliveries c = s.deliveries c
  attaching : ∀ c questionId messageId, s'.outbox.calls c = .attaching questionId messageId →
    IsFirst s questionId messageId
  attached : ∀ questionId messageId, s'.outbox.telegramMessageIds questionId = some messageId →
    IsFirst s questionId messageId

theorem Moves.isFirst (hm : Moves s s') {messageId : Int} (h : IsFirst s questionId messageId) :
    IsFirst s' questionId messageId := by
  obtain ⟨x, hx, hid, hchunk⟩ := h
  exact ⟨x, by rw [hm.posted]; exact hx, hid, hchunk⟩

theorem Kept.move (hkept : Kept s) (hm : Moves s s') : Kept s' where
  ids := by
    rw [hm.posted]
    exact hkept.ids
  rows x hx questionId k hchunk := by
    rw [hm.posted] at hx
    obtain ⟨row, hrow, hrest⟩ := hkept.rows x hx questionId k hchunk
    exact ⟨row, hm.messages _ _ hrow, hrest⟩
  once := by
    rw [hm.posted]
    exact hkept.once
  delivering c input questionId hcall := by
    obtain ⟨hcall, hdelivery⟩ := hm.delivering c input questionId hcall
    obtain ⟨⟨row, hrow, hrest⟩, hsent, hfirst, hbegun⟩ := hkept.delivering c input questionId hcall
    rw [← hdelivery] at hsent hfirst hbegun
    refine ⟨⟨row, hm.messages _ _ hrow, hrest⟩, ?_, fun m h => hm.isFirst (hfirst m h), hbegun⟩
    rw [hm.posted]
    exact hsent
  single c c' input input' questionId hcall hcall' := hkept.single c c' input input' questionId
    (hm.delivering c input questionId hcall).1 (hm.delivering c' input' questionId hcall').1
  attaching c questionId messageId hcall := hm.isFirst (hm.attaching c questionId messageId hcall)
  attached questionId messageId h := hm.isFirst (hm.attached questionId messageId h)

/-! ### the outbox -/

/-- what a call comes to, other than a delivery -/
theorem moves_set (hkept : Kept s) {phase : Send.Phase}
    (hphase : ∀ input questionId, phase ≠ .delivering input questionId)
    (hattaching : ∀ questionId messageId, phase = .attaching questionId messageId →
      IsFirst s questionId messageId) {outbox : Outbox}
    (hmessages : ∀ id row, s.outbox.messages.get id = some row → outbox.messages.get id = some row)
    (hcalls : outbox.calls = fun k => if k = c then phase else s.outbox.calls k)
    (hattached : ∀ questionId messageId, outbox.telegramMessageIds questionId = some messageId →
      IsFirst s questionId messageId) : Moves s { s with outbox := outbox } where
  posted := rfl
  messages := hmessages
  delivering k input questionId hcall := by
    have hcall : outbox.calls k = .delivering input questionId := hcall
    rw [hcalls] at hcall
    dsimp only at hcall
    split at hcall
    · exact absurd hcall (hphase input questionId)
    · exact ⟨hcall, rfl⟩
  attaching k questionId messageId hcall := by
    have hcall : outbox.calls k = .attaching questionId messageId := hcall
    rw [hcalls] at hcall
    dsimp only at hcall
    split at hcall
    · exact hattaching questionId messageId hcall
    · exact hkept.attaching k questionId messageId hcall
  attached := hattached

/-- the call has messages in the chat whose id is not kept yet -/
def carries : Send.Phase → Bool
  | .delivering _ _ | .attaching _ _ => true
  | _ => false

theorem not_delivering {phase : Send.Phase} (hphase : carries phase = false) (input : Input)
    (questionId : MessageId) : phase ≠ .delivering input questionId := by
  rintro rfl
  cases hphase

theorem not_attaching {phase : Send.Phase} (hphase : carries phase = false) {questionId : MessageId}
    {messageId : Int} : phase ≠ .attaching questionId messageId := by
  rintro rfl
  cases hphase

/-- only the calls change -/
theorem kept_phase (hkept : Kept s) (phase : Send.Phase) (hphase : carries phase = false)
    {outbox : Outbox} (hmessages : outbox.messages = s.outbox.messages)
    (hcalls : outbox.calls = fun k => if k = c then phase else s.outbox.calls k)
    (hids : outbox.telegramMessageIds = s.outbox.telegramMessageIds) :
    Kept { s with outbox := outbox } := by
  refine hkept.move (moves_set hkept (not_delivering hphase) (fun q m h => absurd h (not_attaching hphase))
    (fun id row hrow => ?_) hcalls fun q m h => ?_)
  · rw [hmessages]
    exact hrow
  · rw [hids] at h
    exact hkept.attached q m h

theorem get_of_insertRow {o o' : Outbox} {row : RelayMessage} (h : o.insertRow row = some o') :
    (∀ id r, o.messages.get id = some r → o'.messages.get id = some r) ∧
      o.messages.get row.id = none ∧ o'.messages.get row.id = some row ∧ o'.calls = o.calls ∧
      o'.telegramMessageIds = o.telegramMessageIds := by
  obtain ⟨messages, hinsert, rfl⟩ := Option.map_eq_some_iff.mp h
  have hnone := (Table.get_insert hinsert row.id).1
  refine ⟨fun id r hr => ?_, hnone, ?_, rfl, rfl⟩
  · show messages.get id = some r
    rw [(Table.get_insert hinsert id).2, if_neg, hr]
    rintro rfl
    rw [hnone] at hr
    cases hr
  · show messages.get row.id = some row
    rw [(Table.get_insert hinsert row.id).2, if_pos rfl]

/-- a call begins to deliver its new row -/
theorem kept_insert (hkept : Kept s) {input : Input} {outbox : Outbox}
    (hrow : s.outbox.insertRow (s.outbox.outboundRow questionId input) = some outbox)
    {outbox' : Outbox} (hmessages : outbox'.messages = outbox.messages)
    (hcalls : outbox'.calls
      = fun k => if k = c then .delivering input questionId else outbox.calls k)
    (hids : outbox'.telegramMessageIds = outbox.telegramMessageIds) :
    Kept { s.progress c ⟨0, none⟩ with outbox := outbox' } := by
  obtain ⟨hgrow, hnone, hnew, hsame, hids'⟩ := get_of_insertRow hrow
  have hrows : ∀ id r, s.outbox.messages.get id = some r → outbox'.messages.get id = some r := by
    intro id r hr
    rw [hmessages]
    exact hgrow id r hr
  have hcall : ∀ k, outbox'.calls k = if k = c then .delivering input questionId
      else s.outbox.calls k := by
    intro k
    rw [hcalls, hsame]
  -- the row is new, so that no message of the chat is a chunk of it
  have hposted : ∀ x ∈ s.posted, ∀ k, x.chunk ≠ some (questionId, k) := by
    intro x hx k hchunk
    obtain ⟨row, hrow, -⟩ := hkept.rows x hx questionId k hchunk
    have hnone : s.outbox.messages.get questionId = none := hnone
    rw [hnone] at hrow
    cases hrow
  have hfresh : ∀ k other, s.outbox.calls k ≠ .delivering other questionId := by
    intro k other hk
    obtain ⟨row, hrow, -⟩ := (hkept.delivering k other questionId hk).row
    have hnone : s.outbox.messages.get questionId = none := hnone
    rw [hnone] at hrow
    cases hrow
  refine ⟨hkept.ids, fun x hx q k hchunk => ?_, hkept.once, fun k other q hk => ?_,
    fun k k' other other' q hk hk' => ?_, fun k q m hk => ?_, fun q m h => ?_⟩
  · obtain ⟨row, hrow, hrest⟩ := hkept.rows x hx q k hchunk
    exact ⟨row, hrows _ _ hrow, hrest⟩
  · have hk : outbox'.calls k = .delivering other q := hk
    rw [hcall] at hk
    split at hk
    next hkc =>
      cases hk
      subst hkc
      have hdelivery : (s.progress k ⟨0, none⟩).deliveries k = ⟨0, none⟩ := if_pos rfl
      refine ⟨⟨_, by rw [hmessages]; exact hnew, rfl, rfl⟩,
        fun x hx j hchunk => absurd hchunk (hposted x hx j), fun m h => ?_, fun h => ?_⟩
      · have h : ((s.progress k ⟨0, none⟩).deliveries k).firstMessageId = some m := h
        rw [hdelivery] at h
        cases h
      · have h : ((s.progress k ⟨0, none⟩).deliveries k).sent ≠ 0 := h
        rw [hdelivery] at h
        exact absurd rfl h
    next hkc =>
      have hdelivery : (s.progress c ⟨0, none⟩).deliveries k = s.deliveries k := if_neg hkc
      obtain ⟨⟨row, hrow, hrest⟩, hsent, hfirst, hbegun⟩ := hkept.delivering k other q hk
      rw [← hdelivery] at hsent hfirst hbegun
      exact ⟨⟨row, hrows _ _ hrow, hrest⟩, hsent, hfirst, hbegun⟩
  · have hk : outbox'.calls k = .delivering other q := hk
    have hk' : outbox'.calls k' = .delivering other' q := hk'
    rw [hcall] at hk hk'
    split at hk
    next hkc =>
      cases hk
      split at hk'
      next hkc' => rw [hkc, hkc']
      next => exact absurd hk' (hfresh k' other')
    next =>
      split at hk'
      next =>
        cases hk'
        exact absurd hk (hfresh k other)
      next => exact hkept.single k k' other other' q hk hk'
  · have hk : outbox'.calls k = .attaching q m := hk
    rw [hcall] at hk
    split at hk
    next => cases hk
    next => exact hkept.attaching k q m hk
  · have h : outbox'.telegramMessageIds q = some m := h
    rw [hids, hids'] at h
    exact hkept.attached q m h

/-! ### the chat -/

theorem notMem_of_fresh {messageId : Int} (h : s.fresh messageId = true) :
    messageId ∉ s.posted.map Posted.messageId := by
  intro hmem
  obtain ⟨x, hx, hid⟩ := List.mem_map.mp hmem
  exact absurd hid (of_decide_eq_true (List.all_eq_true.mp h x hx))

/-- a message that is no chunk -/
theorem kept_other (hkept : Kept s) {x : Posted} (hfresh : s.fresh x.messageId = true)
    (hx : x.chunk = none) : Kept { s with posted := x :: s.posted } := by
  have hold : ∀ y ∈ x :: s.posted, ∀ q k, y.chunk = some (q, k) → y ∈ s.posted := by
    intro y hy q k hchunk
    rcases List.mem_cons.mp hy with rfl | hy
    · rw [hx] at hchunk
      cases hchunk
    · exact hy
  have hfirst : ∀ q m, IsFirst s q m → IsFirst { s with posted := x :: s.posted } q m :=
    fun q m ⟨y, hy, hrest⟩ => ⟨y, List.mem_cons_of_mem x hy, hrest⟩
  refine ⟨List.nodup_cons.mpr ⟨notMem_of_fresh hfresh, hkept.ids⟩,
    fun y hy q k hchunk => hkept.rows y (hold y hy q k hchunk) q k hchunk,
    fun y hy z hz q hchunk hchunk' => hkept.once y (hold y hy q 0 hchunk) z (hold z hz q 0 hchunk') q
      hchunk hchunk', fun k input q hk => ?_, hkept.single,
    fun k q m hk => hfirst q m (hkept.attaching k q m hk),
    fun q m h => hfirst q m (hkept.attached q m h)⟩
  obtain ⟨hrow, hsent, hdelivery, hbegun⟩ := hkept.delivering k input q hk
  exact ⟨hrow, fun y hy j hchunk => hsent y (hold y hy q j hchunk) j hchunk,
    fun m h => hfirst q m (hdelivery m h), hbegun⟩

/-- the next chunk of a delivery -/
theorem kept_chunk (hkept : Kept s) {input : Input}
    (hcall : s.outbox.calls c = .delivering input questionId) {x : Posted}
    (hfresh : s.fresh x.messageId = true) (hx : x.chunk = some (questionId, (s.deliveries c).sent))
    (hbuttons : x.buttons = true → input.options.isSome) :
    Kept (Chat.progress { s with posted := x :: s.posted } c
      ⟨(s.deliveries c).sent + 1, (s.deliveries c).firstMessageId.or (some x.messageId)⟩) := by
  obtain ⟨⟨row, hrow, hdirection, hoptions⟩, hsent, hdelivery, hbegun⟩ :=
    hkept.delivering c input questionId hcall
  have hfirst : ∀ q m, IsFirst s q m → ∃ y ∈ x :: s.posted, y.messageId = m ∧ y.chunk = some (q, 0) :=
    fun q m ⟨y, hy, hrest⟩ => ⟨y, List.mem_cons_of_mem x hy, hrest⟩
  have hzero : ∀ y ∈ s.posted, ∀ q, x.chunk = some (q, 0) → y.chunk ≠ some (q, 0) := by
    intro y hy q hchunk hchunk'
    rw [hx, Option.some.injEq, Prod.mk.injEq] at hchunk
    obtain ⟨rfl, hnone⟩ := hchunk
    have hlt := hsent y hy 0 hchunk'
    omega
  refine ⟨List.nodup_cons.mpr ⟨notMem_of_fresh hfresh, hkept.ids⟩, fun y hy q k hchunk => ?_,
    fun y hy z hz q hchunk hchunk' => ?_, fun k other q hk => ?_, hkept.single,
    fun k q m hk => hfirst q m (hkept.attaching k q m hk),
    fun q m h => hfirst q m (hkept.attached q m h)⟩
  · rcases List.mem_cons.mp hy with rfl | hy
    · rw [hx, Option.some.injEq, Prod.mk.injEq] at hchunk
      obtain ⟨rfl, -⟩ := hchunk
      exact ⟨row, hrow, hdirection, fun h => hoptions ▸ hbuttons h⟩
    · exact hkept.rows y hy q k hchunk
  · rcases List.mem_cons.mp hy with hyx | hy
    · rcases List.mem_cons.mp hz with hzx | hz
      · rw [hyx, hzx]
      · exact absurd hchunk' (hzero z hz q (hyx ▸ hchunk))
    · rcases List.mem_cons.mp hz with hzx | hz
      · exact absurd hchunk (hzero y hy q (hzx ▸ hchunk'))
      · exact hkept.once y hy z hz q hchunk hchunk'
  · by_cases hkc : k = c
    · subst hkc
      have hk : s.outbox.calls k = .delivering other q := hk
      rw [hcall] at hk
      cases hk
      have hprogress : ((Chat.progress { s with posted := x :: s.posted } k
        ⟨(s.deliveries k).sent + 1, (s.deliveries k).firstMessageId.or (some x.messageId)⟩).deliveries
          k) = ⟨(s.deliveries k).sent + 1, (s.deliveries k).firstMessageId.or (some x.messageId)⟩ :=
        if_pos rfl
      refine ⟨⟨row, hrow, hdirection, hoptions⟩, fun y hy j hchunk => ?_, fun m h => ?_, fun _ => ?_⟩
      · rw [hprogress]
        rcases List.mem_cons.mp hy with rfl | hy
        · rw [hx, Option.some.injEq, Prod.mk.injEq] at hchunk
          exact hchunk.2 ▸ Nat.lt_succ_self _
        · exact Nat.lt_succ_of_lt (hsent y hy j hchunk)
      · rw [hprogress] at h
        cases hid : (s.deliveries k).firstMessageId with
        | some m' =>
          rw [hid, Option.some_or] at h
          cases h
          exact hfirst questionId m (hdelivery m hid)
        | none =>
          -- this is the first one that arrives
          rw [hid, Option.none_or] at h
          cases h
          have hbegin : (s.deliveries k).sent = 0 := by
            by_contra hne
            exact hbegun hne hid
          exact ⟨x, List.mem_cons_self, rfl, by rw [hx, hbegin]⟩
      · rw [hprogress]
        cases (s.deliveries k).firstMessageId with
        | some m => exact fun h => nomatch h
        | none => exact fun h => nomatch h
    · have hother : ((Chat.progress { s with posted := x :: s.posted } c
        ⟨(s.deliveries c).sent + 1, (s.deliveries c).firstMessageId.or (some x.messageId)⟩).deliveries
          k) = s.deliveries k := if_neg hkc
      obtain ⟨hrow', hsent', hdelivery', hbegun'⟩ := hkept.delivering k other q hk
      rw [← hother] at hsent' hdelivery' hbegun'
      refine ⟨hrow', fun y hy j hchunk => ?_, fun m h => hfirst q m (hdelivery' m h), hbegun'⟩
      rcases List.mem_cons.mp hy with rfl | hy
      · rw [hx, Option.some.injEq, Prod.mk.injEq] at hchunk
        obtain ⟨rfl, -⟩ := hchunk
        exact absurd (hkept.single k c other input questionId hk hcall) hkc
      · exact hsent' y hy j hchunk

/-! ### steps -/

/-- the calls, the deliveries and the ids stay, and rows are only added -/
theorem kept_same (hkept : Kept s) (hposted : s'.posted = s.posted)
    (hmessages : ∀ id row, s.outbox.messages.get id = some row → s'.outbox.messages.get id = some row)
    (hcalls : s'.outbox.calls = s.outbox.calls) (hdeliveries : s'.deliveries = s.deliveries)
    (hids : s'.outbox.telegramMessageIds = s.outbox.telegramMessageIds) : Kept s' := by
  refine hkept.move ⟨hposted, hmessages, fun k input q hk => ?_, fun k q m hk => ?_, fun q m h => ?_⟩
  · rw [hcalls] at hk
    exact ⟨hk, congrFun hdeliveries k⟩
  · rw [hcalls] at hk
    exact hkept.attaching k q m hk
  · rw [hids] at h
    exact hkept.attached q m h

/-- a call that delivers nothing may begin anew -/
theorem kept_progress (hkept : Kept s) (delivery : Delivery)
    (hcall : ∀ input questionId, s.outbox.calls c ≠ .delivering input questionId) :
    Kept (s.progress c delivery) := by
  refine hkept.move ⟨rfl, fun _ _ h => h, fun k input q hk => ⟨hk, ?_⟩, hkept.attaching,
    hkept.attached⟩
  have hkc : k ≠ c := fun h => hcall input q (h ▸ hk)
  exact if_neg hkc

theorem withOutbox_some {outbox : Option Outbox} (h : s.withOutbox outbox = some s') :
    ∃ o, outbox = some o ∧ s' = { s with outbox := o } := by
  obtain ⟨o, ho, rfl⟩ := Option.map_eq_some_iff.mp h
  exact ⟨o, ho, rfl⟩

/-- a call in `deliver` comes to its end -/
theorem kept_deliver (hkept : Kept s) {input : Input}
    (hcall : s.outbox.calls c = .delivering input questionId) {chunks : Nat} {reply : Option (Option Int)}
    (hreply : ∀ messageId, reply = some (some messageId) → IsFirst s questionId messageId)
    (h : s.withOutbox (s.outbox.step (.deliver c chunks reply)) = some s') : Kept s' := by
  obtain ⟨o, ho, rfl⟩ := withOutbox_some h
  rw [Outbox.step, hcall] at ho
  cases ho
  cases reply with
  | none =>
    exact kept_phase hkept .failed rfl rfl rfl rfl
  | some first =>
    cases first with
    | none =>
      exact kept_phase hkept (.returned questionId) rfl rfl rfl rfl
    | some messageId =>
      refine hkept.move (moves_set hkept (fun _ _ h => by cases h) (fun q m hphase => ?_)
        (fun _ _ hrow => hrow) rfl hkept.attached)
      cases hphase
      exact hreply messageId rfl

/-- the same, with the last chunk not counted -/
theorem kept_last {delivery : Delivery} (hkept : Kept (s.progress c delivery)) {input : Input}
    (hcall : s.outbox.calls c = .delivering input questionId) {chunks : Nat} {reply : Option (Option Int)}
    (hreply : ∀ messageId, reply = some (some messageId) → IsFirst s questionId messageId)
    (h : s.withOutbox (s.outbox.step (.deliver c chunks reply)) = some s') : Kept s' := by
  obtain ⟨o, ho, rfl⟩ := withOutbox_some h
  have hend : ∀ input q, o.calls c ≠ .delivering input q := by
    intro input q hc
    have hself : ∀ (o : Outbox) phase, (o.set c phase).calls c = phase := fun _ _ => if_pos rfl
    rw [Outbox.step, hcall] at ho
    cases ho
    cases reply with
    | none =>
      rw [Outbox.onDeliver, hself] at hc
      cases hc
    | some first =>
      cases first with
      | none =>
        rw [Outbox.onDeliver, Outbox.finish, hself] at hc
        cases hc
      | some m =>
        rw [Outbox.onDeliver, hself] at hc
        cases hc
  have hstep : (s.progress c delivery).withOutbox (s.outbox.step (.deliver c chunks reply))
      = some { s.progress c delivery with outbox := o } := by
    rw [ho]
    rfl
  have hcounted : Kept { s.progress c delivery with outbox := o } :=
    kept_deliver hkept hcall hreply hstep
  refine hcounted.move ⟨rfl, fun _ _ hrow => hrow, fun k input q hk => ⟨hk, ?_⟩, hcounted.attaching,
    hcounted.attached⟩
  have hkc : k ≠ c := fun h => hend input q (h ▸ hk)
  exact (if_neg hkc).symm

/-- a call inserts its row, or fails to -/
theorem kept_onInsert (hkept : Kept s) {id : MessageId} {fate : Fate}
    (h : (s.progress c ⟨0, none⟩).withOutbox (s.outbox.step (.insert c id fate)) = some s') :
    Kept s' := by
  obtain ⟨o, ho, rfl⟩ := withOutbox_some h
  rw [Outbox.step] at ho
  split at ho
  next input hcall =>
    have hprogress : Kept (s.progress c ⟨0, none⟩) := by
      refine kept_progress hkept _ fun input' q hcall' => ?_
      rw [hcall] at hcall'
      cases hcall'
    cases fate with
    | lost =>
      cases ho
      exact kept_phase hprogress .failed rfl rfl rfl rfl
    | ok =>
      obtain ⟨outbox, hrow, rfl⟩ := Option.map_eq_some_iff.mp ho
      exact kept_insert hkept hrow rfl rfl rfl
    | applied =>
      obtain ⟨outbox, hrow, rfl⟩ := Option.map_eq_some_iff.mp ho
      obtain ⟨hgrow, -, -, hcalls, hids⟩ := get_of_insertRow hrow
      have hnew : Kept { s.progress c ⟨0, none⟩ with outbox := outbox } :=
        kept_same hprogress rfl hgrow hcalls rfl hids
      exact kept_phase hnew .failed rfl rfl rfl rfl
  next => cases ho

/-- the id of the first message is written, or is not -/
theorem kept_attach (hkept : Kept s) {fate : Fate}
    (h : s.withOutbox (s.outbox.step (.attach c fate)) = some s') : Kept s' := by
  obtain ⟨o, ho, rfl⟩ := withOutbox_some h
  rw [Outbox.step] at ho
  split at ho
  next q m hcall =>
    cases ho
    have hwritten : ∀ q' m', (if q' = q then some m else s.outbox.telegramMessageIds q') = some m' →
        IsFirst s q' m' := by
      intro q' m' h
      split at h
      next hq =>
        cases h
        rw [hq]
        exact hkept.attaching c q m hcall
      next => exact hkept.attached q' m' h
    have hwrite : ∀ phase : Send.Phase, carries phase = false → ∀ o : Outbox,
        o.messages = s.outbox.messages →
        o.calls = (fun k => if k = c then phase else s.outbox.calls k) →
        (∀ q' m', o.telegramMessageIds q' = some m' → IsFirst s q' m') →
        Kept { s with outbox := o } := by
      intro phase hphase o hmessages hcalls hids
      refine hkept.move (moves_set hkept (not_delivering hphase)
        (fun _ _ h => absurd h (not_attaching hphase)) (fun id row hrow => ?_) hcalls hids)
      rw [hmessages]
      exact hrow
    cases fate with
    | ok => exact hwrite (.returned q) rfl _ rfl rfl hwritten
    | applied => exact hwrite .failed rfl _ rfl rfl hwritten
    | lost => exact hwrite .failed rfl _ rfl rfl hkept.attached
  next => cases ho

/-- a call takes a step that is not in `deliver` -/
theorem kept_outbox (chunks : JsString → List (List UInt16)) (hkept : Kept s) {a : Send.Action}
    (h : step chunks s (.outbox a) = some s') : Kept s' := by
  cases a with
  | deliver => cases h
  | insert c id fate => exact kept_onInsert hkept h
  | attach c fate => exact kept_attach hkept h
  | tick now =>
    obtain ⟨o, ho, rfl⟩ := withOutbox_some h
    rw [Outbox.step, Option.ite_none_right_eq_some, Option.some.injEq] at ho
    obtain ⟨-, rfl⟩ := ho
    exact kept_same hkept rfl (fun _ _ hrow => hrow) rfl rfl rfl
  | insertInbound id body answerTo =>
    obtain ⟨o, ho, rfl⟩ := withOutbox_some h
    obtain ⟨hgrow, -, -, hcalls, hids⟩ := get_of_insertRow ho
    exact kept_same hkept rfl hgrow hcalls rfl hids
  | send c input =>
    obtain ⟨o, ho, rfl⟩ := withOutbox_some h
    rw [Outbox.step] at ho
    split at ho
    next =>
      cases ho
      exact kept_phase hkept (.counting input s.outbox.clock) rfl rfl rfl rfl
    next => cases ho
  | count c heard =>
    obtain ⟨o, ho, rfl⟩ := withOutbox_some h
    rw [Outbox.step] at ho
    split at ho
    next input now hcall =>
      cases ho
      refine kept_phase hkept (if heard then s.outbox.afterCount input now else .failed) ?_ rfl rfl rfl
      unfold Outbox.afterCount
      split
      · split <;> rfl
      · rfl
    next => cases ho

/-- a chunk arrives, or does not -/
theorem kept_post (chunks : JsString → List (List UInt16)) (hkept : Kept s) {messageId : Int}
    {rejected : Bool} {fate : Fate} (h : step chunks s (.post c messageId rejected fate) = some s') :
    Kept s' := by
  rw [step] at h
  split at h
  next input questionId hcall =>
    split at h
    next chunk hchunk =>
      split at h
      next =>
        rw [Option.ite_none_right_eq_some] at h
        obtain ⟨hfresh, h⟩ := h
        have hbuttons : (postedOf chunks input questionId (s.deliveries c).sent chunk messageId
            rejected).buttons = true → input.options.isSome := by
          intro hbuttons
          have hoptions := (Bool.and_eq_true_iff.mp hbuttons).2
          cases hsome : input.options with
          | some options => rfl
          | none =>
            rw [hsome] at hoptions
            cases hoptions
        have hnext := kept_chunk hkept hcall hfresh rfl hbuttons
        rw [onPost] at h
        split at h
        next =>
          split at h
          next =>
            refine kept_last hnext hcall (fun m hm => ?_) h
            rw [Option.some.injEq] at hm
            exact (hnext.delivering c input questionId hcall).first m
              ((congrArg Delivery.firstMessageId (if_pos rfl)).trans hm)
          next =>
            cases h
            exact hnext
        next => exact kept_last hnext hcall (fun _ h => by cases h) h
      next => exact kept_deliver hkept hcall (fun _ h => by cases h) h
    next => cases h
  next => cases h

theorem kept_step (chunks : JsString → List (List UInt16)) (hkept : Kept s) {a : Chats.Action}
    (h : step chunks s a = some s') : Kept s' := by
  cases a with
  | outbox a => exact kept_outbox chunks hkept h
  | post c messageId rejected fate => exact kept_post chunks hkept h
  | noChunks c =>
    rw [step] at h
    split at h
    next input questionId hcall =>
      rw [Option.ite_none_right_eq_some] at h
      exact kept_deliver hkept hcall (fun _ h => by cases h) h.2
    next => cases h
  | other messageId text =>
    rw [step, Option.ite_none_right_eq_some, Option.some.injEq] at h
    obtain ⟨hfresh, rfl⟩ := h
    exact kept_other hkept hfresh rfl
  | text h' messageId text replyTo =>
    rw [step] at h
    split at h
    next =>
      rw [Option.ite_none_right_eq_some, Option.some.injEq] at h
      obtain ⟨⟨hfresh, -⟩, rfl⟩ := h
      have hnew := kept_other (x := ⟨messageId, text.units, none, false⟩) hkept hfresh rfl
      exact kept_same hnew rfl (fun _ _ hrow => hrow) rfl rfl rfl
    next => cases h
  | find h' questions =>
    rw [step] at h
    split at h
    next =>
      rw [Option.ite_none_right_eq_some, Option.some.injEq] at h
      obtain ⟨-, rfl⟩ := h
      exact kept_same hkept rfl (fun _ _ hrow => hrow) rfl rfl rfl
    next => cases h
  | insert h' id fate =>
    rw [step] at h
    split at h
    next text answerTo hhandler =>
      rw [onInsert] at h
      split at h
      next =>
        obtain ⟨o, ho, rfl⟩ := Option.map_eq_some_iff.mp h
        obtain ⟨hgrow, -, -, hcalls, hids⟩ := get_of_insertRow ho
        exact kept_same hkept rfl hgrow hcalls rfl hids
      next =>
        cases h
        exact kept_same hkept rfl (fun _ _ hrow => hrow) rfl rfl rfl
    next => cases h
  | throws h' =>
    rw [step] at h
    split at h
    next =>
      cases h
      exact kept_same hkept rfl (fun _ _ hrow => hrow) rfl rfl rfl
    next => cases h

end

end Relay.Chats
