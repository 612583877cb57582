import JinCore.Lib.Room
import JinCore.Lib.Runs
import JinCore.Relay.Send

/-!
# The quota of an hour

The count and the insert of a call are two statements, so the calls that have found room and have not
inserted yet count as well.

* `QuotaHeld`        every window of an hour, and the calls that were refused;
* `LeavesRoom`       a call finds room where there is room for it beside those that wait;
* `Kept`             the invariant; `kept_insert`, `kept_count`, `kept_step`;
* `quota_held`, `quota_overrun`.
-/

namespace Relay.Send
open JsString Common Outbox Room

/-- the outbound rows of the hour from `since` on -/
def Outbox.sentWithin (s : Outbox) (since : Int) : List RelayMessage :=
  (s.sentSince since).filter fun row => decide (row.createdAt ≤ since + hourMs)

structure QuotaHeld (s : Outbox) : Prop where
  window : ∀ since, (s.sentWithin since).length ≤ maxOutPerHour
  refused : ∀ c, s.calls c = .threw relayQuotaExceededError →
    ∀ id, (c, id) ∉ s.created ∧ (c, id) ∉ s.delivered

/-- the call has found room and waits for its insert -/
def Waiting (s : Outbox) (c : CallId) : Prop := ∃ input, s.calls c = .inserting input

/-- a call that finds room would find it even if those that wait had inserted -/
def LeavesRoom (s : Outbox) : Action → Prop
  | .count c true => ∀ input now, s.calls c = .counting input now → s.outQuotaExceeded now = false →
      Fits (Waiting s) ((s.sentSince (now - hourMs)).length + 1) maxOutPerHour
  | _ => True

/-! ## the invariant -/

/-- the call has inserted nothing -/
def Phase.early : Phase → Bool
  | .idle | .counting _ _ | .inserting _ | .threw _ => true
  | _ => false

structure Kept (s : Outbox) : Prop where
  room : Fits (Waiting s) (s.sentSince (s.clock - hourMs)).length maxOutPerHour
  window : ∀ since, (s.sentWithin since).length ≤ maxOutPerHour
  counting : ∀ c input now, s.calls c = .counting input now → now ≤ s.clock
  early : ∀ c, (s.calls c).early = true → ∀ id, (c, id) ∉ s.created ∧ (c, id) ∉ s.delivered

section
variable {s s' : Outbox} {c k : CallId} {phase : Phase}

theorem set_self (s : Outbox) (c : CallId) (phase : Phase) : (s.set c phase).calls c = phase :=
  if_pos rfl

theorem set_other (s : Outbox) (hk : k ≠ c) (phase : Phase) :
    (s.set c phase).calls k = s.calls k := if_neg hk

theorem sentSince_le (s : Outbox) {since since' : Int} (h : since ≤ since') :
    (s.sentSince since').length ≤ (s.sentSince since).length := by
  unfold sentSince
  rw [← List.countP_eq_length_filter, ← List.countP_eq_length_filter]
  refine List.countP_mono_left fun row _ hrow => ?_
  rw [Bool.and_eq_true, decide_eq_true_eq] at hrow ⊢
  exact ⟨hrow.1, le_trans h (of_decide_eq_true hrow.2) |> decide_eq_true⟩

/-- what a step leaves as it was, up to the call that takes it -/
structure Moves (c : CallId) (s s' : Outbox) : Prop where
  messages : s'.messages = s.messages
  clock : s'.clock = s.clock
  created : s'.created = s.created
  delivered : ∀ k id, k ≠ c → (k, id) ∈ s'.delivered → (k, id) ∈ s.delivered
  calls : ∀ k, k ≠ c → s'.calls k = s.calls k

theorem Moves.sentSince (hm : Moves c s s') : s'.sentSince = s.sentSince := by
  funext since
  unfold Outbox.sentSince
  rw [hm.messages]

/-- a call moves on, not to its insert -/
theorem Kept.move (hkept : Kept s) (hm : Moves c s s')
    (hphase : ∀ input, s'.calls c ≠ .inserting input)
    (hcounting : ∀ input now, s'.calls c = .counting input now → now ≤ s.clock)
    (hearly : (s'.calls c).early = true → ∀ id, (c, id) ∉ s.created ∧ (c, id) ∉ s'.delivered) :
    Kept s' where
  room := by
    rw [hm.sentSince, hm.clock]
    refine hkept.room.mono (fun k hk => ?_) (le_refl _)
    obtain ⟨input, hinput⟩ := hk
    have hne : k ≠ c := fun h => hphase input (h ▸ hinput)
    exact ⟨input, (hm.calls k hne).symm.trans hinput⟩
  window since := by
    unfold sentWithin
    rw [hm.sentSince]
    exact hkept.window since
  counting k input now hk := by
    rw [hm.clock]
    by_cases hkc : k = c
    · exact hcounting input now (hkc ▸ hk)
    · exact hkept.counting k input now ((hm.calls k hkc).symm.trans hk)
  early k hk id := by
    rw [hm.created]
    by_cases hkc : k = c
    · subst hkc
      exact hearly hk id
    · rw [hm.calls k hkc] at hk
      obtain ⟨hcreated, hdelivered⟩ := hkept.early k hk id
      exact ⟨hcreated, fun h => hdelivered (hm.delivered k id hkc h)⟩

theorem moves_set (s : Outbox) (c : CallId) (phase : Phase) : Moves c s (s.set c phase) where
  messages := rfl
  clock := rfl
  created := rfl
  delivered _ _ _ h := h
  calls _ hk := set_other s hk phase

/-- a call that ends, or stands after its insert -/
theorem Kept.late (hkept : Kept s) (hm : Moves c s s') (hlate : (s'.calls c).early = false) :
    Kept s' := by
  have hnot : ∀ phase : Phase, phase.early = true → s'.calls c ≠ phase := by
    intro phase hphase h
    rw [h, hphase] at hlate
    cases hlate
  refine hkept.move hm (fun input => hnot _ rfl) (fun input now h => absurd h (hnot _ rfl)) fun h => ?_
  rw [hlate] at h
  cases h

/-! ### the clock and the rows -/

theorem kept_tick {now : Int} (hkept : Kept s) (hnow : s.clock ≤ now) :
    Kept { s with clock := now } where
  room := hkept.room.mono (fun _ hk => hk)
    (sentSince_le s (show s.clock - hourMs ≤ now - hourMs by omega))
  window := hkept.window
  counting c input t h := le_trans (hkept.counting c input t h) hnow
  early := hkept.early

/-- a row from elsewhere does not count -/
theorem kept_inbound {row : RelayMessage} (hkept : Kept s) (hrow : row.direction = .inbound)
    (h : s.insertRow row = some s') : Kept s' := by
  obtain ⟨messages, hinsert, rfl⟩ := Option.map_eq_some_iff.mp h
  have hrows := Table.rows_insert hinsert
  have hsent : ∀ since, Outbox.sentSince { s with messages := messages } since = s.sentSince since := by
    intro since
    unfold Outbox.sentSince
    rw [hrows, List.filter_append, List.filter_singleton, hrow]
    exact List.append_nil _
  refine ⟨?_, fun since => ?_, hkept.counting, hkept.early⟩
  · rw [hsent]
    exact hkept.room
  · unfold sentWithin
    rw [hsent]
    exact hkept.window since

/-- the row of a call that waited, at the time of the clock -/
theorem sentSince_insert {id : MessageId} {input : Input}
    (h : s.insertRow (s.outboundRow id input) = some s') (since : Int) : s'.sentSince since
      = s.sentSince since ++ if since ≤ s.clock then [s.outboundRow id input] else [] := by
  obtain ⟨messages, hinsert, rfl⟩ := Option.map_eq_some_iff.mp h
  unfold Outbox.sentSince
  rw [Table.rows_insert hinsert, List.filter_append, List.filter_singleton]
  have hdirection : decide ((s.outboundRow id input).direction = .outbound) = true := rfl
  have hcreatedAt : (s.outboundRow id input).createdAt = s.clock := rfl
  rw [hdirection, hcreatedAt, Bool.true_and]
  by_cases hsince : since ≤ s.clock
  · rw [if_pos hsince, decide_eq_true hsince]
    rfl
  · rw [if_neg hsince, decide_eq_false hsince]
    rfl

theorem sentWithin_insert {id : MessageId} {input : Input}
    (h : s.insertRow (s.outboundRow id input) = some s') (since : Int) : (s'.sentWithin since).length
      ≤ (s.sentWithin since).length + if since ≤ s.clock ∧ s.clock ≤ since + hourMs then 1 else 0 := by
  unfold sentWithin
  rw [sentSince_insert h, List.filter_append, List.length_append]
  refine Nat.add_le_add_left ?_ _
  by_cases hsince : since ≤ s.clock
  · rw [if_pos hsince, List.filter_singleton]
    have hcreatedAt : (s.outboundRow id input).createdAt = s.clock := rfl
    rw [hcreatedAt]
    by_cases hend : s.clock ≤ since + hourMs
    · rw [if_pos ⟨hsince, hend⟩, decide_eq_true hend]
      exact le_refl 1
    · rw [decide_eq_false hend]
      exact Nat.zero_le _
  · rw [if_neg hsince]
    exact Nat.zero_le _

/-- a call that waited inserts, and does not wait any more -/
theorem kept_insert {id : MessageId} {input : Input} (hkept : Kept s)
    (hcall : s.calls c = .inserting input) (h : s.insertRow (s.outboundRow id input) = some s')
    (hlate : phase.early = false) :
    Kept ({ s' with created := (c, id) :: s'.created }.set c phase) := by
  have hsent := sentSince_insert h
  have hwithin := sentWithin_insert h
  obtain ⟨messages, -, rfl⟩ := Option.map_eq_some_iff.mp h
  let t : Outbox := { s with messages := messages, created := (c, id) :: s.created }
  have hcalls : ∀ k, (t.set c phase).calls k = if k = c then phase else s.calls k := fun _ => rfl
  have hself : ∀ other : Phase, other.early = true → (t.set c phase).calls c ≠ other := by
    intro other hother hc
    rw [hcalls, if_pos rfl] at hc
    rw [hc, hother] at hlate
    cases hlate
  have hothers : ∀ k, Waiting (t.set c phase) k → k ≠ c ∧ Waiting s k := by
    rintro k ⟨other, hother⟩
    have hkc : k ≠ c := by
      rintro rfl
      exact hself _ rfl hother
    rw [hcalls, if_neg hkc] at hother
    exact ⟨hkc, other, hother⟩
  have hroom : Fits (Waiting (t.set c phase)) ((s.sentSince (s.clock - hourMs)).length + 1)
      maxOutPerHour := hkept.room.take ⟨input, hcall⟩ hothers
  refine ⟨?_, fun since => ?_, fun k other now hk => ?_, fun k hk id' => ?_⟩
  · have hhour : s.clock - hourMs ≤ s.clock := by
      unfold hourMs
      omega
    have hlength := congrArg List.length (hsent (s.clock - hourMs))
    rw [if_pos hhour, List.length_append, List.length_singleton] at hlength
    exact hroom.mono (fun _ hk => hk) (le_of_eq hlength)
  · have hone := hroom.le
    refine le_trans (hwithin since) ?_
    split
    next hin =>
      have hfilter : (s.sentWithin since).length ≤ (s.sentSince since).length :=
        List.length_filter_le _ _
      have hfewer := sentSince_le s (show s.clock - hourMs ≤ since by omega)
      omega
    next => exact hkept.window since
  · by_cases hkc : k = c
    · exact absurd (hkc ▸ hk) (hself _ rfl)
    · rw [hcalls, if_neg hkc] at hk
      exact hkept.counting k other now hk
  · by_cases hkc : k = c
    · subst hkc
      exact absurd rfl (hself _ hk)
    · rw [hcalls, if_neg hkc] at hk
      obtain ⟨hcreated, hdelivered⟩ := hkept.early k hk id'
      refine ⟨fun hmem => ?_, hdelivered⟩
      rcases List.mem_cons.mp hmem with hpair | hmem
      · exact hkc (Prod.mk.inj hpair).1
      · exact hcreated hmem

/-! ### every step -/

/-- a call that finds room beside those that wait -/
theorem kept_count {input : Input} {now : Int} (hkept : Kept s)
    (hcall : s.calls c = .counting input now) (hroom : LeavesRoom s (.count c true)) :
    Kept (s.set c (s.afterCount input now)) := by
  have hnow := hkept.counting c input now hcall
  have hearly := hkept.early c (by rw [hcall]; rfl)
  unfold afterCount
  cases hfull : s.outQuotaExceeded now with
  | true =>
    refine hkept.move (moves_set s c _) (fun other => ?_) (fun other t => ?_) fun _ => hearly
    · rw [set_self]
      exact Phase.noConfusion
    · rw [set_self]
      exact Phase.noConfusion
  | false =>
    refine ⟨?_, hkept.window, fun k other t hk => ?_, fun k hk id => ?_⟩
    · have hwaiting : ∀ k, Waiting (s.set c (.inserting input)) k → k = c ∨ Waiting s k := by
        rintro k ⟨other, hother⟩
        by_cases hkc : k = c
        · exact Or.inl hkc
        · exact Or.inr ⟨other, (set_other s hkc _).symm.trans hother⟩
      have hjoin := (hroom input now hcall hfull).join hwaiting
      exact hjoin.mono (fun _ hk => hk)
        (sentSince_le s (show now - hourMs ≤ s.clock - hourMs by omega))
    · by_cases hkc : k = c
      · rw [hkc, set_self] at hk
        cases hk
      · rw [set_other s hkc] at hk
        exact hkept.counting k other t hk
    · by_cases hkc : k = c
      · subst hkc
        exact hearly id
      · rw [set_other s hkc] at hk
        exact hkept.early k hk id

theorem kept_onDeliver (hkept : Kept s) (c : CallId) (id : MessageId) (chunks : Nat)
    (reply : Option (Option Int)) : Kept (s.onDeliver c id chunks reply) := by
  have hdelivered : ∀ k id', k ≠ c → (k, id') ∈ List.replicate chunks (c, id) ++ s.delivered →
      (k, id') ∈ s.delivered := by
    intro k id' hk hmem
    refine (List.mem_append.mp hmem).resolve_left fun h => hk ?_
    exact (Prod.mk.inj (List.eq_of_mem_replicate h)).1
  have hcalls : ∀ (phase : Phase) k, k ≠ c → (if k = c then phase else s.calls k) = s.calls k :=
    fun _ _ hk => if_neg hk
  rcases reply with _ | _ | messageId
  · exact hkept.late (c := c) ⟨rfl, rfl, rfl, hdelivered, hcalls _⟩ (by rw [onDeliver, set_self]; rfl)
  · exact hkept.late (c := c) ⟨rfl, rfl, rfl, hdelivered, hcalls _⟩
      (by rw [onDeliver, finish, set_self]; rfl)
  · exact hkept.late (c := c) ⟨rfl, rfl, rfl, hdelivered, hcalls _⟩ (by rw [onDeliver, set_self]; rfl)

theorem kept_onAttach (hkept : Kept s) (c : CallId) (id : MessageId) (messageId : Int) (fate : Fate) :
    Kept (s.onAttach c id messageId fate) := by
  have hcalls : ∀ (phase : Phase) k, k ≠ c → (if k = c then phase else s.calls k) = s.calls k :=
    fun _ _ hk => if_neg hk
  have hrest : ∀ phase : Phase, phase.early = false → (s.onAttach c id messageId fate).calls c = phase →
      ((s.onAttach c id messageId fate).calls c).early = false := by
    intro phase hphase h
    rw [h, hphase]
  cases fate with
  | ok =>
    exact hkept.late (c := c) ⟨rfl, rfl, rfl, fun _ _ _ h => h, hcalls _⟩
      (hrest (.returned id) rfl (if_pos rfl))
  | lost =>
    exact hkept.late (c := c) ⟨rfl, rfl, rfl, fun _ _ _ h => h, hcalls _⟩
      (hrest .failed rfl (if_pos rfl))
  | applied =>
    exact hkept.late (c := c) ⟨rfl, rfl, rfl, fun _ _ _ h => h, hcalls _⟩
      (hrest .failed rfl (if_pos rfl))

theorem kept_step (hkept : Kept s) {a : Action} (hroom : LeavesRoom s a) (hstep : step s a = some s') :
    Kept s' := by
  cases a with
  | tick now =>
    obtain ⟨hnow, hstep⟩ := Option.ite_none_right_eq_some.mp hstep
    cases hstep
    exact kept_tick hkept hnow
  | insertInbound id body answerTo => exact kept_inbound hkept rfl hstep
  | send c input =>
    rw [step] at hstep
    split at hstep
    next hcall =>
      cases hstep
      have hearly := hkept.early c (by rw [hcall]; rfl)
      refine hkept.move (moves_set s c _) (fun other => ?_) (fun other t h => ?_) fun _ => hearly
      · rw [set_self]
        exact Phase.noConfusion
      · rw [set_self] at h
        cases h
        exact le_refl _
    next => cases hstep
  | count c heard =>
    rw [step] at hstep
    split at hstep
    next input now hcall =>
      cases hstep
      cases heard with
      | true => exact kept_count hkept hcall hroom
      | false => exact hkept.late (moves_set s c .failed) (by rw [if_neg Bool.false_ne_true, set_self]; rfl)
    next => cases hstep
  | insert c id fate =>
    rw [step] at hstep
    split at hstep
    next input hcall =>
      cases fate with
      | lost =>
        cases hstep
        exact hkept.late (moves_set s c .failed) (by rw [set_self]; rfl)
      | ok =>
        obtain ⟨t, hrow, rfl⟩ := Option.map_eq_some_iff.mp hstep
        exact kept_insert hkept hcall hrow rfl
      | applied =>
        obtain ⟨t, hrow, rfl⟩ := Option.map_eq_some_iff.mp hstep
        exact kept_insert hkept hcall hrow rfl
    next => cases hstep
  | deliver c chunks reply =>
    rw [step] at hstep
    split at hstep
    next input id hcall =>
      cases hstep
      exact kept_onDeliver hkept c id chunks reply
    next => cases hstep
  | attach c fate =>
    rw [step] at hstep
    split at hstep
    next id messageId hcall =>
      cases hstep
      exact kept_onAttach hkept c id messageId fate
    next => cases hstep

theorem kept_empty (now : Int) : Kept (empty now) where
  room := fits_of_none (fun _ hc => Phase.noConfusion hc.choose_spec) (Nat.zero_le _)
  window _ := Nat.zero_le _
  counting _ _ _ h := Phase.noConfusion h
  early _ _ _ := ⟨List.not_mem_nil, List.not_mem_nil⟩

end

/-! ## runs -/

theorem quota_held (now : Int) (as : List Action) (s : Outbox)
    (hroom : Runs.Guarded step LeavesRoom (empty now) as)
    (hrun : Runs.run step (empty now) as = some s) : QuotaHeld s := by
  have hkept : Kept s := Runs.run_inv_guarded (fun s a t hs ha hstep => kept_step hs ha hstep)
    as (empty now) s (kept_empty now) hroom hrun
  exact ⟨hkept.window, fun c hc => hkept.early c (by rw [hc]; rfl)⟩

/-- one message, alone -/
def oneMessage : List Action :=
  [.send 1 ⟨lit "hola", none⟩, .count 1 true, .insert 1 (lit "m1") .ok, .deliver 1 1 (some (some 7)),
    .attach 1 .ok]

theorem quota_held_oneMessage : ∃ s, Runs.run step (empty 0) oneMessage = some s ∧
    s.calls 1 = .returned (lit "m1") ∧ QuotaHeld s := by
  have hrun : (Runs.run step (empty 0) oneMessage).map (fun s => s.calls 1)
      = some (.returned (lit "m1")) := by decide
  obtain ⟨s, hs, hcall⟩ := Option.map_eq_some_iff.mp hrun
  refine ⟨s, hs, hcall, quota_held 0 oneMessage s ⟨trivial, fun t ht => ⟨?_, fun _ _ => ⟨trivial,
    fun _ _ => ⟨trivial, fun _ _ => ⟨trivial, fun _ _ => trivial⟩⟩⟩⟩⟩ hs⟩
  cases ht
  intro input now _ _
  refine fits_of_none ?_ (by decide : 0 + 1 ≤ maxOutPerHour)
  rintro c ⟨other, hother⟩
  by_cases hc : c = 1
  · rw [hc, set_self] at hother
    cases hother
  · rw [set_other _ hc] at hother
    cases hother

/-- calls that all count before any of them inserts -/
def flood (n : Nat) : List Action :=
  (List.range n).map (fun c => .send c ⟨lit "hola", none⟩)
    ++ ((List.range n).map (fun c => .count c true)
      ++ (List.range n).map fun c => .insert c ⟨[UInt16.ofNat c]⟩ .ok)

theorem quota_overrun : ∃ s, Runs.run step (empty 0) (flood 31) = some s ∧ ¬ QuotaHeld s := by
  have hrun : (Runs.run step (empty 0) (flood 31)).map (fun s => (s.sentWithin 0).length) = some 31 := by
    decide
  obtain ⟨s, hs, hlength⟩ := Option.map_eq_some_iff.mp hrun
  refine ⟨s, hs, fun hheld => ?_⟩
  have hwindow := hheld.window 0
  rw [hlength] at hwindow
  exact absurd hwindow (by decide)

end Relay.Send
